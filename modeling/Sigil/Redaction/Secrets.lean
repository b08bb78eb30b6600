import Sigil.Redaction.Seams

/-! # Tokens and API keys

A bearer token and the value of an API key, when each is all there is behind its literal. The five
patterns that come before the two of the secrets may take numbers out of the middle. What is in front
of the first number is still taken with the literal if it is long enough; what is behind it has lost
the literal and stays, unless it is taken for something else.
-/
set_option autoImplicit false

namespace Sigil.Redaction

open Regex

/-! ## Token characters -/

/-- A secret value of at least `m` characters. -/
structure Token (m : ℕ) where
  chars : List Char
  length_ge : m ≤ chars.length
  token : ∀ c ∈ chars, isTokenChar c = true

theorem toNat_of_token {c : Char} (h : isTokenChar c = true) : c.toNat < 0x80 := by
  have hupTo : ∀ top : Char, top.toNat < 0x80 → c.val ≤ top.val → c.toNat < 0x80 :=
    fun top htop hle => lt_of_le_of_lt hle htop
  obtain halnum | hother := Bool.or_eq_true_iff.mp h
  · obtain halpha | hdigit := Bool.or_eq_true_iff.mp halnum
    · obtain hupper | hlower := Bool.or_eq_true_iff.mp halpha
      · exact hupTo 'Z' (by decide) (of_decide_eq_true hupper).2
      · exact hupTo 'z' (by decide) (of_decide_eq_true (Bool.and_eq_true_iff.mp hlower).2)
    · exact hupTo '9' (by decide) (of_decide_eq_true (Bool.and_eq_true_iff.mp hdigit).2)
  · have hmem := of_decide_eq_true hother
    simp only [List.mem_cons, List.not_mem_nil, or_false] at hmem
    rcases hmem with rfl | rfl | rfl | rfl | rfl | rfl | rfl <;> decide

/-- What holds of every ASCII character that a token may have holds of all its characters. -/
theorem token_induction {q : Char → Prop}
    (h : ∀ n < 0x80, isTokenChar (Char.ofNat n) = true → q (Char.ofNat n)) {c : Char}
    (hc : isTokenChar c = true) : q c := by
  have hq := h c.toNat (toNat_of_token hc)
  rw [Char.ofNat_toNat] at hq
  exact hq hc

theorem not_space_of_token {c : Char} (h : isTokenChar c = true) : isSpace c = false :=
  token_induction (q := fun c => isSpace c = false) (by decide) h

theorem caseFold_token {c : Char} (h : isTokenChar c = true) : isTokenChar (caseFold c) = true :=
  token_induction (q := fun c => isTokenChar (caseFold c) = true) (by decide) h

theorem ne_of_token {c : Char} (h : isTokenChar c = true) : c ≠ '<' ∧ c ≠ '@' ∧ c ≠ ':' :=
  token_induction (q := fun c => c ≠ '<' ∧ c ≠ '@' ∧ c ≠ ':') (by decide) h

/-! ## IPv4 addresses -/

section IPv4

variable (U : CharTables)

/-- The pattern of IPv4 addresses matches all of the word. -/
def IsIPv4 (w : List Char) : Prop := Matches (ipv4 U) none w none

theorem octet_only : Only (fun c => U.isDecimal c = true) (octet U) := by
  have hdigit : ∀ c : Char, c.isDigit = true → U.isDecimal c = true := isDecimal_of_digit U
  simp only [octet, concat, opt, Only, lit, oneOf, digit, decide_eq_true_eq, forall_eq,
    List.mem_cons, List.not_mem_nil, or_false, forall_eq_or_imp]
  simp [hdigit]

theorem octet_minLength : minLength (octet U) = 1 := by
  simp [octet, concat, opt, minLength, lit, oneOf, digit]

theorem ipv4_begins : Begins (fun c => U.isDecimal c = true) (ipv4 U) := by
  have hdigit : ∀ c : Char, c.isDigit = true → U.isDecimal c = true := isDecimal_of_digit U
  simp [ipv4, octet, concat, times, opt, Begins, minLength, wordBoundary, digit, lit, oneOf, hdigit]

theorem ipv6_needs : Needs (fun c => c = ':') (alt ipv6Full ipv6Compressed) := by
  simp [ipv6Full, ipv6Compressed, concat, times, Needs, lit]

theorem isWord_of_decimal {c : Char} (htoken : isTokenChar c = true)
    (h : U.isDecimal c = true) : isWord U c = true := by
  have hascii := toNat_of_token htoken
  rw [U.isDecimal_ascii c hascii] at h
  rw [isWord, U.isAlnum_ascii c hascii, Char.isAlphanum, h]
  simp

variable {U} {b a : Option Char} {w : List Char}

theorem dotted_of_times {n : ℕ} (h : Matches (times n (seq (octet U) (lit '.'))) b w a) :
    w.count '.' = n ∧ ∀ c ∈ w, U.isDecimal c = true ∨ c = '.' := by
  induction n generalizing b w with
  | zero =>
    rw [matches_empty.mp h]
    exact ⟨rfl, fun c hc => absurd hc List.not_mem_nil⟩
  | succ n ih =>
    obtain ⟨u, v, rfl, hu, hv⟩ := matches_seq.mp h
    obtain ⟨x, y, rfl, hx, hy⟩ := matches_seq.mp hu
    obtain ⟨hcount, hchars⟩ := ih hv
    have honly := hx.only (octet_only U)
    have hzero : x.count '.' = 0 := by
      rw [List.count_eq_zero]
      intro hdot
      have hdec := honly '.' hdot
      rw [not_isDecimal U '.' (by decide) (by decide)] at hdec
      cases hdec
    rw [matches_lit.mp hy]
    refine ⟨?_, ?_⟩
    · rw [List.count_append, List.count_append, hzero, hcount, List.count_singleton_self]
      omega
    · intro c hc
      rcases List.mem_append.mp hc with hc | hc
      · rcases List.mem_append.mp hc with hc | hc
        · exact Or.inl (honly c hc)
        · exact Or.inr (List.mem_singleton.mp hc)
      · exact hchars c hc

/-- What an address looks like: four numbers with dots between them, and a boundary on each side. -/
structure Dotted (U : CharTables) (b : Option Char) (w : List Char) (a : Option Char) : Prop where
  dots : w.count '.' = 3
  chars : ∀ c ∈ w, U.isDecimal c = true ∨ c = '.'
  head : ∃ c, w.head? = some c ∧ U.isDecimal c = true
  last : ∃ c, w.getLast? = some c ∧ U.isDecimal c = true
  before : (b.any (isWord U) != (w.head?.or a).any (isWord U)) = true
  after : ((w.getLast?.or b).any (isWord U) != a.any (isWord U)) = true

theorem octet_blind : Blind (octet U) := by simp [octet, concat, opt, Blind, lit, oneOf, digit]

/-- The tests stand at both ends, around a pattern without tests. -/
theorem matches_ipv4 : Matches (ipv4 U) b w a ↔
    ∃ u v, w = u ++ v ∧ Matches (times 3 (seq (octet U) (lit '.'))) none u none ∧
      Matches (octet U) none v none ∧
      (b.any (isWord U) != (w.head?.or a).any (isWord U)) = true ∧
      ((w.getLast?.or b).any (isWord U) != a.any (isWord U)) = true := by
  have hoctet := octet_blind (U := U)
  have htimes : Blind (times 3 (seq (octet U) (lit '.'))) := by simp [times, Blind, hoctet, lit]
  constructor
  · intro h
    obtain ⟨x, w, rfl, hx, h⟩ := matches_seq.mp h
    obtain ⟨rfl, hbefore⟩ := matches_look.mp hx
    obtain ⟨u, v, rfl, hu, h⟩ := matches_seq.mp h
    obtain ⟨v, y, rfl, hv, hy⟩ := matches_seq.mp h
    obtain ⟨rfl, hafter⟩ := matches_look.mp hy
    refine ⟨u, v, by simp, hu.anywhere htimes _ _, hv.anywhere hoctet _ _, ?_, ?_⟩
    · simpa using hbefore
    · rw [List.nil_append, List.append_nil, getLast?_append_or]
      exact hafter
  · rintro ⟨u, v, rfl, hu, hv, hbefore, hafter⟩
    have hy : Matches (wordBoundary U) ((u ++ v).getLast?.or b) [] a :=
      matches_look.mpr ⟨rfl, hafter⟩
    have hend : Matches (seq (octet U) (wordBoundary U)) (u.getLast?.or b) (v ++ []) a := by
      rw [getLast?_append_or] at hy
      exact .seq _ _ _ _ v [] (hv.anywhere hoctet _ _) hy
    rw [List.append_nil] at hend
    exact .seq _ _ _ _ [] _ (matches_look.mpr ⟨rfl, hbefore⟩)
      (.seq _ _ _ _ u v (hu.anywhere htimes _ _) hend)

theorem dotted_of_matches (h : Matches (ipv4 U) b w a) : Dotted U b w a := by
  have hhead := h.begins (ipv4_begins U)
  obtain ⟨u, v, rfl, hu, hv, hbefore, hafter⟩ := matches_ipv4.mp h
  obtain ⟨hdots, hchars⟩ := dotted_of_times hu
  have honly := hv.only (octet_only U)
  have hne : v ≠ [] := by
    have hmin := hv.minLength_le
    rw [octet_minLength] at hmin
    exact List.length_pos_iff.mp hmin
  have hzero : v.count '.' = 0 := by
    rw [List.count_eq_zero]
    intro hdot
    have hdec := honly '.' hdot
    rw [not_isDecimal U '.' (by decide) (by decide)] at hdec
    cases hdec
  obtain ⟨c, cs, hcs⟩ := List.exists_cons_of_ne_nil (List.append_ne_nil_of_right_ne_nil u hne)
  refine ⟨?_, ?_, ⟨c, by rw [hcs]; rfl, hhead c (by rw [hcs]; rfl)⟩, ?_, hbefore, hafter⟩
  · rw [List.count_append, hdots, hzero]
  · exact fun d hd => (List.mem_append.mp hd).elim (hchars d) fun hd => Or.inl (honly d hd)
  · rw [List.getLast?_append_of_ne_nil u hne]
    exact ⟨v.getLast hne, List.getLast?_eq_some_getLast hne, honly _ (List.getLast_mem hne)⟩

/-- Only the kind of the neighbours matters. -/
theorem ipv4_swap {b' a' : Option Char} (hb : b.any (isWord U) = b'.any (isWord U))
    (ha : a.any (isWord U) = a'.any (isWord U)) (h : Matches (ipv4 U) b w a) :
    Matches (ipv4 U) b' w a' := by
  obtain ⟨c, hhead, -⟩ := (dotted_of_matches h).head
  obtain ⟨d, hlast, -⟩ := (dotted_of_matches h).last
  obtain ⟨u, v, hw, hu, hv, hbefore, hafter⟩ := matches_ipv4.mp h
  rw [hhead, Option.some_or, hb] at hbefore
  rw [hlast, Option.some_or, ha] at hafter
  refine matches_ipv4.mpr ⟨u, v, hw, hu, hv, ?_, ?_⟩
  · rw [hhead]
    exact hbefore
  · rw [hlast]
    exact hafter

/-- Where no word character stands: at an end of the text, at a bracket, behind a literal. -/
def Outside (U : CharTables) (o : Option Char) : Prop := o.any (isWord U) = false

/-- A stretch of token characters between two places outside of words. -/
structure Stretch (U : CharTables) (R : Run Char) : Prop where
  token : ∀ c ∈ R.word, isTokenChar c = true
  before : Outside U R.before
  after : Outside U R.after

theorem ipv4_of_ipRe (hw : ∀ c ∈ w, isTokenChar c = true) (h : Matches (ipRe U) b w a) :
    Matches (ipv4 U) b w a := by
  refine (matches_alt.mp h).resolve_right fun hm => ?_
  obtain ⟨c, hc, rfl⟩ := hm.needs ipv6_needs
  exact (ne_of_token (hw _ hc)).2.2 rfl

/-- An address goes on to the end of a word. -/
theorem not_isWord_after {c d : Cursor Char} (hc : ∀ x ∈ c.rest, isTokenChar x = true)
    (hw : c.Reads w d) (h : Matches (ipv4 U) c.prev w (d.next a)) :
    ∀ y ∈ d.rest.head?, isWord U y = false := by
  intro y hy
  obtain ⟨x, hx, hdec⟩ := (dotted_of_matches h).last
  have hafter := (dotted_of_matches h).after
  have hmem : x ∈ c.rest := by
    rw [hw.rest]
    exact List.mem_append_left _ (List.mem_of_mem_getLast? hx)
  rw [hx, Option.some_or, Cursor.next, hy, Option.some_or, Option.any_some, Option.any_some,
    isWord_of_decimal U (hc x hmem) hdec] at hafter
  simpa using hafter

/-- No address follows on another. -/
theorem not_ipv4_after {c d f : Cursor Char} {v : List Char}
    (hc : ∀ x ∈ c.rest, isTokenChar x = true) (hw : c.Reads w d)
    (h : Matches (ipv4 U) c.prev w (d.next a)) (hv : d.Reads v f) :
    ¬ Matches (ipv4 U) d.prev v (f.next a) := by
  intro hm
  obtain ⟨x, hx, hdec⟩ := (dotted_of_matches hm).head
  have hhead : d.rest.head? = some x := by rw [hv.rest, List.head?_append, hx, Option.some_or]
  have hmem : x ∈ c.rest := by
    rw [hw.rest]
    exact List.mem_append_right w (List.mem_of_mem_head? hhead)
  have hword := not_isWord_after hc hw h x hhead
  rw [isWord_of_decimal U (hc x hmem) hdec] at hword
  cases hword

/-- An address that is all there is, is taken as a whole. -/
theorem ipv4_whole {c d : Cursor Char} (hc : ∀ x ∈ c.rest, isTokenChar x = true)
    (hw : c.Reads w d) (h : Matches (ipv4 U) c.prev w (d.next a))
    (hall : IsIPv4 U c.rest) : d.rest = [] := by
  by_contra hne
  obtain ⟨y, ys, hys⟩ := List.exists_cons_of_ne_nil hne
  have hmem : y ∈ c.rest := by
    rw [hw.rest, hys]
    exact List.mem_append_right w List.mem_cons_self
  have hdots := (dotted_of_matches hall).dots
  rw [hw.rest, List.count_append, (dotted_of_matches h).dots] at hdots
  have hyword := not_isWord_after hc hw h y (by rw [hys]; rfl)
  rcases (dotted_of_matches hall).chars y hmem with hdec | rfl
  · rw [isWord_of_decimal U (hc y hmem) hdec] at hyword
    cases hyword
  · rw [hys, List.count_cons_self] at hdots
    omega

/-- What is taken for an address. -/
theorem pieces_ipRe_iff {R : Run Char} (hR : Stretch U R) :
    (∀ S ∈ pieces placeholders (ipRe U) .ipAddress R, S.word = []) ↔
      R.word = [] ∨ IsIPv4 U R.word := by
  obtain ⟨htoken, hbefore, hafter⟩ := hR
  obtain ⟨b, text, a⟩ := R
  simp only at htoken hbefore hafter ⊢
  by_cases hnil : text = []
  · simp [hnil, pieces, Cuts.runs]
  have hmatch : ∀ {c d : Cursor Char} {w : List Char}, (∀ x ∈ c.rest, isTokenChar x = true) →
      c.Reads w d → Matches (ipRe U) c.prev w (d.next a) → Matches (ipv4 U) c.prev w (d.next a) := by
    intro c d w hc hw hm
    refine ipv4_of_ipRe (fun x hx => hc x ?_) hm
    rw [hw.rest]
    exact List.mem_append_left _ hx
  constructor
  · intro h
    obtain ⟨d, hd⟩ := exists_hit_of_runs_nil hnil h
    obtain ⟨w, hw, hm⟩ := first_sound (hit_eq_some hd).1
    have hip := hmatch htoken hw hm
    rw [pieces, cuts_hit hd hw] at h
    by_cases hrest : d.rest = []
    · have hall : w = text := by rw [show text = w ++ d.rest from hw.rest, hrest, List.append_nil]
      rw [Cursor.next, hrest, hall] at hip
      exact Or.inr (ipv4_swap hbefore hafter hip)
    · -- a second address would have to follow on the first
      obtain ⟨f, hf⟩ := exists_hit_of_runs_nil hrest fun Q hQ => h Q (List.mem_cons_of_mem _ hQ)
      obtain ⟨v, hv, hmv⟩ := first_sound (hit_eq_some hf).1
      have hd : ∀ x ∈ d.rest, isTokenChar x = true := fun x hx =>
        htoken x (by rw [show text = w ++ d.rest from hw.rest]; exact List.mem_append_right w hx)
      exact absurd (hmatch hd hv hmv) (not_ipv4_after htoken hw hip hv)
  · intro h
    have hip := h.resolve_left hnil
    have hm : Matches (ipv4 U) b text a :=
      ipv4_swap (b := none) (a := none) hbefore.symm hafter.symm hip
    cases hf : first a (ipRe U) ⟨b, text⟩ with
    | none =>
      refine absurd (Matches.left (ipv4 U) (alt ipv6Full ipv6Compressed) b a text hm) ?_
      exact first_eq_none.mp hf text ⟨text.getLast?.or b, []⟩ ⟨(List.append_nil text).symm, rfl⟩
    | some d =>
      obtain ⟨w, hw, hmw⟩ := first_sound hf
      have hrest := ipv4_whole htoken hw (hmatch htoken hw hmw) hip
      have hhit : hit a (ipRe U) ⟨b, text⟩ = some d := by
        rw [hit, hf, Option.filter_some, if_pos]
        rw [hrest, decide_eq_true_eq]
        exact List.length_pos_iff.mpr hnil
      obtain ⟨b', rest⟩ := d
      obtain rfl : rest = [] := hrest
      rw [pieces, cuts_hit hhit hw, cuts_nil]
      simp [Cuts.runs]

theorem caseFold_of_dotted (hw : ∀ c ∈ w, isTokenChar c = true) (h : IsIPv4 U w) :
    ∀ c ∈ w, caseFold c ≠ 'a' ∧ caseFold c ≠ 'k' := by
  intro c hc
  have hfold : ∀ {c : Char}, isTokenChar c = true →
      (c.isDigit = true ∨ c = '.' → caseFold c ≠ 'a' ∧ caseFold c ≠ 'k') :=
    token_induction (q := fun c => c.isDigit = true ∨ c = '.' → caseFold c ≠ 'a' ∧ caseFold c ≠ 'k')
      (by decide)
  refine hfold (hw c hc) (((dotted_of_matches h).chars c hc).imp_left fun hdec => ?_)
  rw [← U.isDecimal_ascii c (toNat_of_token (hw c hc))]
  exact hdec

end IPv4

/-! ## API keys -/

section ApiKey

variable {b a e : Option Char} {w : List Char}

/-- The pattern of API keys matches all of the word. -/
def IsApiKey (w : List Char) : Prop := Matches apiKeyRe none w none

theorem apiKeyRe_takesAll : TakesAll (fun c => isTokenChar (caseFold c)) apiKeyRe := by
  unfold apiKeyRe
  simp only [concat, atLeast, tokenChar]
  iterate 11 apply takesAll_seq
  exact takesAll_star _

theorem apiKeyRe_begins : Begins (fun c => caseFold c = 'a') apiKeyRe := by
  simp [apiKeyRe, concat, Begins, minLength, litIgnoreCase]

theorem apiKeyRe_needs : Needs (fun c => caseFold c = 'k') apiKeyRe := by
  simp [apiKeyRe, concat, Needs, litIgnoreCase]

theorem bearerRe_needs : Needs (fun c => isSpace c = true) bearerRe := by
  simp [bearerRe, concat, plus, Needs, space]

theorem bearerRe_not_occurs (hw : ∀ c ∈ w, isTokenChar c = true) :
    ¬ Run.Occurs bearerRe ⟨b, w, a⟩ := by
  rintro ⟨x, v, y, hword, hm⟩
  obtain ⟨c, hc, hspace⟩ := hm.needs bearerRe_needs
  have hmem : c ∈ w := by
    rw [show w = x ++ (v ++ y) from hword]
    exact List.mem_append_right x (List.mem_append_left y hc)
  rw [not_space_of_token (hw c hmem)] at hspace
  cases hspace

/-- An assignment is taken together with what is in front of it, if no other begins there. -/
theorem cuts_apiKeyRe (l : Label) {x y : List Char} (htoken : ∀ c ∈ x ++ y, isTokenChar c = true)
    (hx : ∀ c ∈ x, caseFold c ≠ 'a') (hy : IsApiKey y) :
    cuts apiKeyRe l e ⟨b, x ++ y⟩ = .cut x l y (.last []) := by
  have hpos := hy.minLength_le
  have hne : y ≠ [] := by
    rintro rfl
    exact absurd hpos (by decide)
  have hfold : ∀ c ∈ y, isTokenChar (caseFold c) = true := fun c hc =>
    caseFold_token (htoken c (List.mem_append_right x hc))
  rw [cuts_skip apiKeyRe_begins e b x y hx]
  cases hf : first e apiKeyRe ⟨x.getLast?.or b, y⟩ with
  | none =>
    refine absurd (hy.anywhere apiKeyRe_blind (x.getLast?.or b) e) ?_
    exact first_eq_none.mp hf y ⟨y.getLast?.or (x.getLast?.or b), []⟩
      ⟨(List.append_nil y).symm, rfl⟩
  | some d =>
    rw [cuts_takesAll apiKeyRe_takesAll hfold hf hne, Cuts.foldr_cons_cut, List.append_nil]

end ApiKey

/-! ## What the last three patterns take out of a stretch -/

section Remains

variable (U : CharTables)

/-- What the patterns of the secrets and of the addresses leave of a run. -/
def remains (R : Run Char) : List (Run Char) :=
  ((pieces placeholders bearerRe .secret R).flatMap (pieces placeholders apiKeyRe .secret)).flatMap
    (pieces placeholders (ipRe U) .ipAddress)

/-- A stretch nothing is left of: an address, an assignment of an API key, or both. -/
def Removable (w : List Char) : Prop :=
  w = [] ∨ IsIPv4 U w ∨ ∃ x y, w = x ++ y ∧ (x = [] ∨ IsIPv4 U x) ∧ IsApiKey y

variable {U}

theorem outside_opening : Outside U (some '<') := by
  rw [Outside, Option.any_some, isWord, U.isAlnum_ascii '<' (by decide)]
  decide

theorem outside_closing : Outside U (some '>') := by
  rw [Outside, Option.any_some, isWord, U.isAlnum_ascii '>' (by decide)]
  decide

theorem remains_of_not_bearer {R : Run Char} (h : ¬ Run.Occurs bearerRe R) :
    remains U R = (pieces placeholders apiKeyRe .secret R).flatMap
      (pieces placeholders (ipRe U) .ipAddress) := by
  rw [remains, pieces_of_not_occurs h, List.flatMap_singleton]

/-- **Nothing is left of a stretch** exactly if it is removable. -/
theorem remains_iff {R : Run Char} (hR : Stretch U R) :
    (∀ S ∈ remains U R, S.word = []) ↔ Removable U R.word := by
  obtain ⟨b, text, a⟩ := R
  obtain ⟨htoken, hbefore, hafter⟩ := hR
  simp only at htoken hbefore hafter ⊢
  rw [remains_of_not_bearer (bearerRe_not_occurs htoken)]
  -- the part in front of an assignment is an address or empty
  have hcut : ∀ x y, text = x ++ y →
      cuts apiKeyRe Label.secret a ⟨b, text⟩ = .cut x .secret y (.last []) →
      ((∀ S ∈ (pieces placeholders apiKeyRe .secret ⟨b, text, a⟩).flatMap
        (pieces placeholders (ipRe U) .ipAddress), S.word = []) ↔ x = [] ∨ IsIPv4 U x) := by
    intro x y hxy hk
    have hx : Stretch U ⟨b, x, some '<'⟩ :=
      ⟨fun c hc => htoken c (by rw [hxy]; exact List.mem_append_left y hc), hbefore,
        outside_opening⟩
    have hpieces : pieces placeholders apiKeyRe .secret ⟨b, text, a⟩ =
        [⟨b, x, some '<'⟩, ⟨some '>', [], a⟩] := by
      rw [pieces, hk]
      rfl
    rw [hpieces, List.flatMap_cons, List.flatMap_singleton, pieces_nil, List.forall_mem_append,
      pieces_ipRe_iff hx]
    simp
  have hfold : ∀ c ∈ text, isTokenChar (caseFold c) = true := fun c hc => caseFold_token (htoken c hc)
  have hlast : cuts apiKeyRe Label.secret a ⟨b, text⟩ = .last text →
      ((∀ S ∈ (pieces placeholders apiKeyRe .secret ⟨b, text, a⟩).flatMap
        (pieces placeholders (ipRe U) .ipAddress), S.word = []) ↔ text = [] ∨ IsIPv4 U text) := by
    intro hk
    have hpieces : pieces placeholders apiKeyRe .secret ⟨b, text, a⟩ = [⟨b, text, a⟩] := by
      rw [pieces, hk]
      rfl
    rw [hpieces, List.flatMap_singleton]
    exact pieces_ipRe_iff ⟨htoken, hbefore, hafter⟩
  constructor
  · intro h
    rcases cuts_of_takesAll apiKeyRe_takesAll ⟨b, text⟩ hfold with hk | ⟨x, y, hxy, hm, hk⟩
    · exact ((hlast hk).mp h).imp_right Or.inl
    · exact Or.inr (Or.inr ⟨x, y, hxy, (hcut x y hxy hk).mp h,
        hm.anywhere apiKeyRe_blind none none⟩)
  · rintro (hnil | hip | ⟨x, y, hxy, hx, hy⟩)
    · refine (hlast ?_).mpr (Or.inl hnil)
      rw [hnil]
      rfl
    · refine (hlast (cuts_of_not_occurs ⟨b, text⟩ ?_)).mpr (Or.inr hip)
      rintro ⟨x, w, y, hword, hm⟩
      obtain ⟨c, hc, hk⟩ := hm.needs apiKeyRe_needs
      have hmem : c ∈ text := by
        rw [show text = x ++ (w ++ y) from hword]
        exact List.mem_append_right x (List.mem_append_left y hc)
      exact (caseFold_of_dotted htoken hip c hmem).2 hk
    · refine (hcut x y hxy ?_).mpr hx
      rw [hxy] at htoken ⊢
      refine cuts_apiKeyRe .secret htoken ?_ hy
      rcases hx with rfl | hx
      · exact fun c hc => absurd hc List.not_mem_nil
      · exact fun c hc => (caseFold_of_dotted
          (fun d hd => htoken d (List.mem_append_left y hd)) hx c hc).1

/-- Behind a literal. -/
theorem emptied_pieces_ipRe {lit text : List Char} {a : Option Char} {z : Char}
    (hlit : ∀ c ∈ lit, c.toNat < 0x80 ∧ c.isDigit = false ∧ c ≠ ':')
    (hlast : lit.getLast? = some z) (hz : isWord U z = false)
    (htoken : ∀ c ∈ text, isTokenChar c = true) (ha : Outside U a) :
    Emptied lit (pieces placeholders (ipRe U) .ipAddress ⟨none, lit ++ text, a⟩) ↔
      text = [] ∨ IsIPv4 U text := by
  have hnone : ∀ (b : Option Char) (t : List Char), (∀ c ∈ t, c ≠ ':') →
      ¬ Run.Occurs (alt ipv6Full ipv6Compressed) ⟨b, t, a⟩ := by
    rintro b t ht ⟨x, w, y, hword, hm⟩
    obtain ⟨c, hc, rfl⟩ := hm.needs ipv6_needs
    refine ht _ ?_ rfl
    rw [show t = x ++ (w ++ y) from hword]
    exact List.mem_append_right x (List.mem_append_left y hc)
  have hcolon : ∀ c ∈ text, c ≠ ':' := fun c hc => (ne_of_token (htoken c hc)).2.2
  have hall : ∀ c ∈ lit ++ text, c ≠ ':' := fun c hc =>
    (List.mem_append.mp hc).elim (fun h => (hlit c h).2.2) (hcolon c)
  have hskip : cuts (ipRe U) Label.ipAddress a ⟨none, lit ++ text⟩ =
      lit.foldr Cuts.cons (cuts (ipRe U) Label.ipAddress a ⟨some z, text⟩) := by
    rw [ipRe, cuts_alt_of_not_occurs _ (hnone _ _ hall), cuts_alt_of_not_occurs _ (hnone _ _ hcolon),
      cuts_skip (ipv4_begins U), hlast]
    · rfl
    · intro c hc
      rw [not_isDecimal U c (hlit c hc).1 (hlit c hc).2.1]
      exact Bool.false_ne_true
  have hstretch : Stretch U ⟨some z, text, a⟩ := ⟨htoken, hz, ha⟩
  rw [pieces, hskip, emptied_foldr_cons _ _ _ (some z)]
  exact pieces_ipRe_iff hstretch

end Remains

/-! ## The literals -/

def bearerLiteral : List Char := ['B', 'e', 'a', 'r', 'e', 'r', ' ']

def apiKeyLiteral : List Char := ['a', 'p', 'i', '_', 'k', 'e', 'y', '=']

section Literals

variable {U : CharTables} {b a e : Option Char} {text : List Char}

theorem first_space_none (htoken : ∀ c ∈ text, isTokenChar c = true) :
    first e space ⟨b, text⟩ = none := by
  cases text with
  | nil => rfl
  | cons c cs => simp [first, ends, space, not_space_of_token (htoken c List.mem_cons_self)]

theorem first_bearerRe (htoken : ∀ c ∈ text, isTokenChar c = true) (hlen : 20 ≤ text.length) :
    ∃ b', first e bearerRe ⟨b, bearerLiteral ++ text⟩ = some ⟨b', []⟩ := by
  obtain ⟨b', hvalue⟩ := first_atLeast_char (e := e) 20 (some ' ') text
    (fun c hc => caseFold_token (htoken c hc)) hlen
  have hspace : first e (plus space) ⟨some 'r', ' ' :: text⟩ = some ⟨some ' ', text⟩ :=
    first_seq (first_char (by decide)) (first_star_stop (first_space_none htoken))
  refine ⟨b', ?_⟩
  unfold bearerRe
  simp only [concat]
  iterate 6 refine first_seq (first_char (by decide)) ?_
  exact first_seq hspace hvalue

theorem first_apiKeyRe (htoken : ∀ c ∈ text, isTokenChar c = true) (hlen : 16 ≤ text.length) :
    ∃ b', first e apiKeyRe ⟨b, apiKeyLiteral ++ text⟩ = some ⟨b', []⟩ := by
  obtain ⟨b', hvalue⟩ := first_atLeast_char (e := e) 16 (some '=') text
    (fun c hc => caseFold_token (htoken c hc)) hlen
  have hnospace : first e space ⟨some 'y', '=' :: text⟩ = none := by
    simp [first, ends, space, isSpace]
  refine ⟨b', ?_⟩
  unfold apiKeyRe
  simp only [concat]
  iterate 3 refine first_seq (first_char (by decide)) ?_
  refine first_seq (first_left (first_char (by decide))) ?_
  iterate 3 refine first_seq (first_char (by decide)) ?_
  refine first_seq (first_star_stop hnospace) (first_seq (first_char (by decide)) ?_)
  exact first_seq (first_star_stop (first_space_none htoken)) hvalue

/-- A run that is taken from its beginning to its end. -/
theorem pieces_of_first {r : Regex Char} {l : Label} {R : Run Char} {b' : Option Char}
    (hne : R.word ≠ []) (h : first R.after r ⟨R.before, R.word⟩ = some ⟨b', []⟩) :
    pieces placeholders r l R = [⟨R.before, [], some '<'⟩, ⟨some '>', [], R.after⟩] := by
  have hhit : hit R.after r ⟨R.before, R.word⟩ = some ⟨b', []⟩ := by
    rw [hit, h, Option.filter_some, if_pos]
    rw [decide_eq_true_eq]
    exact List.length_pos_iff.mpr hne
  obtain ⟨w, hw, -⟩ := first_sound h
  rw [pieces, cuts_hit hhit hw, cuts_nil]
  rfl

theorem bearerRe_short (hlen : text.length < 20) :
    ¬ Run.Occurs bearerRe ⟨b, bearerLiteral ++ text, a⟩ := by
  rintro ⟨x, w, y, hword, hm⟩
  have hmin : 27 ≤ w.length := hm.minLength_le
  have htotal := congrArg List.length (show bearerLiteral ++ text = x ++ (w ++ y) from hword)
  simp only [List.length_append, bearerLiteral, List.length_cons, List.length_nil] at htotal
  omega

/-- An assignment begins with an `a` and a `p`, of either case. -/
theorem apiKeyRe_start {w : List Char} (h : Matches apiKeyRe b w a) :
    ∃ c d v, w = c :: d :: v ∧ caseFold c = 'a' ∧ caseFold d = 'p' := by
  obtain ⟨u, v, rfl, hu, h⟩ := matches_seq.mp h
  obtain ⟨c, rfl, hc⟩ := matches_char.mp hu
  obtain ⟨u, v, rfl, hu, -⟩ := matches_seq.mp h
  obtain ⟨d, rfl, hd⟩ := matches_char.mp hu
  exact ⟨c, d, v, rfl, of_decide_eq_true hc, of_decide_eq_true hd⟩

/-- Behind `Bearer `, the value of an assignment leaves room for more than a short token. -/
theorem apiKeyRe_not_in_bearer (hlen : text.length < 20) :
    ¬ Run.Occurs apiKeyRe ⟨b, bearerLiteral ++ text, a⟩ := by
  rintro ⟨x, w, y, hword, hm⟩
  have hmin : 23 ≤ w.length := hm.minLength_le
  have htotal := congrArg List.length (show bearerLiteral ++ text = x ++ (w ++ y) from hword)
  simp only [List.length_append, bearerLiteral, List.length_cons, List.length_nil] at htotal
  obtain ⟨c, d, v, rfl, hc, hd⟩ := apiKeyRe_start hm
  have hx : x.length ≤ 3 := by omega
  have hfirst : (bearerLiteral ++ text)[x.length]? = some c := by
    rw [show bearerLiteral ++ text = x ++ (c :: d :: v ++ y) from hword]
    simp
  have hsecond : (bearerLiteral ++ text)[x.length + 1]? = some d := by
    rw [show bearerLiteral ++ text = x ++ (c :: d :: v ++ y) from hword]
    simp
  interval_cases x.length <;> simp [bearerLiteral] at hfirst hsecond <;> subst hfirst hsecond <;>
    revert hc hd <;> decide

/-- A match from the literal on has a value behind it. -/
theorem apiKeyRe_value {w : List Char} (h : Matches apiKeyRe b (apiKeyLiteral ++ w) a) :
    16 ≤ w.length := by
  obtain ⟨-, h⟩ := matches_char_seq.mp h
  obtain ⟨-, h⟩ := matches_char_seq.mp h
  obtain ⟨-, h⟩ := matches_char_seq.mp h
  obtain ⟨u, v, huv, hu, hv⟩ := matches_seq.mp h
  rcases matches_opt.mp hu with hu | rfl
  · obtain ⟨c, rfl, -⟩ := matches_char.mp hu
    obtain ⟨-, rfl⟩ := List.cons.inj (show '_' :: 'k' :: 'e' :: 'y' :: '=' :: w = c :: v from huv)
    have hmin : 20 ≤ ('k' :: 'e' :: 'y' :: '=' :: w).length := hv.minLength_le
    simpa using hmin
  · -- without the underscore the `k` is missing
    rw [← show '_' :: 'k' :: 'e' :: 'y' :: '=' :: w = v from huv] at hv
    exact absurd (matches_char_seq.mp hv).1 (by decide)

theorem apiKeyRe_short (hlen : text.length < 16) :
    ¬ Run.Occurs apiKeyRe ⟨b, apiKeyLiteral ++ text, a⟩ := by
  rintro ⟨x, w, y, hword, hm⟩
  have hmin : 23 ≤ w.length := hm.minLength_le
  have htotal := congrArg List.length (show apiKeyLiteral ++ text = x ++ (w ++ y) from hword)
  simp only [List.length_append, apiKeyLiteral, List.length_cons, List.length_nil] at htotal
  have hx : x = [] := List.length_eq_zero_iff.mp (by omega)
  have hy : y = [] := List.length_eq_zero_iff.mp (by omega)
  have hw : w = apiKeyLiteral ++ text := by
    rw [show apiKeyLiteral ++ text = x ++ (w ++ y) from hword, hx, hy]
    simp
  rw [hw] at hm
  exact absurd (apiKeyRe_value hm) (by omega)

/-- The whole of the literal and its value is taken, or the value is an address or nothing. -/
theorem emptied_remains_bearer (htoken : ∀ c ∈ text, isTokenChar c = true) (ha : Outside U a) :
    Emptied bearerLiteral (remains U ⟨none, bearerLiteral ++ text, a⟩) ↔
      20 ≤ text.length ∨ text = [] ∨ IsIPv4 U text := by
  by_cases hlen : 20 ≤ text.length
  · refine iff_of_true ?_ (Or.inl hlen)
    obtain ⟨b', hfirst⟩ := first_bearerRe (b := none) (e := a) htoken hlen
    have hpieces := pieces_of_first (l := .secret) (R := ⟨none, bearerLiteral ++ text, a⟩)
      (List.cons_ne_nil _ _) hfirst
    rw [remains, hpieces]
    exact emptied_of_nil (by simp) (by simp)
  · have hshort : text.length < 20 := Nat.lt_of_not_le hlen
    rw [remains_of_not_bearer (bearerRe_short hshort),
      pieces_of_not_occurs (apiKeyRe_not_in_bearer hshort), List.flatMap_singleton]
    have hspace : isWord U ' ' = false := by
      rw [isWord, U.isAlnum_ascii ' ' (by decide)]
      decide
    have hplain : ∀ c ∈ bearerLiteral, c.toNat < 0x80 ∧ c.isDigit = false ∧ c ≠ ':' :=
      List.all_iff_forall_prop.mp (by decide)
    rw [emptied_pieces_ipRe hplain rfl hspace htoken ha, or_iff_right hlen]

theorem emptied_remains_apiKey (htoken : ∀ c ∈ text, isTokenChar c = true) (ha : Outside U a) :
    Emptied apiKeyLiteral (remains U ⟨none, apiKeyLiteral ++ text, a⟩) ↔
      16 ≤ text.length ∨ text = [] ∨ IsIPv4 U text := by
  have hliteral : ∀ c ∈ apiKeyLiteral, isTokenChar c = true := List.all_eq_true.mp (by decide)
  have hbearer : ¬ Run.Occurs bearerRe ⟨none, apiKeyLiteral ++ text, a⟩ :=
    bearerRe_not_occurs fun c hc => (List.mem_append.mp hc).elim (hliteral c) (htoken c)
  rw [remains_of_not_bearer hbearer]
  by_cases hlen : 16 ≤ text.length
  · refine iff_of_true ?_ (Or.inl hlen)
    obtain ⟨b', hfirst⟩ := first_apiKeyRe (b := none) (e := a) htoken hlen
    have hpieces := pieces_of_first (l := .secret) (R := ⟨none, apiKeyLiteral ++ text, a⟩)
      (List.cons_ne_nil _ _) hfirst
    rw [hpieces]
    exact emptied_of_nil (by simp) (by simp)
  · have hequals : isWord U '=' = false := by
      rw [isWord, U.isAlnum_ascii '=' (by decide)]
      decide
    have hplain : ∀ c ∈ apiKeyLiteral, c.toNat < 0x80 ∧ c.isDigit = false ∧ c ≠ ':' :=
      List.all_iff_forall_prop.mp (by decide)
    rw [pieces_of_not_occurs (apiKeyRe_short (Nat.lt_of_not_le hlen)), List.flatMap_singleton,
      emptied_pieces_ipRe hplain rfl hequals htoken ha, or_iff_right hlen]

end Literals

/-! ## The whole value -/

section Value

variable (U : CharTables)

/-- The classifiers in front of those of the secrets. -/
def numberClassifiers : List (Classifier placeholders) :=
  [⟨.ssn, ssnRe U, ssnRe_fits U⟩, ⟨.email, emailRe U, emailRe_fits U⟩,
    ⟨.phone, phoneRe U, phoneRe_fits U⟩, ⟨.creditCard, ccRe U, ccRe_fits U⟩,
    ⟨.secret, awsKeyRe, awsKeyRe_fits⟩]

/-- The stretches of a text between the numbers and access keys in it. -/
def stretches (text : List Char) : List (Run Char) :=
  (apply (numberClassifiers U) (.last text)).runs placeholders none none

theorem keptRuns_eq (text : List Char) :
    keptRuns U text = (stretches U text).flatMap (remains U) := by
  have hsplit : taken U text = recut placeholders (ipRe U) .ipAddress none none
      (recut placeholders apiKeyRe .secret none none
        (recut placeholders bearerRe .secret none none
          (apply (numberClassifiers U) (.last text)))) := rfl
  have hremains : remains U = fun R => ((pieces placeholders bearerRe .secret R).flatMap
    (pieces placeholders apiKeyRe .secret)).flatMap (pieces placeholders (ipRe U) .ipAddress) := rfl
  rw [keptRuns, hsplit, runs_recut, runs_recut, runs_recut, ← stretches, hremains]
  simp only [List.flatMap_assoc]

/-- What the patterns of the numbers begin with. -/
def isNumberStart (c : Char) : Prop := U.isDecimal c = true ∨ c = '+' ∨ c = '(' ∨ c = 'A'

theorem ssnRe_begins : Begins (isNumberStart U) (ssnRe U) := by
  simp +contextual [ssnRe, concat, times, Begins, minLength, wordBoundary, digit, isNumberStart]

theorem phoneRe_begins : Begins (isNumberStart U) (phoneRe U) := by
  have hone : U.isDecimal '1' = true := isDecimal_of_digit U '1' (by decide)
  simp +contextual [phoneRe, concat, times, opt, Begins, minLength, notAfterDigit, digit, lit,
    isNumberStart, hone]

theorem ccRe_begins : Begins (isNumberStart U) (ccRe U) := by
  simp +contextual [ccRe, concat, times, between, Begins, minLength, wordBoundary, digit,
    isNumberStart]

theorem awsKeyRe_begins : Begins (isNumberStart U) awsKeyRe := by
  simp [awsKeyRe, concat, Begins, minLength, lit, isNumberStart]

theorem emailRe_needs : Needs (fun c => c = '@') (emailRe U) := by
  simp [emailRe, concat, plus, atLeast, times, Needs, lit]

theorem emailRe_not_occurs {text : List Char} (hat : '@' ∉ text) (k : Cuts Label Char)
    (hk : k.original = text) :
    ∀ R ∈ k.runs placeholders none none, ¬ Run.Occurs (emailRe U) R := by
  rintro R hR ⟨x, w, y, hword, hm⟩
  obtain ⟨p, q, hpart⟩ := Cuts.runs_part k none R hR
  obtain ⟨c, hc, rfl⟩ := hm.needs (emailRe_needs U)
  apply hat
  rw [← hk, show k.original = p ++ (R.word ++ q) from hpart.word, hword]
  simp [hc]

/-- A literal that looks like no number stays in front of the first stretch. -/
theorem apply_literal {v text : List Char} (hv : ∀ c ∈ v, ¬ isNumberStart U c)
    (hat : '@' ∉ v ++ text) :
    ∃ k : Cuts Label Char,
      apply (numberClassifiers U) (.last (v ++ text)) = v.foldr Cuts.cons k ∧ k.original = text := by
  have hstart : (.last (v ++ text) : Cuts Label Char) = v.foldr Cuts.cons (.last text) :=
    (Cuts.foldr_cons_last v text).symm
  have hkeeps : ∀ (r : Regex Char) (l : Label), Begins (isNumberStart U) r →
      ∀ k : Cuts Label Char, k.original = text → ∃ k' : Cuts Label Char,
        recut placeholders r l none none (v.foldr Cuts.cons k) = v.foldr Cuts.cons k' ∧
          k'.original = text := fun r l hr k hk =>
    ⟨_, recut_foldr_cons hr none v hv k, by rw [recut_original, hk]⟩
  obtain ⟨k₁, hssn, ho₁⟩ := hkeeps (ssnRe U) .ssn (ssnRe_begins U) (.last text) rfl
  obtain ⟨k₂, hphone, ho₂⟩ := hkeeps (phoneRe U) .phone (phoneRe_begins U) k₁ ho₁
  obtain ⟨k₃, hcc, ho₃⟩ := hkeeps (ccRe U) .creditCard (ccRe_begins U) k₂ ho₂
  obtain ⟨k₄, haws, ho₄⟩ := hkeeps awsKeyRe .secret (awsKeyRe_begins U) k₃ ho₃
  have hemail : recut placeholders (emailRe U) .email none none (v.foldr Cuts.cons k₁) =
      v.foldr Cuts.cons k₁ := by
    refine recut_of_not_occurs none _ (emailRe_not_occurs U hat _ ?_)
    rw [Cuts.original_foldr_cons, ho₁]
  refine ⟨k₄, ?_, ho₄⟩
  simp only [apply, numberClassifiers, List.foldl_cons, List.foldl_nil]
  rw [hstart, hssn, hemail, hphone, hcc, haws]

/-- When a value goes: the stretch behind the literal is long enough to be taken with it, or is an
address, and nothing else is left. -/
def ValueTaken (v : List Char) (m : ℕ) (Rs : List (Run Char)) : Prop :=
  ∃ w a Rs', Rs = ⟨none, v ++ w, a⟩ :: Rs' ∧ (m ≤ w.length ∨ w = [] ∨ IsIPv4 U w) ∧
    ∀ R ∈ Rs', Removable U R.word

theorem remains_ne_nil (R : Run Char) : remains U R ≠ [] := by
  have hflat : ∀ (Rs : List (Run Char)) (f : Run Char → List (Run Char)), Rs ≠ [] →
      (∀ S, f S ≠ []) → Rs.flatMap f ≠ [] := by
    intro Rs f hne hf
    obtain ⟨S, Rs', rfl⟩ := List.exists_cons_of_ne_nil hne
    rw [List.flatMap_cons]
    exact List.append_ne_nil_of_left_ne_nil (hf S) _
  exact hflat _ _ (hflat _ _ (Cuts.runs_ne_nil _ _ _) fun S => Cuts.runs_ne_nil _ _ _)
    fun S => Cuts.runs_ne_nil _ _ _

/-- A literal in which no number can begin, and no placeholder. -/
def PlainLiteral (v : List Char) : Prop :=
  ∀ c ∈ v, c.toNat < 0x80 ∧ c.isDigit = false ∧ c ∉ ['+', '(', 'A', '@', '<']

theorem PlainLiteral.not_numberStart {v : List Char} (hv : PlainLiteral v) :
    ∀ c ∈ v, ¬ isNumberStart U c := by
  intro c hc hstart
  obtain ⟨hascii, hdigit, hother⟩ := hv c hc
  rw [isNumberStart, not_isDecimal U c hascii hdigit] at hstart
  simp only [List.mem_cons, not_or] at hother
  simp [hother] at hstart

theorem mem_original_of_runs {k : Cuts Label Char} {e b : Option Char} {R : Run Char} {c : Char}
    (hR : R ∈ k.runs placeholders e b) (hc : c ∈ R.word) : c ∈ k.original := by
  obtain ⟨p, q, hpart⟩ := Cuts.runs_part k b R hR
  rw [show k.original = p ++ (R.word ++ q) from hpart.word]
  simp [hc]

/-- What is kept between placeholders of a text of token characters. -/
theorem stretch_of_runs (k : Cuts Label Char) (htoken : ∀ c ∈ k.original, isTokenChar c = true) :
    ∀ R ∈ k.runs placeholders none (some '>'), Stretch U R := by
  intro R hR
  refine ⟨fun c hc => htoken c (mem_original_of_runs hR hc), ?_, ?_⟩
  · obtain ⟨p, q, hpart⟩ := Cuts.runs_part k (some '>') R hR
    rcases hpart.before with hb | ⟨-, hb⟩ <;> rw [hb] <;> exact outside_closing
  · obtain ⟨p, q, hpart⟩ := Cuts.runs_part k (some '>') R hR
    rcases hpart.after with ha | ⟨-, ha⟩ <;> rw [ha]
    · exact outside_opening
    · rfl

theorem onlyPlaceholders_iff {v text : List Char} {m : ℕ} (hv : PlainLiteral v)
    (htoken : ∀ c ∈ text, isTokenChar c = true)
    (hfirst : ∀ w a, (∀ c ∈ w, isTokenChar c = true) → Outside U a →
      (Emptied v (remains U ⟨none, v ++ w, a⟩) ↔ m ≤ w.length ∨ w = [] ∨ IsIPv4 U w)) :
    OnlyPlaceholders placeholders v (redactChars U (v ++ text)) ↔
      ValueTaken U v m (stretches U (v ++ text)) := by
  have hvat : '@' ∉ v := fun h => (hv _ h).2.2 (by decide)
  have hvopening : '<' ∉ v := fun h => (hv _ h).2.2 (by decide)
  have hat : '@' ∉ v ++ text := fun h =>
    (List.mem_append.mp h).elim hvat fun h => (ne_of_token (htoken _ h)).2.1 rfl
  have hopening : '<' ∉ v ++ text := fun h =>
    (List.mem_append.mp h).elim hvopening fun h => (ne_of_token (htoken _ h)).1 rfl
  obtain ⟨k, hk, ho⟩ := apply_literal U (hv.not_numberStart U) hat
  obtain ⟨w, a, Rs, hliteral, hruns⟩ :=
    Cuts.runs_foldr_cons (P := placeholders) (e := none) v k none (some '>')
  have hstretches : stretches U (v ++ text) = ⟨none, v ++ w, a⟩ :: Rs := by
    rw [stretches, hk, hliteral]
  have hall := stretch_of_runs (U := U) k fun c hc => htoken c (ho ▸ hc)
  rw [hruns, List.forall_mem_cons] at hall
  have hkept : ∀ R ∈ (taken U (v ++ text)).runs placeholders none none, '<' ∉ R.word := by
    intro R hR hmem
    have hword := mem_original_of_runs hR hmem
    rw [taken_original] at hword
    exact hopening hword
  have hbody : ∀ l : Label, placeholders.closing ∉ placeholders.body l := by
    intro l
    cases l <;> decide
  have hrender := onlyPlaceholders_render hvopening hbody _ none none hkept
  rw [funext placeholders_text, render_taken] at hrender
  rw [hrender, ← keptRuns, keptRuns_eq, hstretches, List.flatMap_cons,
    emptied_append (remains_ne_nil U _), hfirst w a hall.1.token hall.1.after]
  have hrest : (∀ Q ∈ Rs.flatMap (remains U), Q.word = []) ↔ ∀ R ∈ Rs, Removable U R.word := by
    simp only [List.mem_flatMap, forall_exists_index, and_imp]
    constructor
    · exact fun h R hR => (remains_iff (hall.2 R hR)).mp fun S hS => h S R hR hS
    · exact fun h S R hR hS => (remains_iff (hall.2 R hR)).mpr (h R hR) S hS
  rw [hrest]
  constructor
  · rintro ⟨hw, hRs⟩
    exact ⟨w, a, Rs, rfl, hw, hRs⟩
  · rintro ⟨w', a', Rs', heq, hw, hRs⟩
    obtain ⟨hR, rfl⟩ := List.cons.inj heq
    obtain rfl : w = w' := List.append_cancel_left (congrArg Run.word hR)
    exact ⟨hw, hRs⟩

/-- **When a secret is removed whole**, for bearer tokens and for the values of API keys. -/
theorem redactStr_secret_iff :
    (∀ t : Token 20, OnlyPlaceholders placeholders bearerLiteral
        (redactStr U ("Bearer " ++ String.ofList t.chars)).toList ↔
      ValueTaken U bearerLiteral 20 (stretches U (bearerLiteral ++ t.chars))) ∧
    ∀ t : Token 16, OnlyPlaceholders placeholders apiKeyLiteral
        (redactStr U ("api_key=" ++ String.ofList t.chars)).toList ↔
      ValueTaken U apiKeyLiteral 16 (stretches U (apiKeyLiteral ++ t.chars)) := by
  constructor
  · intro t
    have hplain : PlainLiteral bearerLiteral := List.all_iff_forall_prop.mp (by decide)
    have htext : (redactStr U ("Bearer " ++ String.ofList t.chars)).toList =
        redactChars U (bearerLiteral ++ t.chars) := by
      simp [redactStr, bearerLiteral]
    rw [htext]
    exact onlyPlaceholders_iff U hplain t.token fun w a => emptied_remains_bearer
  · intro t
    have hplain : PlainLiteral apiKeyLiteral := List.all_iff_forall_prop.mp (by decide)
    have htext : (redactStr U ("api_key=" ++ String.ofList t.chars)).toList =
        redactChars U (apiKeyLiteral ++ t.chars) := by
      simp [redactStr, apiKeyLiteral]
    rw [htext]
    exact onlyPlaceholders_iff U hplain t.token fun w a => emptied_remains_apiKey

/-- Nothing but placeholders ends in a bracket, or is no longer than the literal. -/
theorem getLast?_onlyPlaceholders {v text : List Char} (h : OnlyPlaceholders placeholders v text) :
    text.getLast? = some '>' ∨ text.length ≤ v.length := by
  obtain ⟨p, ls, hp, rfl⟩ := h
  rcases List.eq_nil_or_concat' ls with rfl | ⟨ls, l, rfl⟩
  · rw [List.flatMap_nil, List.append_nil]
    exact Or.inr hp.length_le
  · have htext : (p ++ (ls ++ [l]).flatMap placeholders.text) =
        p ++ (ls.flatMap placeholders.text ++ '<' :: placeholders.body l) ++ ['>'] := by
      simp [Placeholders.text, placeholders]
    rw [htext, List.getLast?_concat]
    exact Or.inl rfl

/-- A phone number within a token breaks it in two. -/
theorem redactStr_splits_token : ∃ t : Token 20,
    redactStr asciiTables ("Bearer " ++ String.ofList t.chars) =
      "Bearer <PII:PHONE>abcdefghijkl" ∧
    ¬ OnlyPlaceholders placeholders bearerLiteral
      (redactStr asciiTables ("Bearer " ++ String.ofList t.chars)).toList := by
  have hredacted : redactStr asciiTables "Bearer 5551234567abcdefghijkl" =
      "Bearer <PII:PHONE>abcdefghijkl" := by decide +kernel
  have htoken : ∀ c ∈ "5551234567abcdefghijkl".toList, isTokenChar c = true :=
    List.all_eq_true.mp (by decide +kernel)
  refine ⟨⟨"5551234567abcdefghijkl".toList, by decide +kernel, htoken⟩, hredacted, ?_⟩
  intro h
  have h : OnlyPlaceholders placeholders bearerLiteral
      (redactStr asciiTables "Bearer 5551234567abcdefghijkl").toList := h
  rw [hredacted] at h
  have hend := getLast?_onlyPlaceholders h
  revert hend
  decide +kernel

end Value

end Sigil.Redaction
