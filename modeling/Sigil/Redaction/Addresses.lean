import Sigil.Redaction.Classifiers
import Mathlib.Data.List.Chain

/-! # Compressed IPv6 addresses

What `_IP_RE` takes out of an address with `::` in it. The third alternative repeats a group and its
colon, and goes on with two colons more: after a group on the left there is only one left, since the
other has gone to the group. So nothing left of the `::` is ever part of a match.
-/
set_option autoImplicit false

namespace Sigil.Redaction

open Regex

/-! ## Groups -/

/-- A group of an IPv6 address. -/
structure AddressGroup where
  digits : List Char
  nonempty : digits ≠ []
  length_le : digits.length ≤ 4
  hex : ∀ c ∈ digits, isHex c = true

/-- The groups on both sides of a `::`. -/
structure CompressedAddress where
  left : List AddressGroup
  right : List AddressGroup
  few : left.length + right.length ≤ 7

def joinGroups (gs : List AddressGroup) : List Char :=
  [':'].intercalate (gs.map AddressGroup.digits)

def CompressedAddress.text (a : CompressedAddress) : List Char :=
  joinGroups a.left ++ ':' :: ':' :: joinGroups a.right

/-- Every group with a colon after it. -/
def terminated (gs : List AddressGroup) : List Char := gs.flatMap fun g => g.digits ++ [':']

/-- Groups with colons between them. -/
def joined (gs : List AddressGroup) (g : AddressGroup) : List Char := terminated gs ++ g.digits

theorem terminated_cons (g : AddressGroup) (gs : List AddressGroup) :
    terminated (g :: gs) = g.digits ++ ':' :: terminated gs := by simp [terminated]

theorem joined_cons (h : AddressGroup) (gs : List AddressGroup) (g : AddressGroup) :
    joined (h :: gs) g = h.digits ++ ':' :: joined gs g := by simp [joined, terminated]

theorem joinGroups_snoc (gs : List AddressGroup) (g : AddressGroup) :
    joinGroups (gs ++ [g]) = joined gs g := by
  induction gs with
  | nil => simp [joinGroups, joined, terminated]
  | cons h gs ih =>
    have hne : (gs ++ [g]).map AddressGroup.digits ≠ [] := by simp
    rw [joined_cons, ← ih, joinGroups, List.cons_append, List.map_cons,
      List.intercalate_cons_of_ne_nil hne, joinGroups]
    simp

theorem isHex_colon : isHex ':' = false := by decide

theorem AddressGroup.no_colon (g : AddressGroup) : ':' ∉ g.digits := by
  intro h
  have hhex := g.hex _ h
  rw [isHex_colon] at hhex
  cases hhex

theorem joined_chars (gs : List AddressGroup) (g : AddressGroup) :
    ∀ c ∈ joined gs g, isHex c = true ∨ c = ':' := by
  intro c hc
  rcases List.mem_append.mp hc with hc | hc
  · obtain ⟨h, -, hc⟩ := List.mem_flatMap.mp hc
    rcases List.mem_append.mp hc with hc | hc
    · exact Or.inl (h.hex c hc)
    · exact Or.inr (List.mem_singleton.mp hc)
  · exact Or.inl (g.hex c hc)

theorem joined_head (gs : List AddressGroup) (g : AddressGroup) (c : Char)
    (hc : (joined gs g).head? = some c) : isHex c = true := by
  cases gs with
  | nil => exact g.hex c (List.mem_of_mem_head? hc)
  | cons h gs =>
    rw [joined_cons, List.head?_append_of_ne_nil _ h.nonempty] at hc
    exact h.hex c (List.mem_of_mem_head? hc)

theorem joined_last (gs : List AddressGroup) (g : AddressGroup) (c : Char)
    (hc : (joined gs g).getLast? = some c) : isHex c = true := by
  rw [joined, List.getLast?_append_of_ne_nil _ g.nonempty] at hc
  exact g.hex c (List.mem_of_mem_getLast? hc)

theorem joined_count (gs : List AddressGroup) (g : AddressGroup) :
    (joined gs g).count ':' = gs.length := by
  induction gs with
  | nil => exact List.count_eq_zero_of_not_mem g.no_colon
  | cons h gs ih =>
    rw [joined_cons, List.count_append, List.count_cons_self, ih,
      List.count_eq_zero_of_not_mem h.no_colon, List.length_cons, Nat.zero_add]

/-- No two colons in a row. -/
def Spaced (w : List Char) : Prop := w.IsChain fun c d => ¬ (c = ':' ∧ d = ':')

theorem not_spaced (x y : List Char) : ¬ Spaced (x ++ ':' :: ':' :: y) := by
  intro h
  have hcolons := (List.isChain_append.mp h).2.1
  exact (List.isChain_cons_cons.mp hcolons).1 ⟨rfl, rfl⟩

theorem AddressGroup.spaced (g : AddressGroup) : Spaced g.digits := by
  refine List.Pairwise.isChain (List.pairwise_of_forall_mem_list ?_)
  rintro c hc d - ⟨rfl, -⟩
  exact g.no_colon hc

theorem joined_spaced (gs : List AddressGroup) (g : AddressGroup) : Spaced (joined gs g) := by
  induction gs with
  | nil => exact g.spaced
  | cons h gs ih =>
    rw [joined_cons]
    refine List.isChain_append.mpr ⟨h.spaced, List.isChain_cons.mpr ⟨?_, ih⟩, ?_⟩
    · rintro d hd ⟨-, rfl⟩
      have hhex := joined_head gs g _ hd
      rw [isHex_colon] at hhex
      cases hhex
    · rintro c hc d - ⟨rfl, -⟩
      exact h.no_colon (List.mem_of_mem_getLast? hc)

/-! ## What the alternatives match -/

section Shapes

variable {b a : Option Char} {w : List Char}

theorem group_of_matches (h : Matches hexGroup b w a) : ∃ g : AddressGroup, g.digits = w := by
  have hhex : ∀ c ∈ w, isHex c = true := by
    refine h.only ?_
    simp [hexGroup, between, times, upTo, opt, Only]
  have hmin : 1 ≤ w.length := h.minLength_le
  obtain ⟨u, v, rfl, hu, hv⟩ := matches_seq.mp h
  obtain ⟨x, y, rfl, hx, hy⟩ := matches_seq.mp hu
  obtain ⟨c, rfl, -⟩ := matches_char.mp hx
  obtain rfl := matches_empty.mp hy
  have hlen := hv.length_le_of_upTo
  exact ⟨⟨_, List.length_pos_iff.mp hmin, by simp; omega, hhex⟩, rfl⟩

theorem terminated_of_seq (h : Matches (seq hexGroup (lit ':')) b w a) :
    ∃ g : AddressGroup, w = g.digits ++ [':'] := by
  obtain ⟨u, v, rfl, hu, hv⟩ := matches_seq.mp h
  obtain ⟨g, rfl⟩ := group_of_matches hu
  rw [matches_lit.mp hv]
  exact ⟨g, rfl⟩

theorem terminated_of_times {n : ℕ} (h : Matches (times n (seq hexGroup (lit ':'))) b w a) :
    ∃ gs : List AddressGroup, gs.length = n ∧ w = terminated gs := by
  induction n generalizing b w with
  | zero => exact ⟨[], rfl, matches_empty.mp h⟩
  | succ n ih =>
    obtain ⟨u, v, rfl, hu, hv⟩ := matches_seq.mp h
    obtain ⟨g, rfl⟩ := terminated_of_seq hu
    obtain ⟨gs, rfl, rfl⟩ := ih hv
    exact ⟨g :: gs, rfl, rfl⟩

theorem terminated_of_star (h : Matches (star (seq hexGroup (lit ':'))) b w a) :
    ∃ gs : List AddressGroup, w = terminated gs := by
  generalize hr : star (seq hexGroup (lit ':')) = r at h
  induction h with
  | stop r b a => exact ⟨[], rfl⟩
  | round r b a u v hne hu hv _ ih =>
    obtain rfl := star.inj hr
    obtain ⟨g, rfl⟩ := terminated_of_seq hu
    obtain ⟨gs, rfl⟩ := ih hr
    exact ⟨g :: gs, rfl⟩
  | char p b a x hx => cases hr
  | look f b a hf => cases hr
  | empty b a => cases hr
  | seq r s b a u v _ _ _ _ => cases hr
  | left r s b a w _ _ => cases hr
  | right r s b a w _ _ => cases hr

/-- The full form: eight groups. -/
theorem joined_of_ipv6Full (h : Matches ipv6Full b w a) :
    ∃ gs g, gs.length = 7 ∧ w = joined gs g := by
  obtain ⟨u, v, rfl, hu, hv⟩ := matches_seq.mp h
  obtain ⟨gs, hlen, rfl⟩ := terminated_of_times hu
  obtain ⟨g, rfl⟩ := group_of_matches hv
  exact ⟨gs, g, hlen, rfl⟩

/-- The compressed form: every group on the left takes a colon of its own. -/
theorem terminated_of_ipv6Compressed (h : Matches ipv6Compressed b w a) :
    ∃ gs y, w = terminated gs ++ ':' :: ':' :: y := by
  obtain ⟨x, v, rfl, hx, h⟩ := matches_seq.mp h
  obtain ⟨c, v, rfl, hc, h⟩ := matches_seq.mp h
  obtain ⟨d, y, rfl, hd, -⟩ := matches_seq.mp h
  obtain ⟨gs, rfl⟩ := terminated_of_star hx
  rw [matches_lit.mp hc, matches_lit.mp hd]
  exact ⟨gs, y, rfl⟩

theorem dot_of_ipv4 (U : CharTables) (h : Matches (ipv4 U) b w a) : '.' ∈ w := by
  have hneeds : Needs (fun c => c = '.') (ipv4 U) := by simp [ipv4, concat, times, Needs, lit]
  obtain ⟨c, hc, rfl⟩ := h.needs hneeds
  exact hc

end Shapes

/-! ## On the left of the colons -/

section Left

variable {t right : List Char}

/-- Text with a `::` in it, and no other. -/
structure AroundColons (t right : List Char) : Prop where
  left_spaced : Spaced t
  left_last : ∀ c, t.getLast? = some c → isHex c = true
  right_spaced : Spaced right
  right_head : ∀ c, right.head? = some c → isHex c = true

theorem split_colons {u z v : List Char} (h : ':' :: ':' :: u = z ++ ':' :: ':' :: v) :
    z = [] ∨ (z = [':'] ∧ u = ':' :: v) ∨ ∃ z', z = ':' :: ':' :: z' ∧ u = z' ++ ':' :: ':' :: v := by
  cases z with
  | nil => exact Or.inl rfl
  | cons c z =>
    rw [List.cons_append, List.cons.injEq] at h
    obtain ⟨rfl, h⟩ := h
    cases z with
    | nil =>
      rw [List.nil_append, List.cons.injEq] at h
      exact Or.inr (Or.inl ⟨rfl, h.2⟩)
    | cons d z =>
      rw [List.cons_append, List.cons.injEq] at h
      obtain ⟨rfl, h⟩ := h
      exact Or.inr (Or.inr ⟨z, rfl, h⟩)

/-- There is one place only where a colon follows on another. -/
theorem AroundColons.unique (h : AroundColons t right) {x y : List Char}
    (heq : t ++ ':' :: ':' :: right = x ++ ':' :: ':' :: y) : x = t := by
  rcases List.append_eq_append_iff.mp heq with ⟨z, rfl, hz⟩ | ⟨z, rfl, hz⟩
  · rcases split_colons hz with rfl | ⟨-, rfl⟩ | ⟨z', -, rfl⟩
    · simp
    · exact absurd (h.right_head _ rfl) (by decide)
    · exact absurd h.right_spaced (not_spaced z' y)
  · rcases split_colons hz with rfl | ⟨rfl, -⟩ | ⟨z', rfl, -⟩
    · simp
    · exact absurd (h.left_last ':' (by simp)) (by decide)
    · exact absurd h.left_spaced (not_spaced x z')

/-- The full form does not reach over the colons. -/
theorem AroundColons.not_ipv6Full (h : AroundColons t right) (hcount : t.count ':' < 7)
    {b a : Option Char} {w y : List Char} (heq : t ++ ':' :: ':' :: right = w ++ y) :
    ¬ Matches ipv6Full b w a := by
  intro hm
  obtain ⟨gs, g, hlen, rfl⟩ := joined_of_ipv6Full hm
  have hseven := joined_count gs g
  rcases List.append_eq_append_iff.mp heq with ⟨z, hz, hrest⟩ | ⟨z, rfl, -⟩
  · cases z with
    | nil =>
      rw [List.append_nil] at hz
      rw [hz] at hseven
      omega
    | cons c z =>
      rw [List.cons_append, List.cons.injEq] at hrest
      obtain ⟨rfl, hrest⟩ := hrest
      cases z with
      | nil => exact absurd (joined_last gs g ':' (by rw [hz]; simp)) (by decide)
      | cons d z =>
        rw [List.cons_append, List.cons.injEq] at hrest
        obtain ⟨rfl, -⟩ := hrest
        have hspaced := joined_spaced gs g
        rw [hz] at hspaced
        exact not_spaced t z hspaced
  · rw [List.count_append] at hcount
    omega

/-- Nor does the compressed form take a group on their left. -/
theorem AroundColons.not_ipv6Compressed (h : AroundColons t right) (hne : t ≠ [])
    {b a : Option Char} {w y : List Char} (heq : t ++ ':' :: ':' :: right = w ++ y) :
    ¬ Matches ipv6Compressed b w a := by
  intro hm
  obtain ⟨gs, z, rfl⟩ := terminated_of_ipv6Compressed hm
  have hsplit : t ++ ':' :: ':' :: right = terminated gs ++ ':' :: ':' :: (z ++ y) := by
    rw [heq]
    simp
  obtain rfl := h.unique hsplit
  rcases List.eq_nil_or_concat' gs with rfl | ⟨gs, g, rfl⟩
  · exact hne rfl
  · exact absurd (h.left_last ':' (by simp [terminated])) (by decide)

end Left

/-! ## From the colons on -/

section Right

theorem first_hexGroup (g : AddressGroup) (e b : Option Char) (v : List Char) :
    first e (seq hexGroup (lit ':')) ⟨b, g.digits ++ ':' :: v⟩ = some ⟨some ':', v⟩ := by
  obtain ⟨c, cs, hcs⟩ := List.exists_cons_of_ne_nil g.nonempty
  have hlen := g.length_le
  have hhex := g.hex
  rw [hcs] at hlen hhex ⊢
  have hupTo := first_upTo_char (e := e) 3 (some c) cs (':' :: v)
    (fun x hx => hhex x (List.mem_cons_of_mem c hx)) (Nat.le_of_succ_le_succ hlen)
    (Or.inr (by simp [isHex_colon]))
  have hgroup : first e hexGroup ⟨b, c :: cs ++ ':' :: v⟩ =
      some ⟨cs.getLast?.or (some c), ':' :: v⟩ :=
    first_seq (first_seq (first_char (hhex c List.mem_cons_self)) first_empty) hupTo
  exact first_seq hgroup (first_char (by decide))

theorem first_no_group {e b : Option Char} {rest : List Char} (h : ':' ∉ rest) :
    first e (seq hexGroup (lit ':')) ⟨b, rest⟩ = none := by
  refine first_eq_none.mpr ?_
  rintro w d hw hm
  obtain ⟨g, rfl⟩ := terminated_of_seq hm
  apply h
  rw [show rest = (g.digits ++ [':']) ++ d.rest from hw.rest]
  simp

theorem first_groups (gs : List AddressGroup) (e b : Option Char) (u : List Char) (h : ':' ∉ u) :
    ∃ b', first e (star (seq hexGroup (lit ':'))) ⟨b, terminated gs ++ u⟩ = some ⟨b', u⟩ := by
  induction gs generalizing b with
  | nil => exact ⟨b, first_star_stop (first_no_group h)⟩
  | cons g gs ih =>
    obtain ⟨b', hb'⟩ := ih (some ':')
    refine ⟨b', ?_⟩
    have hround := first_hexGroup g e b (terminated gs ++ u)
    rw [terminated_cons, List.append_assoc, List.cons_append]
    rw [first_star_round hround (by simp; omega), hb']

/-- What may stand on the right: groups, and digits at the end. -/
theorem joinGroups_right (gs : List AddressGroup) : ∃ hs u,
    joinGroups gs = terminated hs ++ u ∧ u.length ≤ 4 ∧ ∀ c ∈ u, isHex c = true := by
  rcases List.eq_nil_or_concat' gs with rfl | ⟨hs, g, rfl⟩
  · exact ⟨[], [], rfl, Nat.zero_le 4, fun c hc => absurd hc List.not_mem_nil⟩
  · exact ⟨hs, g.digits, joinGroups_snoc hs g, g.length_le, g.hex⟩

/-- **The compressed form takes everything from the colons on.** -/
theorem first_ipv6Compressed (gs : List AddressGroup) (e b : Option Char) :
    ∃ b', first e ipv6Compressed ⟨b, ':' :: ':' :: joinGroups gs⟩ = some ⟨b', []⟩ := by
  obtain ⟨hs, u, hgs, hlen, hhex⟩ := joinGroups_right gs
  have hu : ':' ∉ u := by
    intro h
    have hcolon := hhex _ h
    rw [isHex_colon] at hcolon
    cases hcolon
  obtain ⟨b', hb'⟩ := first_groups hs e (some ':') u hu
  have hstart : first e (star (seq hexGroup (lit ':'))) ⟨b, ':' :: ':' :: (terminated hs ++ u)⟩ =
      some ⟨b, ':' :: ':' :: (terminated hs ++ u)⟩ := by
    refine first_star_stop (first_eq_none.mpr ?_)
    rintro w d hw hm
    obtain ⟨g, rfl⟩ := terminated_of_seq hm
    obtain ⟨c, cs, hcs⟩ := List.exists_cons_of_ne_nil g.nonempty
    have hc := g.hex c (by rw [hcs]; exact List.mem_cons_self)
    have hrest := hw.rest
    rw [hcs] at hrest
    rw [← (List.cons.inj hrest).1, isHex_colon] at hc
    cases hc
  have hend := first_upTo_char (e := e) 4 b' u [] hhex hlen (Or.inr (by simp))
  rw [List.append_nil] at hend
  rw [hgs]
  exact ⟨_, first_seq hstart (first_seq (first_char (by decide)) (first_seq (first_char (by decide))
    (first_left (first_seq hb' (first_seq first_empty hend)))))⟩

end Right

/-! ## The whole address -/

section Address

variable (U : CharTables)

theorem joinGroups_chars (gs : List AddressGroup) :
    ∀ c ∈ joinGroups gs, isHex c = true ∨ c = ':' := by
  rcases List.eq_nil_or_concat' gs with rfl | ⟨hs, g, rfl⟩
  · exact fun c hc => absurd hc List.not_mem_nil
  · rw [joinGroups_snoc]
    exact joined_chars hs g

theorem aroundColons (left right : List AddressGroup) (t : List Char)
    (ht : t <:+ joinGroups left) : AroundColons t (joinGroups right) where
  left_spaced := by
    rcases List.eq_nil_or_concat' left with rfl | ⟨hs, g, rfl⟩
    · rw [List.suffix_nil.mp ht]
      exact List.isChain_nil
    · rw [joinGroups_snoc] at ht
      exact (joined_spaced hs g).suffix ht
  left_last := by
    rcases List.eq_nil_or_concat' left with rfl | ⟨hs, g, rfl⟩
    · rw [List.suffix_nil.mp ht]
      rintro c ⟨⟩
    · rw [joinGroups_snoc] at ht
      intro c hc
      obtain ⟨u, hu⟩ := ht
      refine joined_last hs g c ?_
      rw [← hu, List.getLast?_append, hc]
      rfl
  right_spaced := by
    rcases List.eq_nil_or_concat' right with rfl | ⟨hs, g, rfl⟩
    · exact List.isChain_nil
    · rw [joinGroups_snoc]
      exact joined_spaced hs g
  right_head := by
    rcases List.eq_nil_or_concat' right with rfl | ⟨hs, g, rfl⟩
    · rintro c ⟨⟩
    · rw [joinGroups_snoc]
      exact joined_head hs g

theorem count_suffix (a : CompressedAddress) {t : List Char} (ht : t <:+ joinGroups a.left) :
    t.count ':' < 7 := by
  have hle := ht.sublist.count_le ':'
  have hfew := a.few
  rcases List.eq_nil_or_concat' a.left with hnil | ⟨hs, g, hsnoc⟩
  · rw [hnil, show joinGroups [] = [] from rfl, List.count_nil] at hle
    omega
  · rw [hsnoc, joinGroups_snoc, joined_count] at hle
    rw [hsnoc, List.length_append, List.length_singleton] at hfew
    omega

theorem not_ipv4 (left right : List AddressGroup) {t : List Char} (ht : t <:+ joinGroups left)
    {b a : Option Char} {w y : List Char}
    (heq : t ++ ':' :: ':' :: joinGroups right = w ++ y) : ¬ Matches (ipv4 U) b w a := by
  intro hm
  have hdot : '.' ∈ t ++ ':' :: ':' :: joinGroups right := by
    rw [heq]
    exact List.mem_append_left y (dot_of_ipv4 U hm)
  have hchar : isHex '.' = true ∨ '.' = ':' := by
    rcases List.mem_append.mp hdot with hc | hc
    · exact joinGroups_chars left _ (ht.subset hc)
    · rcases List.mem_cons.mp hc with hc | hc
      · exact Or.inr hc
      · exact (List.mem_cons.mp hc).elim Or.inr (joinGroups_chars right _)
  exact absurd hchar (by decide)

/-- On the left of the colons no match begins. -/
theorem first_left_of_colons (a : CompressedAddress) {t : List Char}
    (ht : t <:+ joinGroups a.left) (hne : t ≠ []) (b : Option Char) :
    first none (ipRe U) ⟨b, t ++ ':' :: ':' :: joinGroups a.right⟩ = none := by
  have haround := aroundColons a.left a.right t ht
  refine first_eq_none.mpr ?_
  rintro w d hw hm
  rcases matches_alt.mp hm with hm | hm
  · exact not_ipv4 U a.left a.right ht hw.rest hm
  · rcases matches_alt.mp hm with hm | hm
    · exact haround.not_ipv6Full (count_suffix a ht) hw.rest hm
    · exact haround.not_ipv6Compressed hne hw.rest hm

theorem first_at_colons (a : CompressedAddress) (b : Option Char) :
    ∃ b', first none (ipRe U) ⟨b, ':' :: ':' :: joinGroups a.right⟩ = some ⟨b', []⟩ := by
  have hnil : [] <:+ joinGroups a.left := List.nil_suffix
  have haround := aroundColons a.left a.right [] hnil
  have hipv4 : first none (ipv4 U) ⟨b, ':' :: ':' :: joinGroups a.right⟩ = none :=
    first_eq_none.mpr fun w d hw => not_ipv4 U a.left a.right hnil hw.rest
  have hfull : first none ipv6Full ⟨b, ':' :: ':' :: joinGroups a.right⟩ = none :=
    first_eq_none.mpr fun w d hw => haround.not_ipv6Full (count_suffix a hnil) hw.rest
  obtain ⟨b', hb'⟩ := first_ipv6Compressed a.right none b
  refine ⟨b', ?_⟩
  rw [ipRe, first_right hipv4, first_right hfull, hb']

theorem render_cuts_address (a : CompressedAddress) (repl : List Char) (t : List Char)
    (ht : t <:+ joinGroups a.left) (b : Option Char) :
    (cuts (ipRe U) () none ⟨b, t ++ ':' :: ':' :: joinGroups a.right⟩).render (fun _ => repl) =
      t ++ repl := by
  induction t generalizing b with
  | nil =>
    obtain ⟨b', hb'⟩ := first_at_colons U a b
    obtain ⟨w, hw, -⟩ := first_sound hb'
    have hhit : hit none (ipRe U) ⟨b, ':' :: ':' :: joinGroups a.right⟩ = some ⟨b', []⟩ := by
      rw [hit, hb', Option.filter_some, if_pos (by simp)]
    rw [List.nil_append, cuts_hit hhit hw, cuts_nil]
    simp [Cuts.render]
  | cons c t ih =>
    have hmiss : hit none (ipRe U) ⟨b, c :: t ++ ':' :: ':' :: joinGroups a.right⟩ = none := by
      rw [hit, first_left_of_colons U a ht (List.cons_ne_nil c t)]
      rfl
    rw [List.cons_append] at hmiss ⊢
    rw [cuts_miss hmiss, Cuts.render_cons, ih ((List.suffix_cons c t).trans ht)]
    rfl

/-- **The left side of a compressed address stays**: the placeholder stands for the rest. -/
theorem sub_ipRe_address (a : CompressedAddress) :
    sub (ipRe U) (classifierLabels .ipAddress) a.text =
      joinGroups a.left ++ classifierLabels .ipAddress :=
  render_cuts_address U a _ _ List.suffix_rfl none

/-- A compressed address is redacted whole exactly if it has no group on the left. -/
theorem sub_ipRe_whole_iff (a : CompressedAddress) :
    sub (ipRe U) (classifierLabels .ipAddress) a.text = classifierLabels .ipAddress ↔
      a.left = [] := by
  rw [sub_ipRe_address]
  constructor
  · intro h
    rcases List.eq_nil_or_concat' a.left with hnil | ⟨hs, g, hsnoc⟩
    · exact hnil
    · have hempty : joined hs g = [] := by
        rw [← joinGroups_snoc, ← hsnoc]
        exact List.append_left_eq_self.mp h
      exact absurd (List.append_eq_nil_iff.mp hempty).2 g.nonempty
  · intro h
    rw [h]
    rfl

/-- One group on each side: the one on the left is left over. -/
theorem sub_ipRe_leaves_group :
    ∃ a : CompressedAddress, a.text = "fe80::1".toList ∧
      sub (ipRe asciiTables) (classifierLabels .ipAddress) a.text =
        "fe80<PII:IP_ADDRESS>".toList ∧
      sub (ipRe asciiTables) (classifierLabels .ipAddress) a.text ≠
        classifierLabels .ipAddress := by
  let left : AddressGroup :=
    ⟨['f', 'e', '8', '0'], by decide, by decide, List.all_eq_true.mp (by decide)⟩
  let right : AddressGroup := ⟨['1'], by decide, by decide, List.all_eq_true.mp (by decide)⟩
  refine ⟨⟨[left], [right], by simp⟩, by decide +kernel, by decide +kernel, by decide +kernel⟩

end Address

end Sigil.Redaction
