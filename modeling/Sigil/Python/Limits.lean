import Sigil.Python.Balance
import Mathlib.Algebra.Group.Nat.Defs

/-! # The interpreter's limits on `json.loads`

A scan that meets neither limit is that of `loads`. An integer of too many digits is not read, and
nor are brackets that stand too deep. The bound the scanner recurses on is none of these limits: a
larger one reads the same.
-/
set_option autoImplicit false

namespace Sigil.Json

/-! ## It reads what `loads` reads -/

/-- The two readers agree, unless a limit is reached. -/
def Follows {α : Type} (L : Limits) (x : Except LoadsError α) (o : Option α) : Prop :=
  x = decoded o ∨ L ≠ .off ∧ ∃ e, x = .error (.raised e)

section Follows

variable {α β : Type} {L : Limits} {x : Except LoadsError α} {o : Option α}

theorem follows_decoded (o : Option α) : Follows L (decoded o) o := Or.inl rfl

theorem follows_raised (e : PyError) (hL : L ≠ .off) : Follows L (.error (.raised e)) o :=
  Or.inr ⟨hL, e, rfl⟩

theorem Follows.bind {f : α → Except LoadsError β} {g : α → Option β} (hx : Follows L x o)
    (hf : ∀ a, Follows L (f a) (g a)) : Follows L (x >>= f) (o >>= g) := by
  rcases hx with rfl | ⟨hL, e, rfl⟩
  · cases o with
    | none => exact Or.inl rfl
    | some a => exact hf a
  · exact follows_raised e hL

theorem Follows.map (f : α → β) (hx : Follows L x o) : Follows L (x.map f) (o.map f) := by
  rcases hx with rfl | ⟨hL, e, rfl⟩
  · cases o <;> exact Or.inl rfl
  · exact follows_raised e hL

theorem exceeds_some {n limit : ℕ} : exceeds n (some limit) = true ↔ limit < n := decide_eq_true_iff

theorem exceeds_limits {n : ℕ} {limit : Option ℕ} (h : exceeds n limit = true) : limit ≠ none := by
  rintro rfl
  cases h

end Follows

section Step

variable (h : Host) (L : Limits)

theorem parseConstant_follows (cs : List Char) :
    Follows L (parseConstantWithin h L cs) (parseConstant h cs) := by
  unfold parseConstantWithin
  split
  · next hlong =>
    exact follows_raised _ fun hoff => exceeds_limits hlong (congrArg Limits.intDigits hoff)
  · exact follows_decoded _

variable (fuel : ℕ)
  (hvalue : ∀ depth cs, Follows L (parseValueWithin h L fuel depth cs) (parseValue h fuel cs))
  (hitems : ∀ depth cs, Follows L (parseItemsWithin h L fuel depth cs) (parseItems h fuel cs))
  (hmembers : ∀ depth cs,
    Follows L (parseMembersWithin h L fuel depth cs) (parseMembers h fuel cs))

include hitems hmembers in
theorem parseValue_follows (depth : ℕ) (cs : List Char) :
    Follows L (parseValueWithin h L (fuel + 1) depth cs) (parseValue h (fuel + 1) cs) := by
  have hdeep : ∀ {o : Option (PyVal × List Char)}, exceeds (depth + 1) L.nesting = true →
      Follows L (.error (.raised .recursionError)) o := fun hdeep =>
    follows_raised _ fun hoff => exceeds_limits hdeep (congrArg Limits.nesting hoff)
  cases cs with
  | nil => exact follows_decoded none
  | cons c cs =>
    rw [parseValueWithin, parseValue]
    split
    · exact follows_decoded _
    · split
      · split
        · next hlimit => exact hdeep hlimit
        · generalize skipWhitespace cs = ds
          split
          · exact follows_decoded (some _)
          · exact (hitems (depth + 1) ds).map _
      · split
        · split
          · next hlimit => exact hdeep hlimit
          · cases skipWhitespace cs with
            | nil => exact follows_decoded none
            | cons c' rest =>
              simp only
              split
              · exact follows_decoded (some _)
              · exact (hmembers (depth + 1) (c' :: rest)).map _
        · exact parseConstant_follows h L _

include hvalue hitems in
theorem parseItems_follows (depth : ℕ) (cs : List Char) :
    Follows L (parseItemsWithin h L (fuel + 1) depth cs) (parseItems h (fuel + 1) cs) := by
  rw [parseItemsWithin, parseItems]
  refine (hvalue depth cs).bind fun item => ?_
  obtain ⟨x, rest⟩ := item
  simp only
  generalize skipWhitespace rest = ds
  split
  · exact (hitems depth _).bind fun _ => follows_decoded (some _)
  · exact follows_decoded (some _)
  · exact follows_decoded none

include hvalue hmembers in
theorem parseMembers_follows (depth : ℕ) (cs : List Char) :
    Follows L (parseMembersWithin h L (fuel + 1) depth cs) (parseMembers h (fuel + 1) cs) := by
  cases cs with
  | nil => exact follows_decoded none
  | cons q cs =>
    rw [parseMembersWithin, parseMembers]
    split
    · refine (follows_decoded (parseString h cs)).bind fun member => ?_
      obtain ⟨key, rest⟩ := member
      simp only
      generalize skipWhitespace rest = ds
      split
      · refine (hvalue depth _).bind fun value => ?_
        obtain ⟨v, rest⟩ := value
        simp only
        generalize skipWhitespace rest = ds
        split
        · exact (hmembers depth _).bind fun _ => follows_decoded (some _)
        · -- the members end here, or the text is not JSON
          split
          · exact follows_decoded (some _)
          · exact follows_decoded none
        · exact follows_decoded none
      · exact follows_decoded none
    · exact follows_decoded none

end Step

theorem parse_follows (h : Host) (L : Limits) (fuel : ℕ) :
    (∀ depth cs, Follows L (parseValueWithin h L fuel depth cs) (parseValue h fuel cs)) ∧
    (∀ depth cs, Follows L (parseItemsWithin h L fuel depth cs) (parseItems h fuel cs)) ∧
    ∀ depth cs, Follows L (parseMembersWithin h L fuel depth cs) (parseMembers h fuel cs) := by
  induction fuel with
  | zero => exact ⟨fun _ _ => Or.inl rfl, fun _ _ => Or.inl rfl, fun _ _ => Or.inl rfl⟩
  | succ fuel ih =>
    obtain ⟨hvalue, hitems, hmembers⟩ := ih
    exact ⟨parseValue_follows h L fuel hitems hmembers, parseItems_follows h L fuel hvalue hitems,
      parseMembers_follows h L fuel hvalue hmembers⟩

/-- **What is read within the limits is what `loads` reads.** -/
theorem loads_follows (h : Host) (L : Limits) (s : String) :
    Follows L (loadsWithin h L s) (loads h s) := by
  unfold loadsWithin loads
  refine ((parse_follows h L (2 * s.length + 1)).1 0 _).bind fun value => ?_
  obtain ⟨v, rest⟩ := value
  simp only
  split
  · exact follows_decoded (some _)
  · exact follows_decoded none

/-- Without limits, text that is not JSON is the only error. -/
theorem loadsWithin_off (h : Host) (s : String) : loadsWithin h .off s = decoded (loads h s) := by
  rcases loads_follows h .off s with heq | ⟨hoff, -⟩
  · exact heq
  · exact absurd rfl hoff

/-! ## What it does not read -/

theorem integerDigits_text (text sign int rest : List Char)
    (ht : NumberText text sign int [] []) (hrest : Stops rest) :
    integerDigits (text ++ rest) = int.length := by
  have hexp := expPart_text [] rest (Or.inl rfl) hrest
  have hfrac := fracPart_text [] rest (Or.inl rfl) hrest.noDigit
    fun cs => expText_noDot [] rest cs (Or.inl rfl) hrest
  have hint := intPart_text int rest ht.int hrest.noDigit
  rw [List.nil_append] at hexp hfrac
  simp only [integerDigits, signPart_text text sign int [] [] rest ht, List.nil_append, hint, hfrac,
    hexp, and_self, if_true]

theorem ofDigitChars_lt (ds : List Char) (hds : ∀ c ∈ ds, c.isDigit = true) :
    Nat.ofDigitChars 10 ds 0 < 10 ^ ds.length := by
  induction ds with
  | nil => simp
  | cons d ds ih =>
    have hd := hds d List.mem_cons_self
    have hrest := ih fun c hc => hds c (List.mem_cons_of_mem d hc)
    have hdigit : d.toNat - '0'.toNat ≤ 9 := by
      simp only [Char.isDigit, Bool.and_eq_true, decide_eq_true_eq] at hd
      have hhigh : d.toNat ≤ 57 := hd.2
      have hzero : '0'.toNat = 48 := rfl
      omega
    rw [Nat.ofDigitChars_cons, Nat.ofDigitChars_eq_ofDigitChars_zero, List.length_cons,
      Nat.pow_succ]
    calc 10 ^ ds.length * (10 * 0 + (d.toNat - '0'.toNat)) + Nat.ofDigitChars 10 ds 0
        ≤ 10 ^ ds.length * 9 + Nat.ofDigitChars 10 ds 0 :=
          Nat.add_le_add_right (Nat.mul_le_mul_left _ (by omega)) _
      _ < 10 ^ ds.length * 10 := by omega

/-- **Integers of too many digits are not read.** -/
theorem loads_longInteger (h : Host) (L : Limits) (n : ℕ) (hL : L.intDigits = some n) (i : ℤ)
    (hi : 10 ^ n ≤ i.natAbs) : loadsWithin h L (toString i) = .error (.raised .valueError) := by
  obtain ⟨sign, int, ht, hvalue⟩ := toString_numberText i
  have hdigits : integerDigits (toString i).toList = int.length := by
    have := integerDigits_text _ sign int [] ht stops_nil
    rwa [List.append_nil] at this
  have hlong : n < int.length := by
    have habs : i.natAbs = Nat.ofDigitChars 10 int 0 := by
      rw [← hvalue]
      split <;> simp
    have hlt := ofDigitChars_lt int ht.int.digits.2
    exact (Nat.pow_lt_pow_iff_right (by decide)).mp (lt_of_le_of_lt (habs ▸ hi) hlt)
  obtain ⟨c, cs, htext, hc⟩ := ht.head
  have hplain : c ∉ [quoteChar, '[', Char.ofNat 0x7b] := by
    rcases hc with hc | ⟨rfl, -⟩
    · exact not_mem_of_digit c hc _ rfl
    · decide
  simp only [List.mem_cons, List.not_mem_nil, or_false, not_or] at hplain
  have hskip : skipWhitespace (toString i).toList = (toString i).toList := by
    obtain ⟨c, cs, heq, hspace, -⟩ := ht.head_plain
    rw [heq, skipWhitespace_cons c cs hspace]
  have hvalue : parseValueWithin h L (2 * (toString i).length + 1) 0 (toString i).toList =
      .error (.raised .valueError) := by
    rw [htext, parseValueWithin, if_neg hplain.1, if_neg hplain.2.1, if_neg hplain.2.2, ← htext,
      parseConstantWithin, hdigits, hL, if_pos (exceeds_some.mpr hlong)]
  rw [loadsWithin, hskip, hvalue]
  rfl

theorem parseValue_deep (h : Host) (L : Limits) (n : ℕ) (hL : L.nesting = some n)
    (k fuel depth : ℕ) (rest : List Char) (hk : 0 < k) (hdepth : n < depth + k)
    (hfuel : 2 * k < fuel) :
    parseValueWithin h L fuel depth (List.replicate k '[' ++ rest) =
      .error (.raised .recursionError) := by
  induction k generalizing fuel depth with
  | zero => cases hk
  | succ k ih =>
    obtain ⟨fuel, rfl⟩ : ∃ f, fuel = f + 2 := ⟨fuel - 2, by omega⟩
    have hquote : '[' ≠ quoteChar := by decide
    rw [List.replicate_succ, List.cons_append, parseValueWithin, if_neg hquote, if_pos rfl, hL]
    by_cases hlast : n < depth + 1
    · rw [if_pos (exceeds_some.mpr hlast)]
    · -- one more container is opened
      have hinner := ih fuel (depth + 1) (by omega) (by omega) (by omega)
      obtain ⟨k, rfl⟩ : ∃ j, k = j + 1 := ⟨k - 1, by omega⟩
      rw [if_neg fun hlimit => hlast (exceeds_some.mp hlimit)]
      rw [List.replicate_succ, List.cons_append] at hinner ⊢
      have hitems : parseItemsWithin h L (fuel + 1) (depth + 1)
          ('[' :: (List.replicate k '[' ++ rest)) = .error (.raised .recursionError) := by
        rw [parseItemsWithin, hinner]
        rfl
      rw [skipWhitespace_cons _ _ (by decide)]
      show Except.map _ (parseItemsWithin h L (fuel + 1) (depth + 1)
        ('[' :: (List.replicate k '[' ++ rest))) = _
      rw [hitems]
      rfl

/-- **Nor are containers nested too deep**, whatever comes behind the brackets. -/
theorem loads_deep (h : Host) (L : Limits) (n : ℕ) (hL : L.nesting = some n) (rest : List Char) :
    loadsWithin h L (String.ofList (List.replicate (n + 1) '[' ++ rest)) =
      .error (.raised .recursionError) := by
  have hskip : skipWhitespace (List.replicate (n + 1) '[' ++ rest) =
      List.replicate (n + 1) '[' ++ rest := by
    rw [List.replicate_succ, List.cons_append, skipWhitespace_cons _ _ (by decide)]
  rw [loadsWithin, String.toList_ofList, hskip, String.length_ofList,
    parseValue_deep h L n hL (n + 1) _ 0 rest (Nat.succ_pos n) (by omega) ?_]
  · rfl
  · rw [List.length_append, List.length_replicate]
    omega


/-! ## The bound on the recursion is enough -/

theorem Follows.read {α : Type} {L : Limits} {x : Except LoadsError α} {o : Option α} {a : α}
    (hx : Follows L x o) (ha : x = .ok a) : o = some a := by
  rcases hx with rfl | ⟨-, e, rfl⟩
  · cases o with
    | none => cases ha
    | some b =>
      cases ha
      rfl
  · cases ha

theorem Consumes.length_le {P : List Char → Prop} {cs rest : List Char} (hc : Consumes P cs rest) :
    rest.length ≤ cs.length := by
  obtain ⟨pre, rfl, -⟩ := hc
  rw [List.length_append]
  exact Nat.le_add_left _ _

theorem skipWhitespace_length (cs : List Char) : (skipWhitespace cs).length ≤ cs.length :=
  (skipWhitespace_consumes cs).length_le

/-- What is left behind a value is no longer than the text. -/
theorem parseValue_length (h : Host) (L : Limits) (fuel depth : ℕ) (cs rest : List Char) (v : PyVal)
    (hp : parseValueWithin h L fuel depth cs = .ok (v, rest)) : rest.length ≤ cs.length :=
  ((parse_consumes h fuel).1 cs v rest (((parse_follows h L fuel).1 depth cs).read hp)).length_le

theorem bind_congr_of_ok {ε α β : Type} {x : Except ε α} {f g : α → Except ε β}
    (hfg : ∀ a, x = .ok a → f a = g a) : (x >>= f) = (x >>= g) := by
  cases x with
  | error e => rfl
  | ok a => exact hfg a rfl

section Enough

variable (h : Host) (L : Limits) (fuel : ℕ)
  (hvalue : ∀ depth cs, 2 * cs.length < fuel →
    parseValueWithin h L (fuel + 1) depth cs = parseValueWithin h L fuel depth cs)
  (hitems : ∀ depth cs, 2 * cs.length + 1 < fuel →
    parseItemsWithin h L (fuel + 1) depth cs = parseItemsWithin h L fuel depth cs)
  (hmembers : ∀ depth cs, 2 * cs.length + 1 < fuel →
    parseMembersWithin h L (fuel + 1) depth cs = parseMembersWithin h L fuel depth cs)

include hitems hmembers in
theorem parseValue_enough (depth : ℕ) (cs : List Char) (hfuel : 2 * cs.length < fuel + 1) :
    parseValueWithin h L (fuel + 2) depth cs = parseValueWithin h L (fuel + 1) depth cs := by
  cases cs with
  | nil => rfl
  | cons c cs =>
    rw [List.length_cons] at hfuel
    have hskip := skipWhitespace_length cs
    generalize hds : skipWhitespace cs = ds at hskip
    rw [parseValueWithin, parseValueWithin, hds]
    split
    · rfl
    · split
      · split
        · rfl
        · split
          · rfl
          · rw [hitems (depth + 1) ds (by omega)]
      · split
        · split
          · rfl
          · cases ds with
            | nil => rfl
            | cons c' rest =>
              simp only
              rw [hmembers (depth + 1) (c' :: rest) (by omega)]
        · rfl

include hvalue hitems in
theorem parseItems_enough (depth : ℕ) (cs : List Char) (hfuel : 2 * cs.length + 1 < fuel + 1) :
    parseItemsWithin h L (fuel + 2) depth cs = parseItemsWithin h L (fuel + 1) depth cs := by
  rw [parseItemsWithin, parseItemsWithin, hvalue depth cs (by omega)]
  refine bind_congr_of_ok fun item hitem => ?_
  obtain ⟨x, rest⟩ := item
  have hrest := parseValue_length h L fuel depth cs rest x hitem
  have hskip := skipWhitespace_length rest
  simp only
  generalize skipWhitespace rest = ds at hskip
  split
  · next more =>
    have hmore := skipWhitespace_length more
    rw [List.length_cons] at hskip
    rw [hitems depth (skipWhitespace more) (by omega)]
  · rfl
  · rfl

include hvalue hmembers in
theorem parseMembers_enough (depth : ℕ) (cs : List Char) (hfuel : 2 * cs.length + 1 < fuel + 1) :
    parseMembersWithin h L (fuel + 2) depth cs = parseMembersWithin h L (fuel + 1) depth cs := by
  cases cs with
  | nil => rfl
  | cons q cs =>
    rw [List.length_cons] at hfuel
    rw [parseMembersWithin, parseMembersWithin]
    split
    · refine bind_congr_of_ok fun member hmember => ?_
      obtain ⟨key, rest⟩ := member
      have hkey : parseString h cs = some (key, rest) := (follows_decoded (L := .off) _).read hmember
      have hrest := (parseString_consumes h cs rest key hkey).length_le
      have hskip := skipWhitespace_length rest
      simp only
      generalize skipWhitespace rest = ds at hskip
      split
      · next colon =>
        have hcolon := skipWhitespace_length colon
        rw [List.length_cons] at hskip hrest
        rw [hvalue depth (skipWhitespace colon) (by omega)]
        refine bind_congr_of_ok fun value hv => ?_
        obtain ⟨v, rest'⟩ := value
        have hrest' := parseValue_length h L fuel depth _ rest' v hv
        have hskip' := skipWhitespace_length rest'
        simp only
        generalize skipWhitespace rest' = ds' at hskip'
        split
        · next more =>
          have hmore := skipWhitespace_length more
          rw [List.length_cons] at hskip'
          rw [hmembers depth (skipWhitespace more) (by omega)]
        · rfl
        · rfl
      · rfl
    · rfl

end Enough

theorem parse_enough (h : Host) (L : Limits) (fuel : ℕ) :
    (∀ depth cs, 2 * cs.length < fuel →
      parseValueWithin h L (fuel + 1) depth cs = parseValueWithin h L fuel depth cs) ∧
    (∀ depth cs, 2 * cs.length + 1 < fuel →
      parseItemsWithin h L (fuel + 1) depth cs = parseItemsWithin h L fuel depth cs) ∧
    ∀ depth cs, 2 * cs.length + 1 < fuel →
      parseMembersWithin h L (fuel + 1) depth cs = parseMembersWithin h L fuel depth cs := by
  induction fuel with
  | zero => exact ⟨fun _ _ hn => by omega, fun _ _ hn => by omega, fun _ _ hn => by omega⟩
  | succ fuel ih =>
    obtain ⟨hvalue, hitems, hmembers⟩ := ih
    exact ⟨parseValue_enough h L fuel hitems hmembers, parseItems_enough h L fuel hvalue hitems,
      parseMembers_enough h L fuel hvalue hmembers⟩

/-- **A larger bound reads nothing else.** -/
theorem loads_enough (h : Host) (L : Limits) (s : String) (fuel : ℕ)
    (hfuel : 2 * s.length + 1 ≤ fuel) :
    parseValueWithin h L fuel 0 (skipWhitespace s.toList) =
      parseValueWithin h L (2 * s.length + 1) 0 (skipWhitespace s.toList) := by
  have hlength : (skipWhitespace s.toList).length ≤ s.length := by
    rw [← String.length_toList]
    exact skipWhitespace_length s.toList
  induction fuel, hfuel using Nat.le_induction with
  | base => rfl
  | succ fuel hle ih => rw [(parse_enough h L fuel).1 0 _ (by omega), ih]

end Sigil.Json
