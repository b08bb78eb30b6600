import Sigil.Python.Json
import Mathlib.Data.List.TakeDrop
import Mathlib.Data.List.TakeWhile

/-! # Strings and numbers read back

What `dumps` writes for a string is read back as that string, and a text with the syntax of a number
is read as one number up to the delimiter after it.
-/
set_option autoImplicit false

namespace Sigil.Json

open PyVal (dumpsStr jsonEscape)

/-! ## Strings -/

theorem hexValue_digitChar : ∀ d, d < 16 → hexValue (Nat.digitChar d) = some d := by decide

theorem hexValue_hexDigit (n : ℕ) : hexValue (hexDigit n) = some (n % 16) :=
  hexValue_digitChar (n % 16) (Nat.mod_lt n (by decide))

theorem hex4_hexPad (n : ℕ) (hn : n < 0x10000) (rest : List Char) :
    hex4 (hexPad 4 n ++ rest) = some (n, rest) := by
  have hdigits : hexPad 4 n = [hexDigit (n / 16 / 16 / 16), hexDigit (n / 16 / 16),
      hexDigit (n / 16), hexDigit n] := rfl
  simp only [hdigits, List.cons_append, List.nil_append, hex4, hexValue_hexDigit,
    Option.bind_eq_bind, Option.bind_some, Option.some.injEq, Prod.mk.injEq, and_true]
  omega

theorem ofNat_toNat_add (c : Char) (n : ℕ) (hn : n = c.toNat) : Char.ofNat n = c := by
  rw [hn, Char.ofNat_toNat]

theorem toNat_lt (c : Char) : c.toNat < 0x110000 := by
  have hvalid := c.valid
  simp only [UInt32.isValidChar, Nat.isValidChar] at hvalid
  have : c.toNat = c.val.toNat := rfl
  omega

theorem toNat_not_surrogate (c : Char) : ¬ (0xd800 ≤ c.toNat ∧ c.toNat ≤ 0xdfff) := by
  have hvalid := c.valid
  simp only [UInt32.isValidChar, Nat.isValidChar] at hvalid
  have : c.toNat = c.val.toNat := rfl
  omega

theorem scanEscape_simple (h : Host) (e c : Char) (hc : simpleEscape c = some e) (hu : c ≠ 'u')
    (rest : List Char) : scanEscape h (c :: rest) = some (e, rest) := by
  simp [scanEscape, hu, hc]

theorem scanEscape_unicode (h : Host) (c : Char) (hc : c.toNat < 0x10000) (rest : List Char) :
    scanEscape h ('u' :: hexPad 4 c.toNat ++ rest) = some (c, rest) := by
  have hsurrogate := toNat_not_surrogate c
  have hhigh : ¬ (0xd800 ≤ c.toNat ∧ c.toNat ≤ 0xdbff) := by omega
  have hlow : ¬ (0xdc00 ≤ c.toNat ∧ c.toNat ≤ 0xdfff) := by omega
  simp only [List.cons_append, scanEscape, if_true, hex4_hexPad c.toNat hc, Option.bind_eq_bind,
    Option.bind_some, if_neg hhigh, if_neg hlow, Char.ofNat_toNat]

theorem scanEscape_surrogates (h : Host) (n m : ℕ) (hn : 0xd800 ≤ n ∧ n ≤ 0xdbff)
    (hm : 0xdc00 ≤ m ∧ m ≤ 0xdfff) (rest : List Char) :
    scanEscape h ('u' :: (hexPad 4 n ++ backslash :: 'u' :: (hexPad 4 m ++ rest))) =
      some (Char.ofNat (0x10000 + (n - 0xd800) * 0x400 + (m - 0xdc00)), rest) := by
  have hhex := hex4_hexPad n (by omega)
  have hhex' := hex4_hexPad m (by omega)
  simp only [scanEscape, if_true, hhex, Option.bind_eq_bind, Option.bind_some, if_pos hn,
    lowSurrogate, and_self, hhex', if_pos hm]

theorem scanEscape_pair (h : Host) (c : Char) (hc : 0x10000 ≤ c.toNat) (rest : List Char) :
    scanEscape h ('u' :: (hexPad 4 (0xd800 + (c.toNat - 0x10000) / 0x400) ++
      backslash :: 'u' :: (hexPad 4 (0xdc00 + (c.toNat - 0x10000) % 0x400) ++ rest))) =
      some (c, rest) := by
  have hbound := toNat_lt c
  obtain ⟨hi, hhi⟩ : ∃ hi, hi = 0xd800 + (c.toNat - 0x10000) / 0x400 := ⟨_, rfl⟩
  obtain ⟨lo, hlo⟩ : ∃ lo, lo = 0xdc00 + (c.toNat - 0x10000) % 0x400 := ⟨_, rfl⟩
  have hchar : Char.ofNat (0x10000 + (hi - 0xd800) * 0x400 + (lo - 0xdc00)) = c :=
    ofNat_toNat_add c _ (by omega)
  rw [← hhi, ← hlo, scanEscape_surrogates h hi lo (by omega) (by omega) rest, hchar]

/-- One character of a string literal is read back, whichever way it was written. -/
theorem scanString_escape (h : Host) (a : Bool) (fuel : ℕ) (c : Char) (rest : List Char) :
    scanString h (fuel + 1) (jsonEscape a c ++ rest) =
      (scanString h fuel rest).map fun (body, r) => (c :: body, r) := by
  have hescaped : ∀ cs, scanEscape h cs = some (c, rest) →
      scanString h (fuel + 1) (backslash :: cs) =
        (scanString h fuel rest).map fun (body, r) => (c :: body, r) := by
    intro cs hcs
    have hne : backslash ≠ quoteChar := by decide
    simp only [scanString, if_neg hne, if_true, hcs, Option.bind_eq_bind, Option.bind_some,
      Option.map_eq_bind]
    rfl
  unfold jsonEscape
  split_ifs with h1 h2 h3 h4 h5 h6 h7 h8 h9
  · refine hescaped _ (scanEscape_simple h c c ?_ ?_ rest)
    · rcases h1 with rfl | rfl <;> decide
    · rcases h1 with rfl | rfl <;> decide
  · subst h2
    exact hescaped _ (scanEscape_simple h _ _ (by decide) (by decide) rest)
  · subst h3
    exact hescaped _ (scanEscape_simple h _ _ (by decide) (by decide) rest)
  · subst h4
    exact hescaped _ (scanEscape_simple h _ _ (by decide) (by decide) rest)
  · have hc : simpleEscape 'f' = some c := by
      rw [← ofNat_toNat_add c 0x0c h5.symm]
      decide
    exact hescaped _ (scanEscape_simple h _ _ hc (by decide) rest)
  · have hc : simpleEscape 'b' = some c := by
      rw [← ofNat_toNat_add c 0x08 h6.symm]
      decide
    exact hescaped _ (scanEscape_simple h _ _ hc (by decide) rest)
  · exact hescaped _ (scanEscape_unicode h c (by omega) rest)
  · exact hescaped _ (scanEscape_unicode h c h9 rest)
  · exact hescaped _ (by simpa using scanEscape_pair h c (by omega) rest)
  · rw [not_or] at h1
    simp only [List.singleton_append, scanString, if_neg h1.1, if_neg h1.2, if_neg h7,
      Option.bind_eq_bind, Option.map_eq_bind]
    rfl

theorem jsonEscape_length_pos (a : Bool) (c : Char) : 0 < (jsonEscape a c).length := by
  unfold jsonEscape
  split_ifs <;> simp

theorem scanString_escapes (h : Host) (a : Bool) (cs rest : List Char) (fuel : ℕ)
    (hfuel : (cs.flatMap (jsonEscape a)).length < fuel) :
    scanString h fuel (cs.flatMap (jsonEscape a) ++ quoteChar :: rest) = some (cs, rest) := by
  induction cs generalizing fuel with
  | nil =>
    obtain ⟨n, rfl⟩ := Nat.exists_eq_add_of_lt hfuel
    simp [scanString]
  | cons c cs ih =>
    have hpos := jsonEscape_length_pos a c
    rw [List.flatMap_cons, List.length_append] at hfuel
    obtain ⟨n, rfl⟩ : ∃ n, fuel = n + 1 := ⟨fuel - 1, by omega⟩
    rw [List.flatMap_cons, List.append_assoc, scanString_escape, ih n (by omega)]
    rfl

/-- A string literal, its opening quote read. -/
theorem parseString_escapes (h : Host) (a : Bool) (s : String) (rest : List Char) :
    parseString h (s.toList.flatMap (jsonEscape a) ++ quoteChar :: rest) = some (s, rest) := by
  have hbody := scanString_escapes h a s.toList rest
    ((s.toList.flatMap (jsonEscape a) ++ quoteChar :: rest).length + 1)
    (by rw [List.length_append]; omega)
  simp only [parseString, hbody, Option.map_some, String.ofList_toList]

theorem dumpsStr_toList (a : Bool) (s : String) :
    (dumpsStr a s).toList = quoteChar :: (s.toList.flatMap (jsonEscape a) ++ [quoteChar]) := by
  simp [dumpsStr]

/-! ## Numbers -/

/-- The text goes on with nothing that could belong to a number. -/
def Stops (rest : List Char) : Prop := ∀ c cs, rest = c :: cs → c ∈ [',', ']', Char.ofNat 0x7d]

theorem stops_nil : Stops [] := fun _ _ h => absurd h (by simp)

theorem stops_cons (c : Char) (hc : c ∈ [',', ']', Char.ofNat 0x7d]) (cs : List Char) :
    Stops (c :: cs) := by
  intro d ds h
  cases h
  exact hc

def NoDigit (rest : List Char) : Prop := ∀ c cs, rest = c :: cs → c.isDigit = false

def Digits (ds : List Char) : Prop := ds ≠ [] ∧ ∀ c ∈ ds, c.isDigit = true

theorem Stops.noDigit {rest : List Char} (h : Stops rest) : NoDigit rest := by
  intro c cs hcs
  have hc := h c cs hcs
  simp only [List.mem_cons, List.not_mem_nil, or_false] at hc
  rcases hc with rfl | rfl | rfl <;> decide

theorem noDigit_cons (c : Char) (hc : c.isDigit = false) (cs : List Char) : NoDigit (c :: cs) := by
  intro d ds h
  cases h
  exact hc

theorem span_digits (ds rest : List Char) (hds : ∀ c ∈ ds, c.isDigit = true)
    (hrest : NoDigit rest) : (ds ++ rest).span Char.isDigit = (ds, rest) := by
  rw [List.span_eq_takeWhile_dropWhile, List.takeWhile_append_of_pos hds,
    List.dropWhile_append_of_pos hds]
  cases rest with
  | nil => simp
  | cons c cs => simp [hrest c cs rfl]

/-- An integer part as Python writes it. -/
def IntText (int : List Char) : Prop := int = ['0'] ∨ Digits int ∧ int.head? ≠ some '0'

theorem IntText.digits {int : List Char} (h : IntText int) : Digits int := by
  rcases h with rfl | ⟨h, -⟩
  · exact ⟨by simp, by simp⟩
  · exact h

theorem intPart_text (int rest : List Char) (hint : IntText int) (hrest : NoDigit rest) :
    intPart (int ++ rest) = some (int, rest) := by
  have hdigits := hint.digits
  rw [intPart, span_digits int rest hdigits.2 hrest]
  cases int with
  | nil => exact absurd rfl hdigits.1
  | cons d ds =>
    rcases hint with h | ⟨-, h⟩
    · cases h
      simp
    · have hd : d ≠ '0' := by simpa using h
      simp [hd]

def FracText (frac : List Char) : Prop := frac = [] ∨ ∃ ds, frac = '.' :: ds ∧ Digits ds

def ExpText (exp : List Char) : Prop :=
  exp = [] ∨ ∃ sign ds, exp = 'e' :: sign :: ds ∧ (sign = '+' ∨ sign = '-') ∧ Digits ds

theorem fracPart_text (frac rest : List Char) (hfrac : FracText frac) (hrest : NoDigit rest)
    (hdot : ∀ cs, rest ≠ '.' :: cs) : fracPart (frac ++ rest) = (frac, rest) := by
  rcases hfrac with rfl | ⟨ds, rfl, hds⟩
  · cases rest with
    | nil => rfl
    | cons c cs =>
      rw [List.nil_append, fracPart]
      exact fun rest h => hdot rest h
  · simp only [List.cons_append, fracPart, span_digits ds rest hds.2 hrest]
    cases ds with
    | nil => exact absurd rfl hds.1
    | cons d ds => rfl

theorem expPart_text (exp rest : List Char) (hexp : ExpText exp) (hrest : Stops rest) :
    expPart (exp ++ rest) = (exp, rest) := by
  rcases hexp with rfl | ⟨sign, ds, rfl, hsign, hds⟩
  · cases rest with
    | nil => rfl
    | cons c cs =>
      have hc := hrest c cs rfl
      have hne : ¬ (c = 'e' ∨ c = 'E') := by
        simp only [List.mem_cons, List.not_mem_nil, or_false] at hc
        rcases hc with rfl | rfl | rfl <;> decide
      simp [expPart, hne]
  · simp only [List.cons_append, expPart, true_or, if_true, if_pos hsign,
      span_digits ds rest hds.2 hrest.noDigit]
    cases ds with
    | nil => exact absurd rfl hds.1
    | cons d ds => rfl

theorem expText_noDigit (exp rest : List Char) (hexp : ExpText exp) (hrest : Stops rest) :
    NoDigit (exp ++ rest) := by
  rcases hexp with rfl | ⟨sign, ds, rfl, -, -⟩
  · exact hrest.noDigit
  · exact noDigit_cons 'e' (by decide) _

theorem expText_noDot (exp rest cs : List Char) (hexp : ExpText exp) (hrest : Stops rest) :
    exp ++ rest ≠ '.' :: cs := by
  rcases hexp with rfl | ⟨sign, ds, rfl, -, -⟩
  · intro h
    have hc := hrest '.' cs (by simpa using h)
    revert hc
    decide
  · simp

theorem fracText_noDigit (frac rest : List Char) (hfrac : FracText frac) (hrest : NoDigit rest) :
    NoDigit (frac ++ rest) := by
  rcases hfrac with rfl | ⟨ds, rfl, -⟩
  · exact hrest
  · exact noDigit_cons '.' (by decide) _

/-- The text of a number and its parts. -/
structure NumberText (text sign int frac exp : List Char) : Prop where
  eq : text = sign ++ (int ++ (frac ++ exp))
  sign : sign = [] ∨ sign = ['-']
  int : IntText int
  frac : FracText frac
  exp : ExpText exp

theorem NumberText.head {text sign int frac exp : List Char}
    (h : NumberText text sign int frac exp) :
    ∃ c cs, text = c :: cs ∧ (c.isDigit = true ∨ c = '-' ∧ ∃ d ds, cs = d :: ds ∧ d.isDigit = true) := by
  obtain ⟨d, ds, hint⟩ := List.exists_cons_of_ne_nil h.int.digits.1
  have hd : d.isDigit = true := h.int.digits.2 d (by rw [hint]; exact List.mem_cons_self)
  rcases h.sign with hs | hs
  · exact ⟨d, ds ++ (frac ++ exp), by rw [h.eq, hs, hint]; rfl, Or.inl hd⟩
  · exact ⟨'-', d :: (ds ++ (frac ++ exp)), by rw [h.eq, hs, hint]; rfl,
      Or.inr ⟨rfl, d, _, rfl, hd⟩⟩

theorem signPart_text (text sign int frac exp rest : List Char)
    (ht : NumberText text sign int frac exp) :
    signPart (text ++ rest) = (sign, int ++ (frac ++ (exp ++ rest))) := by
  obtain ⟨d, ds, hd⟩ := List.exists_cons_of_ne_nil ht.int.digits.1
  have hminus : d ≠ '-' := by
    have hdigit := ht.int.digits.2 d (by rw [hd]; exact List.mem_cons_self)
    rintro rfl
    revert hdigit
    decide
  rcases ht.sign with hs | hs
  · rw [ht.eq, hs, hd]
    simp [signPart, hminus]
  · rw [ht.eq, hs]
    simp [signPart]

theorem parseNumber_text (h : Host) (text sign int frac exp rest : List Char)
    (ht : NumberText text sign int frac exp) (hrest : Stops rest) :
    parseNumber h (text ++ rest) =
      some (if frac = [] ∧ exp = [] then
          .int (if sign = [] then Nat.ofDigitChars 10 int 0 else -(Nat.ofDigitChars 10 int 0 : ℤ))
        else .float (h.floatBits (String.ofList text)), rest) := by
  have hexp := expPart_text exp rest ht.exp hrest
  have hnodigit := expText_noDigit exp rest ht.exp hrest
  have hfrac := fracPart_text frac (exp ++ rest) ht.frac hnodigit
    fun cs => expText_noDot exp rest cs ht.exp hrest
  have hint := intPart_text int (frac ++ (exp ++ rest)) ht.int
    (fracText_noDigit frac _ ht.frac hnodigit)
  unfold parseNumber
  rw [signPart_text text sign int frac exp rest ht]
  simp only [hint, Option.bind_eq_bind, Option.bind_some, hfrac, hexp, ht.eq, List.append_assoc]
  split <;> rfl

theorem toDigits_intText (n : ℕ) : IntText (Nat.toDigits 10 n) := by
  have hdigits : Digits (Nat.toDigits 10 n) :=
    ⟨Nat.toDigits_ne_nil, fun c hc => Nat.isDigit_of_mem_toDigits (by decide) (by decide) hc⟩
  cases n with
  | zero => exact Or.inl rfl
  | succ n =>
    refine Or.inr ⟨hdigits, ?_⟩
    have hhead : ∀ m, m ≠ 0 → (Nat.toDigits 10 m).head? ≠ some '0' := by
      intro m
      induction m using Nat.strong_induction_on with
      | _ m ih =>
        intro hm
        by_cases hlt : m < 10
        · have hchar : ∀ d, d < 10 → d ≠ 0 → Nat.digitChar d ≠ '0' := by decide
          simpa [Nat.toDigits_of_lt_base hlt] using hchar m hlt hm
        · obtain ⟨d, ds, hds⟩ := List.exists_cons_of_ne_nil
            (Nat.toDigits_ne_nil : Nat.toDigits 10 (m / 10) ≠ [])
          have hrec := ih (m / 10) (by omega) (by omega)
          rw [Nat.toDigits_of_base_le (by decide) (by omega), hds]
          simpa [hds] using hrec
    exact hhead (n + 1) (Nat.succ_ne_zero n)

/-- The decimal text of an integer, and that it says which. -/
theorem toString_numberText (i : ℤ) : ∃ sign int, NumberText (toString i).toList sign int [] [] ∧
    (if sign = [] then (Nat.ofDigitChars 10 int 0 : ℤ) else -(Nat.ofDigitChars 10 int 0 : ℤ)) = i := by
  cases i with
  | ofNat n =>
    refine ⟨[], Nat.toDigits 10 n, ⟨?_, Or.inl rfl, toDigits_intText n, Or.inl rfl, Or.inl rfl⟩, ?_⟩
    · have htext : toString (Int.ofNat n) = n.repr := rfl
      rw [htext, Nat.toList_repr]
      simp
    · simp [Nat.ofDigitChars_ten_toDigits]
  | negSucc n =>
    refine ⟨['-'], Nat.toDigits 10 (n + 1),
      ⟨?_, Or.inr rfl, toDigits_intText (n + 1), Or.inl rfl, Or.inl rfl⟩, ?_⟩
    · have htext : toString (Int.negSucc n) = "-" ++ (n + 1).repr := rfl
      rw [htext, String.toList_append, Nat.toList_repr]
      simp
    · simp only [List.cons_ne_nil, if_false, Nat.ofDigitChars_ten_toDigits]
      rfl

end Sigil.Json
