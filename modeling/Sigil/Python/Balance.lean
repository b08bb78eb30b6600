import Sigil.Python.RoundTrip

/-! # Brackets and quotes

A scan that follows the brackets and quotes of a text. What the parser consumes leaves the scan
where it was, and a value that is met inside a string never leads out of it. So an object that was
begun and not finished takes with it any object written behind it.
-/
set_option autoImplicit false

namespace Sigil.Json

open PyVal (dumps dumpsEntries)

/-! ## The scan -/

/-- Where a scan is that has read the opening brace of an object. -/
inductive Scan where
  /-- between tokens, inside so many more brackets -/
  | outside (depth : ℕ)
  | inString (depth : ℕ)
  /-- behind a backslash -/
  | escaped (depth : ℕ)
  /-- behind the closing brace of the object -/
  | closed
  | broken

def isOpening (c : Char) : Bool := c = '[' || c = Char.ofNat 0x7b

def isClosing (c : Char) : Bool := c = ']' || c = Char.ofNat 0x7d

namespace Scan

def close : ℕ → Scan
  | 0 => closed
  | depth + 1 => outside depth

def step : Scan → Char → Scan
  | outside depth, c =>
    if c = quoteChar then inString depth
    else if c = backslash then broken
    else if isOpening c then outside (depth + 1)
    else if isClosing c then close depth
    else outside depth
  | inString depth, c =>
    if c = quoteChar then outside depth else if c = backslash then escaped depth
    else inString depth
  | escaped depth, _ => inString depth
  | closed, _ => broken
  | broken, _ => broken

def scan (s : Scan) (cs : List Char) : Scan := cs.foldl step s

theorem scan_append (s : Scan) (cs ds : List Char) : s.scan (cs ++ ds) = (s.scan cs).scan ds :=
  List.foldl_append

theorem scan_cons (s : Scan) (c : Char) (cs : List Char) : s.scan (c :: cs) = (s.step c).scan cs := rfl

theorem scan_broken (cs : List Char) : broken.scan cs = broken := by
  induction cs with
  | nil => rfl
  | cons c cs ih => exact ih

/-- In a string, for as long as the text can still be JSON. -/
def Captive (s : Scan) : Prop := s = broken ∨ ∃ depth, s = inString depth

/-- Not in a string, for as long as the text can still be JSON. -/
def Free (s : Scan) : Prop := s = broken ∨ s = closed ∨ ∃ depth, s = outside depth

theorem close_free (depth : ℕ) : (close depth).Free := by
  cases depth with
  | zero => exact Or.inr (Or.inl rfl)
  | succ depth => exact Or.inr (Or.inr ⟨depth, rfl⟩)

theorem Captive.scan {s : Scan} (hs : s.Captive) (cs : List Char)
    (hcs : ∀ depth, ((inString depth).scan cs).Captive) : (s.scan cs).Captive := by
  rcases hs with rfl | ⟨depth, rfl⟩
  · exact Or.inl (scan_broken cs)
  · exact hcs depth

/-- A character that ends no string and escapes nothing. -/
theorem step_inString (depth : ℕ) (c : Char) (hquote : c ≠ quoteChar) (hback : c ≠ backslash) :
    (inString depth).step c = inString depth := by
  rw [step, if_neg hquote, if_neg hback]

theorem step_free {s : Scan} (hs : s.Free) (c : Char) (hquote : c ≠ quoteChar) : (s.step c).Free := by
  rcases hs with rfl | rfl | ⟨depth, rfl⟩
  · exact Or.inl rfl
  · exact Or.inl rfl
  · rw [step, if_neg hquote]
    split_ifs
    · exact Or.inl rfl
    · exact Or.inr (Or.inr ⟨depth + 1, rfl⟩)
    · exact close_free depth
    · exact Or.inr (Or.inr ⟨depth, rfl⟩)

end Scan

open Scan

/-! ## Texts by what they do to a scan -/

/-- A text that takes a scan between tokens to `f`, and one in a string nowhere. -/
structure Takes (f : ℕ → Scan) (cs : List Char) : Prop where
  outside : ∀ depth, (outside depth).scan cs = f depth
  inString : ∀ depth, ((inString depth).scan cs).Captive

/-- A text whose brackets and quotes match. -/
abbrev Balanced : List Char → Prop := Takes Scan.outside

/-- A text that closes one more bracket than it opens. -/
abbrev Closing : List Char → Prop := Takes close

/-- The text of a string, from behind its opening quote to its closing one. -/
structure StringBody (cs : List Char) : Prop where
  inString : ∀ depth, (inString depth).scan cs = outside depth
  free : ∀ s : Scan, s.Free → (s.scan cs).Captive

theorem balanced_nil : Balanced [] := ⟨fun _ => rfl, fun depth => Or.inr ⟨depth, rfl⟩⟩

theorem Takes.append {f : ℕ → Scan} {cs ds : List Char} (hc : Balanced cs) (hd : Takes f ds) :
    Takes f (cs ++ ds) where
  outside := fun depth => by rw [scan_append, hc.outside, hd.outside]
  inString := fun depth => by
    rw [scan_append]
    exact (hc.inString depth).scan ds hd.inString

/-- Neither a quote, a backslash nor a bracket. -/
def Plain (c : Char) : Prop :=
  c ≠ quoteChar ∧ c ≠ backslash ∧ isOpening c = false ∧ isClosing c = false

theorem balanced_plain (cs : List Char) (hcs : ∀ c ∈ cs, Plain c) : Balanced cs := by
  induction cs with
  | nil => exact balanced_nil
  | cons c cs ih =>
    obtain ⟨hquote, hback, hopening, hclosing⟩ := hcs c List.mem_cons_self
    have hrest := ih fun d hd => hcs d (List.mem_cons_of_mem c hd)
    refine ⟨fun depth => ?_, fun depth => ?_⟩
    · rw [scan_cons, step, if_neg hquote, if_neg hback, hopening, hclosing]
      exact hrest.outside depth
    · rw [scan_cons, step_inString depth c hquote hback]
      exact hrest.inString depth

theorem opening_ne (c : Char) (hc : isOpening c = true) : c ≠ quoteChar ∧ c ≠ backslash := by
  simp only [isOpening, Bool.or_eq_true, decide_eq_true_eq] at hc
  rcases hc with rfl | rfl <;> decide

theorem closing_ne (c : Char) (hc : isClosing c = true) :
    c ≠ quoteChar ∧ c ≠ backslash ∧ isOpening c = false := by
  simp only [isClosing, Bool.or_eq_true, decide_eq_true_eq] at hc
  rcases hc with rfl | rfl <;> decide

theorem closing_bracket (c : Char) (hc : isClosing c = true) : Closing [c] := by
  obtain ⟨hquote, hback, hopening⟩ := closing_ne c hc
  refine ⟨fun depth => ?_, fun depth => Or.inr ⟨depth, step_inString depth c hquote hback⟩⟩
  show (Scan.outside depth).step c = close depth
  rw [step, if_neg hquote, if_neg hback, hopening, hc]
  rfl

/-- A bracket and what closes it. -/
theorem balanced_bracket (c : Char) (hc : isOpening c = true) (cs : List Char) (hcs : Closing cs) :
    Balanced (c :: cs) := by
  obtain ⟨hquote, hback⟩ := opening_ne c hc
  refine ⟨fun depth => ?_, fun depth => ?_⟩
  · rw [scan_cons, step, if_neg hquote, if_neg hback, if_pos hc]
    exact hcs.outside (depth + 1)
  · rw [scan_cons, step_inString depth c hquote hback]
    exact hcs.inString depth

theorem balanced_string (cs : List Char) (hcs : StringBody cs) : Balanced (quoteChar :: cs) := by
  refine ⟨fun depth => ?_, fun depth => ?_⟩
  · rw [scan_cons, step, if_pos rfl]
    exact hcs.inString depth
  · rw [scan_cons, step, if_pos rfl]
    exact hcs.free _ (Or.inr (Or.inr ⟨depth, rfl⟩))

/-! ## What the parser consumes -/

/-- What was read of the text before `rest`. -/
def Consumes (P : List Char → Prop) (cs rest : List Char) : Prop := ∃ pre, cs = pre ++ rest ∧ P pre

theorem Consumes.append {f : ℕ → Scan} {cs mid rest : List Char} (hc : Consumes Balanced cs mid)
    (hm : Consumes (Takes f) mid rest) : Consumes (Takes f) cs rest := by
  obtain ⟨pre, rfl, hpre⟩ := hc
  obtain ⟨pre', rfl, hpre'⟩ := hm
  exact ⟨pre ++ pre', (List.append_assoc _ _ _).symm, hpre.append hpre'⟩

/-- The rest of a string, or of an escape sequence in one. -/
def Within (cs : List Char) : Prop := ∀ depth, (inString depth).scan cs = inString depth

theorem hexValue_ne (c : Char) (n : ℕ) (h : hexValue c = some n) : c ≠ quoteChar ∧ c ≠ backslash := by
  refine ⟨?_, ?_⟩ <;>
    rintro rfl <;>
    revert h <;>
    simp [hexValue, quoteChar, backslash]

theorem within_plain (cs : List Char) (hcs : ∀ c ∈ cs, c ≠ quoteChar ∧ c ≠ backslash) :
    Within cs := by
  intro depth
  induction cs with
  | nil => rfl
  | cons c cs ih =>
    obtain ⟨hquote, hback⟩ := hcs c List.mem_cons_self
    rw [scan_cons, step_inString depth c hquote hback]
    exact ih fun d hd => hcs d (List.mem_cons_of_mem c hd)

theorem hex4_consumes (cs rest : List Char) (n : ℕ) (h : hex4 cs = some (n, rest)) :
    Consumes Within cs rest := by
  unfold hex4 at h
  split at h
  · next a b c d rest' =>
    simp only [Option.bind_eq_bind, Option.bind_eq_some_iff, Option.some.injEq, Prod.mk.injEq] at h
    obtain ⟨w, ha, x, hb, y, hc, z, hd, -, rfl⟩ := h
    refine ⟨[a, b, c, d], rfl, within_plain _ fun e he => ?_⟩
    simp only [List.mem_cons, List.not_mem_nil, or_false] at he
    rcases he with rfl | rfl | rfl | rfl
    · exact hexValue_ne _ w ha
    · exact hexValue_ne _ x hb
    · exact hexValue_ne _ y hc
    · exact hexValue_ne _ z hd
  · cases h

theorem lowSurrogate_consumes (cs rest : List Char) (n : ℕ) (h : lowSurrogate cs = some (n, rest)) :
    Consumes Within cs rest := by
  unfold lowSurrogate at h
  split at h
  · next a b rest' =>
    split at h
    · next hab =>
      obtain ⟨rfl, rfl⟩ := hab
      simp only [Option.bind_eq_bind, Option.bind_eq_some_iff] at h
      obtain ⟨⟨low, rest''⟩, hhex, h⟩ := h
      split at h
      · simp only [Option.some.injEq, Prod.mk.injEq] at h
        obtain ⟨-, rfl⟩ := h
        obtain ⟨pre, rfl, hpre⟩ := hex4_consumes _ _ _ hhex
        exact ⟨backslash :: 'u' :: pre, rfl, hpre⟩
      · cases h
    · cases h
  · cases h

theorem Consumes.within {cs mid rest : List Char} (hc : Consumes Within cs mid)
    (hm : Consumes Within mid rest) : Consumes Within cs rest := by
  obtain ⟨pre, rfl, hpre⟩ := hc
  obtain ⟨pre', rfl, hpre'⟩ := hm
  exact ⟨pre ++ pre', (List.append_assoc _ _ _).symm, fun depth => by
    rw [scan_append, hpre, hpre']⟩

/-- Behind a backslash, an escape sequence leads back into the string. -/
theorem scanEscape_consumes (h : Host) (cs rest : List Char) (e : Char)
    (hs : scanEscape h cs = some (e, rest)) :
    ∃ c pre, cs = c :: (pre ++ rest) ∧ Within pre := by
  cases cs with
  | nil => cases hs
  | cons c cs =>
    rw [scanEscape] at hs
    split at hs
    · simp only [Option.bind_eq_bind, Option.bind_eq_some_iff] at hs
      obtain ⟨⟨n, mid⟩, hhex, hs⟩ := hs
      have hfirst := hex4_consumes _ _ _ hhex
      have hall : Consumes Within cs rest := by
        split at hs
        · split at hs
          · next low rest' hlow =>
            rw [← (Prod.mk.inj (Option.some.inj hs)).2]
            exact hfirst.within (lowSurrogate_consumes _ _ _ hlow)
          · -- a lone surrogate is one escape sequence
            cases hs
            exact hfirst
        · split at hs
          · cases hs
            exact hfirst
          · cases hs
            exact hfirst
      obtain ⟨pre, rfl, hpre⟩ := hall
      exact ⟨c, pre, rfl, hpre⟩
    · obtain ⟨e', -, heq⟩ := Option.map_eq_some_iff.mp hs
      cases heq
      exact ⟨c, [], rfl, fun _ => rfl⟩

theorem scanString_consumes (h : Host) (fuel : ℕ) (cs body rest : List Char)
    (hs : scanString h fuel cs = some (body, rest)) : Consumes StringBody cs rest := by
  induction fuel generalizing cs body with
  | zero => cases hs
  | succ fuel ih =>
    cases cs with
    | nil => cases hs
    | cons c cs =>
      rw [scanString] at hs
      split at hs
      · next hquote =>
        cases hs
        refine ⟨[c], rfl, fun depth => ?_, fun u hu => ?_⟩
        · rw [scan_cons, step, if_pos hquote]
          rfl
        · rcases hu with rfl | rfl | ⟨depth, rfl⟩
          · exact Or.inl rfl
          · exact Or.inl rfl
          · exact Or.inr ⟨depth, by rw [scan_cons, step, if_pos hquote]; rfl⟩
      · next hquote =>
        split at hs
        · next hback =>
          simp only [Option.bind_eq_bind, Option.bind_eq_some_iff] at hs
          obtain ⟨⟨e, mid⟩, hescape, ⟨body', rest'⟩, hbody, heq⟩ := hs
          cases heq
          obtain ⟨d, pre, rfl, hpre⟩ := scanEscape_consumes h _ _ _ hescape
          obtain ⟨pre', rfl, hpre'⟩ := ih _ _ hbody
          refine ⟨c :: d :: (pre ++ pre'), by simp, fun depth => ?_, fun u hu => ?_⟩
          · rw [scan_cons, step, if_neg hquote, if_pos hback, scan_cons, step, scan_append, hpre,
              hpre'.inString]
          · -- outside a string a backslash is not JSON
            have hbroken : u.step c = broken := by
              rcases hu with rfl | rfl | ⟨depth, rfl⟩
              · rfl
              · rfl
              · rw [step, if_neg hquote, if_pos hback]
            rw [scan_cons, hbroken]
            exact Or.inl (scan_broken _)
        · next hback =>
          split at hs
          · cases hs
          · simp only [Option.bind_eq_bind, Option.bind_eq_some_iff] at hs
            obtain ⟨⟨body', rest'⟩, hbody, heq⟩ := hs
            cases heq
            obtain ⟨pre, rfl, hpre⟩ := ih _ _ hbody
            refine ⟨c :: pre, rfl, fun depth => ?_, fun u hu => ?_⟩
            · rw [scan_cons, step_inString depth c hquote hback, hpre.inString]
            · exact hpre.free _ (step_free hu c hquote)

theorem parseString_consumes (h : Host) (cs rest : List Char) (s : String)
    (hs : parseString h cs = some (s, rest)) : Consumes Balanced (quoteChar :: cs) rest := by
  obtain ⟨⟨body, rest'⟩, hscan, heq⟩ := Option.map_eq_some_iff.mp hs
  cases heq
  obtain ⟨pre, rfl, hpre⟩ := scanString_consumes h _ _ _ _ hscan
  exact ⟨quoteChar :: pre, rfl, balanced_string pre hpre⟩

/-! ## Numbers and constants -/

theorem consumes_plain (cs pre rest : List Char) (heq : cs = pre ++ rest) (hpre : ∀ c ∈ pre, Plain c) :
    Consumes Balanced cs rest := ⟨pre, heq, balanced_plain pre hpre⟩

theorem skipWhitespace_consumes (cs : List Char) : Consumes Balanced cs (skipWhitespace cs) := by
  refine consumes_plain cs (cs.takeWhile isWhitespace) _ List.takeWhile_append_dropWhile.symm ?_
  intro c hc
  have hspace := List.mem_takeWhile_imp hc
  simp only [isWhitespace, Bool.or_eq_true, decide_eq_true_eq] at hspace
  rcases hspace with ((rfl | rfl) | rfl) | rfl <;> simp [Plain, isOpening, isClosing, quoteChar, backslash]

theorem digit_plain (c : Char) (hc : c.isDigit = true) : Plain c := by
  have hne : ∀ d : Char, d.isDigit = false → c ≠ d := by
    rintro d hd rfl
    rw [hc] at hd
    cases hd
  simp only [Plain, isOpening, isClosing, Bool.or_eq_false_iff, decide_eq_false_iff_not]
  exact ⟨hne _ (by decide), hne _ (by decide), ⟨hne _ (by decide), hne _ (by decide)⟩,
    hne _ (by decide), hne _ (by decide)⟩

theorem span_digits_consumes (cs ds rest : List Char) (h : cs.span Char.isDigit = (ds, rest)) :
    cs = ds ++ rest ∧ ∀ c ∈ ds, Plain c := by
  rw [List.span_eq_takeWhile_dropWhile, Prod.mk.injEq] at h
  obtain ⟨rfl, rfl⟩ := h
  exact ⟨List.takeWhile_append_dropWhile.symm, fun c hc => digit_plain c (List.mem_takeWhile_imp hc)⟩

theorem signPart_consumes (cs : List Char) :
    cs = (signPart cs).1 ++ (signPart cs).2 ∧ ∀ c ∈ (signPart cs).1, Plain c := by
  unfold signPart
  split
  · refine ⟨rfl, fun c hc => ?_⟩
    rw [List.mem_singleton.mp hc]
    simp [Plain, isOpening, isClosing, quoteChar, backslash]
  · exact ⟨rfl, fun c hc => absurd hc List.not_mem_nil⟩

theorem intPart_consumes (cs int rest : List Char) (h : intPart cs = some (int, rest)) :
    cs = int ++ rest ∧ ∀ c ∈ int, Plain c := by
  unfold intPart at h
  split at h
  · cases h
  · next d ds rest' hspan =>
    obtain ⟨rfl, hplain⟩ := span_digits_consumes _ _ _ hspan
    split at h
    · next hzero =>
      cases h
      refine ⟨by rw [hzero]; rfl, fun c hc => ?_⟩
      rw [List.mem_singleton.mp hc, ← hzero]
      exact hplain d List.mem_cons_self
    · cases h
      exact ⟨rfl, hplain⟩

theorem fracPart_consumes (cs : List Char) :
    cs = (fracPart cs).1 ++ (fracPart cs).2 ∧ ∀ c ∈ (fracPart cs).1, Plain c := by
  have hnone : cs = [] ++ cs ∧ ∀ c ∈ ([] : List Char), Plain c :=
    ⟨rfl, fun c hc => absurd hc List.not_mem_nil⟩
  unfold fracPart
  split
  · split
    · exact hnone
    · next hspan =>
      obtain ⟨heq, hplain⟩ := span_digits_consumes _ _ _ hspan
      refine ⟨congrArg ('.' :: ·) heq, fun c hc => ?_⟩
      rcases List.mem_cons.mp hc with rfl | hc
      · simp [Plain, isOpening, isClosing, quoteChar, backslash]
      · exact hplain c hc
  · exact hnone

theorem expPart_consumes (cs : List Char) :
    cs = (expPart cs).1 ++ (expPart cs).2 ∧ ∀ c ∈ (expPart cs).1, Plain c := by
  have hnone : cs = [] ++ cs ∧ ∀ c ∈ ([] : List Char), Plain c :=
    ⟨rfl, fun c hc => absurd hc List.not_mem_nil⟩
  have hmark : ∀ c, c = 'e' ∨ c = 'E' ∨ c = '+' ∨ c = '-' → Plain c := by
    rintro c (rfl | rfl | rfl | rfl) <;> simp [Plain, isOpening, isClosing, quoteChar, backslash]
  unfold expPart
  split
  · next e rest =>
    split
    · next he =>
      have hexp : Plain e := hmark e (he.imp_right Or.inl)
      split
      next sign rest' hsign =>
      have hrest : rest = sign ++ rest' ∧ ∀ c ∈ sign, Plain c := by
        split at hsign
        · split at hsign
          · next d ds hd =>
            cases hsign
            refine ⟨rfl, fun c hc => ?_⟩
            rw [List.mem_singleton.mp hc]
            exact hmark d (Or.inr (Or.inr hd))
          · cases hsign
            exact ⟨rfl, fun c hc => absurd hc List.not_mem_nil⟩
        · cases hsign
          exact ⟨rfl, fun c hc => absurd hc List.not_mem_nil⟩
      split
      · exact hnone
      · next hspan =>
        obtain ⟨heq, hplain⟩ := span_digits_consumes _ _ _ hspan
        refine ⟨?_, fun c hc => ?_⟩
        · rw [hrest.1, heq]
          simp
        · rcases List.mem_append.mp hc with hc | hc
          · rcases List.mem_cons.mp hc with rfl | hc
            · exact hexp
            · exact hrest.2 c hc
          · exact hplain c hc
    · exact hnone
  · exact hnone

theorem parseNumber_consumes (h : Host) (cs rest : List Char) (v : PyVal)
    (hp : parseNumber h cs = some (v, rest)) : Consumes Balanced cs rest := by
  obtain ⟨hsign, hsignPlain⟩ := signPart_consumes cs
  unfold parseNumber at hp
  simp only [Option.bind_eq_bind, Option.bind_eq_some_iff] at hp
  obtain ⟨⟨int, mid⟩, hint, hp⟩ := hp
  obtain ⟨heq, hintPlain⟩ := intPart_consumes _ _ _ hint
  obtain ⟨hfrac, hfracPlain⟩ := fracPart_consumes mid
  obtain ⟨hexp, hexpPlain⟩ := expPart_consumes (fracPart mid).2
  have hrest : rest = (expPart (fracPart mid).2).2 := by
    split at hp <;> exact ((Prod.mk.inj (Option.some.inj hp)).2).symm
  refine consumes_plain cs ((signPart cs).1 ++ (int ++ ((fracPart mid).1 ++
    (expPart (fracPart mid).2).1))) rest ?_ fun c hc => ?_
  · rw [hrest]
    simp only [List.append_assoc]
    rw [← hexp, ← hfrac, ← heq]
    exact hsign
  · simp only [List.mem_append] at hc
    rcases hc with hc | hc | hc | hc
    · exact hsignPlain c hc
    · exact hintPlain c hc
    · exact hfracPlain c hc
    · exact hexpPlain c hc

theorem token_consumes (token : String) (htoken : ∀ c ∈ token.toList, Plain c) (cs rest : List Char)
    (h : token? token cs = some rest) : Consumes Balanced cs rest := by
  unfold token? at h
  split at h
  · next hprefix =>
    obtain ⟨tail, rfl⟩ := List.isPrefixOf_iff_prefix.mp hprefix
    cases h
    exact consumes_plain _ token.toList _ (by rw [List.drop_left]) htoken
  · cases h

theorem parseConstant_consumes (h : Host) (cs rest : List Char) (v : PyVal)
    (hp : parseConstant h cs = some (v, rest)) : Consumes Balanced cs rest := by
  have htoken : ∀ token ∈ ["null", "true", "false", "NaN", "Infinity", "-Infinity"],
      ∀ c ∈ token.toList, Plain c := by
    simp [Plain, isOpening, isClosing, quoteChar, backslash]
  unfold parseConstant at hp
  split at hp
  · cases hp
    exact token_consumes "null" (htoken _ (by simp)) cs _ ‹_›
  · cases hp
    exact token_consumes "true" (htoken _ (by simp)) cs _ ‹_›
  · cases hp
    exact token_consumes "false" (htoken _ (by simp)) cs _ ‹_›
  · split at hp
    · rw [← (Prod.mk.inj (Option.some.inj hp)).2]
      exact token_consumes "NaN" (htoken _ (by simp)) cs _ ‹_›
    · rw [← (Prod.mk.inj (Option.some.inj hp)).2]
      exact token_consumes "Infinity" (htoken _ (by simp)) cs _ ‹_›
    · rw [← (Prod.mk.inj (Option.some.inj hp)).2]
      exact token_consumes "-Infinity" (htoken _ (by simp)) cs _ ‹_›
    · exact parseNumber_consumes h cs rest v hp

/-! ## Values -/

theorem consumes_closing (c : Char) (hc : isClosing c = true) (rest : List Char) :
    Consumes Closing (c :: rest) rest := ⟨[c], rfl, closing_bracket c hc⟩

theorem consumes_separator (c : Char) (hc : c = ',' ∨ c = ':') (rest : List Char) :
    Consumes Balanced (c :: rest) rest := by
  refine consumes_plain (c :: rest) [c] rest rfl fun d hd => ?_
  rw [List.mem_singleton.mp hd]
  rcases hc with rfl | rfl <;> simp [Plain, isOpening, isClosing, quoteChar, backslash]

theorem consumes_bracket (c : Char) (hc : isOpening c = true) (cs rest : List Char)
    (hcs : Consumes Closing cs rest) : Consumes Balanced (c :: cs) rest := by
  obtain ⟨pre, rfl, hpre⟩ := hcs
  exact ⟨c :: pre, rfl, balanced_bracket c hc pre hpre⟩

section Step

variable (h : Host) (fuel : ℕ)
  (hvalue : ∀ cs v rest, parseValue h fuel cs = some (v, rest) → Consumes Balanced cs rest)
  (hitems : ∀ cs xs rest, parseItems h fuel cs = some (xs, rest) → Consumes Closing cs rest)
  (hmembers : ∀ cs kvs rest, parseMembers h fuel cs = some (kvs, rest) → Consumes Closing cs rest)

include hmembers in
/-- Behind its opening brace, an object closes it. -/
theorem parseValue_object (cs rest : List Char) (v : PyVal)
    (hp : parseValue h (fuel + 1) (Char.ofNat 0x7b :: cs) = some (v, rest)) :
    Consumes Closing cs rest := by
  have hquote : Char.ofNat 0x7b ≠ quoteChar := by decide
  have hbracket : Char.ofNat 0x7b ≠ '[' := by decide
  rw [parseValue, if_neg hquote, if_neg hbracket, if_pos rfl] at hp
  refine (skipWhitespace_consumes cs).append ?_
  split at hp
  · next c rest' hskip =>
    rw [hskip]
    split at hp
    · next hc =>
      cases hp
      exact consumes_closing c (by rw [hc]; rfl) _
    · obtain ⟨⟨kvs, rest''⟩, hkvs, heq⟩ := Option.map_eq_some_iff.mp hp
      cases heq
      exact hmembers _ _ _ hkvs
  · cases hp

include hitems hmembers in
theorem parseValue_consumes (cs rest : List Char) (v : PyVal)
    (hp : parseValue h (fuel + 1) cs = some (v, rest)) : Consumes Balanced cs rest := by
  cases cs with
  | nil => cases hp
  | cons c cs =>
    by_cases hbrace : c = Char.ofNat 0x7b
    · rw [hbrace] at hp ⊢
      exact consumes_bracket _ rfl _ _ (parseValue_object h fuel hmembers cs rest v hp)
    · rw [parseValue, if_neg hbrace] at hp
      split at hp
      · next hquote =>
        obtain ⟨⟨s, rest'⟩, hs, heq⟩ := Option.map_eq_some_iff.mp hp
        cases heq
        rw [hquote]
        exact parseString_consumes h cs rest s hs
      · split at hp
        · next hbracket =>
          refine consumes_bracket c (by rw [hbracket]; rfl) cs rest
            ((skipWhitespace_consumes cs).append ?_)
          split at hp
          · next rest' hskip =>
            cases hp
            rw [hskip]
            exact consumes_closing ']' rfl rest
          · obtain ⟨⟨xs, rest'⟩, hxs, heq⟩ := Option.map_eq_some_iff.mp hp
            cases heq
            exact hitems _ _ _ hxs
        · exact parseConstant_consumes h _ rest v hp

include hvalue hitems in
theorem parseItems_consumes (cs rest : List Char) (xs : List PyVal)
    (hp : parseItems h (fuel + 1) cs = some (xs, rest)) : Consumes Closing cs rest := by
  rw [parseItems] at hp
  simp only [Option.bind_eq_bind, Option.bind_eq_some_iff] at hp
  obtain ⟨⟨x, mid⟩, hx, hp⟩ := hp
  refine (hvalue _ _ _ hx).append ((skipWhitespace_consumes mid).append ?_)
  split at hp
  · next rest' hskip =>
    simp only [Option.bind_eq_some_iff] at hp
    obtain ⟨⟨ys, rest''⟩, hys, heq⟩ := hp
    cases heq
    rw [show skipWhitespace mid = ',' :: rest' from hskip]
    exact (consumes_separator ',' (Or.inl rfl) rest').append
      ((skipWhitespace_consumes rest').append (hitems _ _ _ hys))
  · next rest' hskip =>
    cases hp
    rw [show skipWhitespace mid = ']' :: rest from hskip]
    exact consumes_closing ']' rfl rest
  · cases hp

include hvalue hmembers in
theorem parseMembers_consumes (cs rest : List Char) (kvs : List (PyKey × PyVal))
    (hp : parseMembers h (fuel + 1) cs = some (kvs, rest)) : Consumes Closing cs rest := by
  cases cs with
  | nil => cases hp
  | cons q cs =>
    rw [parseMembers] at hp
    split at hp
    · next hquote =>
      simp only [Option.bind_eq_bind, Option.bind_eq_some_iff] at hp
      obtain ⟨⟨key, mid⟩, hkey, hp⟩ := hp
      rw [hquote]
      refine (parseString_consumes h cs mid key hkey).append
        ((skipWhitespace_consumes mid).append ?_)
      split at hp
      · next rest' hskip =>
        rw [show skipWhitespace mid = ':' :: rest' from hskip]
        refine (consumes_separator ':' (Or.inr rfl) rest').append
          ((skipWhitespace_consumes rest').append ?_)
        simp only [Option.bind_eq_some_iff] at hp
        obtain ⟨⟨v, mid'⟩, hv, hp⟩ := hp
        refine (hvalue _ _ _ hv).append ((skipWhitespace_consumes mid').append ?_)
        split at hp
        · next more hskip' =>
          simp only [Option.bind_eq_some_iff] at hp
          obtain ⟨⟨kvs', rest''⟩, hkvs, heq⟩ := hp
          cases heq
          rw [show skipWhitespace mid' = ',' :: more from hskip']
          exact (consumes_separator ',' (Or.inl rfl) more).append
            ((skipWhitespace_consumes more).append (hmembers _ _ _ hkvs))
        · next c more hne hskip' =>
          split at hp
          · next hc =>
            cases hp
            rw [show skipWhitespace mid' = c :: rest from hskip']
            exact consumes_closing c (by rw [hc]; rfl) rest
          · cases hp
        · cases hp
      · cases hp
    · cases hp

end Step

/-- **What the parser consumes is balanced.** -/
theorem parse_consumes (h : Host) (fuel : ℕ) :
    (∀ cs v rest, parseValue h fuel cs = some (v, rest) → Consumes Balanced cs rest) ∧
    (∀ cs xs rest, parseItems h fuel cs = some (xs, rest) → Consumes Closing cs rest) ∧
    ∀ cs kvs rest, parseMembers h fuel cs = some (kvs, rest) → Consumes Closing cs rest := by
  induction fuel with
  | zero =>
    refine ⟨fun cs v rest hp => ?_, fun cs xs rest hp => ?_, fun cs kvs rest hp => ?_⟩
    · cases hp
    · cases hp
    · cases hp
  | succ fuel ih =>
    obtain ⟨hvalue, hitems, hmembers⟩ := ih
    exact ⟨fun cs v rest => parseValue_consumes h fuel hitems hmembers cs rest v,
      fun cs xs rest => parseItems_consumes h fuel hvalue hitems cs rest xs,
      fun cs kvs rest => parseMembers_consumes h fuel hvalue hmembers cs rest kvs⟩

/-! ## Behind an unfinished object -/

/-- A scan that has come to the end of the object is at its first end. -/
theorem scan_balanced_ne_closed (s : Scan) (cs : List Char) (hcs : Balanced cs)
    (hescaped : ∀ depth, ((escaped depth).scan cs).Captive) (hne : cs ≠ []) :
    s.scan cs ≠ closed := by
  have hcaptive : ∀ s' : Scan, s'.Captive → s' ≠ closed := by
    rintro s' (rfl | ⟨depth, rfl⟩)
    · exact Scan.noConfusion
    · exact Scan.noConfusion
  cases s with
  | outside depth =>
    rw [hcs.outside]
    exact Scan.noConfusion
  | inString depth => exact hcaptive _ (hcs.inString depth)
  | escaped depth => exact hcaptive _ (hescaped depth)
  | closed =>
    obtain ⟨c, cs, rfl⟩ := List.exists_cons_of_ne_nil hne
    have hbroken : closed.scan (c :: cs) = broken := scan_broken cs
    rw [hbroken]
    exact Scan.noConfusion
  | broken =>
    rw [scan_broken]
    exact Scan.noConfusion

/-- A written object, from behind its opening brace. -/
theorem dumps_object (h : Host) (hf : FloatTexts h) (kvs : List (PyKey × PyVal)) :
    ∃ cs, (dumps h true (.dict kvs)).toList = Char.ofNat 0x7b :: (cs ++ [Char.ofNat 0x7d]) ∧
      Closing (cs ++ [Char.ofNat 0x7d]) := by
  have htext : (dumps h true (.dict kvs)).toList =
      Char.ofNat 0x7b :: ((dumpsEntries h true kvs).toList ++ [Char.ofNat 0x7d]) := by
    simp [dumps]
  refine ⟨_, htext, ?_⟩
  have hp := parseValue_dumps h hf true (.dict kvs) _ [] stops_nil (Nat.lt_succ_self _)
  rw [List.append_nil, htext] at hp
  obtain ⟨pre, heq, hpre⟩ :=
    parseValue_object h _ (parse_consumes h _).2.2 _ _ _ hp
  rw [List.append_nil] at heq
  rwa [heq]

/-- **An unfinished object takes the next one with it.** Whatever begins with an opening brace,
nothing is read of it with a whole object behind it on the line. -/
theorem loads_behind (h : Host) (hf : FloatTexts h) (front : List Char)
    (kvs : List (PyKey × PyVal)) :
    loads h (String.ofList (Char.ofNat 0x7b :: front ++ (dumps h true (.dict kvs)).toList)) = none := by
  obtain ⟨cs, htext, hclosing⟩ := dumps_object h hf kvs
  have hbalanced : Balanced (dumps h true (.dict kvs)).toList := by
    rw [htext]
    exact balanced_bracket _ rfl _ hclosing
  cases hloads : loads h (String.ofList (Char.ofNat 0x7b :: front ++
    (dumps h true (.dict kvs)).toList)) with
  | none => rfl
  | some v =>
    simp only [loads, Option.bind_eq_bind, Option.bind_eq_some_iff, String.toList_ofList] at hloads
    obtain ⟨⟨w, rest⟩, hp, hrest⟩ := hloads
    split at hrest
    · next hspace =>
      rw [List.cons_append, skipWhitespace_cons _ _ (by decide)] at hp
      obtain ⟨pre, heq, hpre⟩ := parseValue_object h _ (parse_consumes h _).2.2 _ _ _ hp
      -- the text ends with a brace, so nothing is left of it
      have hnil : rest = [] := by
        by_contra hne
        have hlast := congrArg List.getLast? heq
        rw [htext, List.getLast?_append_of_ne_nil _ hne, ← List.cons_append, ← List.append_assoc,
          List.getLast?_append_of_ne_nil _ (List.cons_ne_nil _ _)] at hlast
        have hmem : Char.ofNat 0x7d ∈ rest := List.mem_of_getLast? hlast.symm
        have hwhite := List.dropWhile_eq_nil_iff.mp hspace _ hmem
        revert hwhite
        decide
      rw [hnil, List.append_nil] at heq
      have hclosed : (outside 0).scan (front ++ (dumps h true (.dict kvs)).toList) = closed := by
        rw [heq]
        exact hpre.outside 0
      rw [scan_append] at hclosed
      refine absurd hclosed (scan_balanced_ne_closed _ _ hbalanced (fun depth => ?_) ?_)
      · rw [htext, scan_cons]
        exact hclosing.inString depth
      · rw [htext]
        exact List.cons_ne_nil _ _
    · cases hrest

end Sigil.Json
