import Sigil.Library.Words
import Sigil.Redaction.Classifiers
import Mathlib.Data.Bool.AllAny
import Mathlib.Tactic.IntervalCases

/-! # What redaction leaves over

The eight classifiers fit their placeholders, so the text splits into runs that are kept and words
that are taken. What a pattern still matches in the redacted text is at a seam: it begins or ends
where the placeholder of a taken word stands. Only the patterns that test their surroundings can be
exposed that way.
-/
set_option autoImplicit false

namespace Sigil.Redaction

open Regex

/-! ## Characters -/

section Tables

variable (U : CharTables)

theorem isDecimal_of_digit (c : Char) (h : c.isDigit = true) : U.isDecimal c = true := by
  rw [U.isDecimal_ascii c, h]
  simp only [Char.isDigit, Bool.and_eq_true, decide_eq_true_eq] at h
  have h9 : c.toNat ≤ 57 := h.2
  omega

theorem not_isDecimal (c : Char) (hc : c.toNat < 0x80) (h : c.isDigit = false) :
    U.isDecimal c = false := by rw [U.isDecimal_ascii c hc, h]

end Tables

/-! ## Placeholders -/

def placeholders : Placeholders Label Char where
  opening := '<'
  closing := '>'
  body := fun l => (classifierLabels l).tail.dropLast

theorem placeholders_text (l : Label) : placeholders.text l = classifierLabels l := by
  cases l <;> rfl

/-- The characters between the brackets are neither digits nor any that a pattern calls for. -/
theorem body_plain (l : Label) : ∀ c ∈ placeholders.body l,
    c.toNat < 0x80 ∧ c.isDigit = false ∧ c ≠ '@' ∧ c ≠ '.' :=
  List.all_iff_forall_prop.mp (by cases l <;> decide)

theorem body_length (l : Label) : (placeholders.body l).length ≤ 14 := by
  cases l <;> decide

/-! ## The patterns fit -/

theorem not_occurs_of_minLength {r : Regex Char} (h : 14 < r.minLength) (l : Label)
    (b e : Option Char) : ¬ Run.Occurs r ⟨b, placeholders.body l, e⟩ := by
  rintro ⟨x, w, y, hword, hm⟩
  have hle := hm.minLength_le
  have hbody := body_length l
  rw [show placeholders.body l = x ++ (w ++ y) from hword] at hbody
  simp only [List.length_append] at hbody
  omega

theorem not_occurs_of_needs {r : Regex Char} {p : Char → Prop} (hr : Needs p r) (l : Label)
    (hp : ∀ c ∈ placeholders.body l, ¬ p c) (b e : Option Char) :
    ¬ Run.Occurs r ⟨b, placeholders.body l, e⟩ := by
  rintro ⟨x, w, y, hword, hm⟩
  obtain ⟨c, hc, hpc⟩ := hm.needs hr
  refine hp c ?_ hpc
  rw [show placeholders.body l = x ++ (w ++ y) from hword]
  exact List.mem_append_right x (List.mem_append_left y hc)

/-- Two colons in a row are in no placeholder. -/
theorem body_colons (l : Label) : ¬ [':', ':'] <:+: placeholders.body l := by
  cases l <;> decide

theorem colons_of_matches {w : List Char} {b a : Option Char} (h : Matches ipv6Compressed b w a) :
    [':', ':'] <:+: w := by
  obtain ⟨x, v, rfl, -, h⟩ := matches_seq.mp h
  obtain ⟨c, v, rfl, hc, h⟩ := matches_seq.mp h
  obtain ⟨d, y, rfl, hd, -⟩ := matches_seq.mp h
  rw [matches_lit.mp hc, matches_lit.mp hd]
  exact ⟨x, y, by simp⟩

theorem ipv6Compressed_not_occurs (l : Label) (b e : Option Char) :
    ¬ Run.Occurs ipv6Compressed ⟨b, placeholders.body l, e⟩ := by
  rintro ⟨x, w, y, hword, hm⟩
  refine body_colons l ((colons_of_matches hm).trans ?_)
  exact ⟨x, y, by rw [show placeholders.body l = x ++ (w ++ y) from hword, List.append_assoc]⟩

section Fits

variable (U : CharTables)

theorem isDecimal_opening : U.isDecimal '<' = false :=
  not_isDecimal U '<' (by decide) (by decide)

theorem isDecimal_closing : U.isDecimal '>' = false :=
  not_isDecimal U '>' (by decide) (by decide)

theorem body_not_decimal (l : Label) : ∀ c ∈ placeholders.body l, ¬ U.isDecimal c = true := by
  intro c hc
  obtain ⟨hascii, hdigit, -⟩ := body_plain l c hc
  rw [not_isDecimal U c hascii hdigit]
  exact Bool.false_ne_true

theorem ssnRe_fits : Fits placeholders (ssnRe U) where
  consumes := consumes_of_minLength
    (by simp [ssnRe, concat, times, minLength, lit, digit])
  opening := by
    simp [ssnRe, placeholders, concat, times, Avoids, lit, wordBoundary, digit, isDecimal_opening]
  closing := by
    simp [ssnRe, placeholders, concat, times, Avoids, lit, wordBoundary, digit, isDecimal_closing]
  bodies := fun l => by
    have hneeds : Needs (fun c => U.isDecimal c = true) (ssnRe U) := by
      simp [ssnRe, concat, times, Needs, digit]
    exact not_occurs_of_needs hneeds l (body_not_decimal U l) _ _

theorem emailRe_fits : Fits placeholders (emailRe U) where
  consumes := consumes_of_minLength
    (by simp [emailRe, concat, plus, atLeast, times, minLength, lit])
  opening := by
    simp [emailRe, placeholders, concat, plus, atLeast, times, Avoids, lit, wordBoundary, isLetter]
  closing := by
    simp [emailRe, placeholders, concat, plus, atLeast, times, Avoids, lit, wordBoundary, isLetter]
  bodies := fun l => by
    have hneeds : Needs (fun c => c = '@') (emailRe U) := by
      simp [emailRe, concat, plus, atLeast, times, Needs, lit]
    exact not_occurs_of_needs hneeds l (fun c hc => (body_plain l c hc).2.2.1) _ _

theorem phoneRe_fits : Fits placeholders (phoneRe U) where
  consumes := consumes_of_minLength
    (by simp [phoneRe, concat, times, minLength, lit, digit])
  opening := by
    simp [phoneRe, placeholders, concat, times, opt, Avoids, lit, phoneSeparator, isSpace,
      notAfterDigit, notBeforeDigit, digit, isDecimal_opening]
  closing := by
    simp [phoneRe, placeholders, concat, times, opt, Avoids, lit, phoneSeparator, isSpace,
      notAfterDigit, notBeforeDigit, digit, isDecimal_closing]
  bodies := fun l => by
    have hneeds : Needs (fun c => U.isDecimal c = true) (phoneRe U) := by
      simp [phoneRe, concat, times, Needs, digit]
    exact not_occurs_of_needs hneeds l (body_not_decimal U l) _ _

theorem ccRe_fits : Fits placeholders (ccRe U) where
  consumes := consumes_of_minLength
    (by simp [ccRe, concat, times, between, minLength, digit])
  opening := by
    simp [ccRe, placeholders, concat, times, between, upTo, opt, Avoids, oneOf, wordBoundary,
      digit, isDecimal_opening]
  closing := by
    simp [ccRe, placeholders, concat, times, between, upTo, opt, Avoids, oneOf, wordBoundary,
      digit, isDecimal_closing]
  bodies := fun l => by
    have hneeds : Needs (fun c => U.isDecimal c = true) (ccRe U) := by
      simp [ccRe, concat, times, between, Needs, digit]
    exact not_occurs_of_needs hneeds l (body_not_decimal U l) _ _

theorem awsKeyRe_fits : Fits placeholders awsKeyRe where
  consumes := consumes_of_minLength (by decide)
  opening := by simp [awsKeyRe, placeholders, concat, times, Avoids, lit]
  closing := by simp [awsKeyRe, placeholders, concat, times, Avoids, lit]
  bodies := fun l => not_occurs_of_minLength (by decide) l _ _

theorem bearerRe_fits : Fits placeholders bearerRe where
  consumes := consumes_of_minLength (by decide)
  opening := by
    simp [bearerRe, placeholders, concat, plus, atLeast, times, Avoids, litIgnoreCase, space,
      isSpace, tokenChar, isTokenChar, caseFold]
  closing := by
    simp [bearerRe, placeholders, concat, plus, atLeast, times, Avoids, litIgnoreCase, space,
      isSpace, tokenChar, isTokenChar, caseFold]
  bodies := fun l => not_occurs_of_minLength (by decide) l _ _

theorem apiKeyRe_fits : Fits placeholders apiKeyRe where
  consumes := consumes_of_minLength (by decide)
  opening := by
    simp [apiKeyRe, placeholders, concat, atLeast, times, opt, Avoids, litIgnoreCase, oneOf, space,
      isSpace, tokenChar, isTokenChar, caseFold]
  closing := by
    simp [apiKeyRe, placeholders, concat, atLeast, times, opt, Avoids, litIgnoreCase, oneOf, space,
      isSpace, tokenChar, isTokenChar, caseFold]
  bodies := fun l => not_occurs_of_minLength (by decide) l _ _

theorem ipRe_fits : Fits placeholders (ipRe U) where
  consumes := consumes_of_minLength (by
    simp [ipRe, ipv4, ipv6Full, ipv6Compressed, octet, hexGroup, concat, times, between, minLength,
      lit])
  opening := by
    simp [ipRe, ipv4, ipv6Full, ipv6Compressed, octet, hexGroup, placeholders, concat, times,
      between, upTo, opt, Avoids, lit, oneOf, wordBoundary, digit, isHex, isDecimal_opening]
  closing := by
    simp [ipRe, ipv4, ipv6Full, ipv6Compressed, octet, hexGroup, placeholders, concat, times,
      between, upTo, opt, Avoids, lit, oneOf, wordBoundary, digit, isHex, isDecimal_closing]
  bodies := fun l => by
    have hdots : Needs (fun c => c = '.') (ipv4 U) := by
      simp [ipv4, concat, times, Needs, lit]
    rintro ⟨x, w, y, hf⟩
    rcases matches_alt.mp hf.isMatch with hm | hm
    · exact not_occurs_of_needs hdots l (fun c hc => (body_plain l c hc).2.2.2) _ _
        ⟨x, w, y, hf.word, hm⟩
    · rcases matches_alt.mp hm with hm | hm
      · exact not_occurs_of_minLength (by decide) l _ _ ⟨x, w, y, hf.word, hm⟩
      · exact ipv6Compressed_not_occurs l _ _ ⟨x, w, y, hf.word, hm⟩

end Fits

/-! ## The pipeline -/

section Pipeline

variable (U : CharTables)

/-- The eight compiled patterns, in declaration order. -/
def dlpPatterns : List (Regex Char) :=
  [ssnRe U, emailRe U, phoneRe U, ccRe U, awsKeyRe, bearerRe, apiKeyRe, ipRe U]

/-- The steps of `_redact_str`. -/
def classifiers : List (Classifier placeholders) :=
  [⟨.ssn, ssnRe U, ssnRe_fits U⟩, ⟨.email, emailRe U, emailRe_fits U⟩,
    ⟨.phone, phoneRe U, phoneRe_fits U⟩, ⟨.creditCard, ccRe U, ccRe_fits U⟩,
    ⟨.secret, awsKeyRe, awsKeyRe_fits⟩, ⟨.secret, bearerRe, bearerRe_fits⟩,
    ⟨.secret, apiKeyRe, apiKeyRe_fits⟩, ⟨.ipAddress, ipRe U, ipRe_fits U⟩]

theorem classifiers_patterns : (classifiers U).map Classifier.pattern = dlpPatterns U := rfl

theorem redactChars_eq (text : List Char) : redactChars U text = subAll (classifiers U) text := by
  simp only [redactChars, subAll, classifiers, List.foldl_cons, List.foldl_nil, placeholders_text]

/-- What every classifier in turn takes out of a text. -/
def taken (text : List Char) : Cuts Label Char := apply (classifiers U) (.last text)

theorem taken_original (text : List Char) : (taken U text).original = text :=
  apply_original _ _

theorem render_taken (text : List Char) :
    (taken U text).render classifierLabels = redactChars U text := by
  rw [redactChars_eq, ← funext placeholders_text, taken, ← render_apply]
  rfl

/-- The stretches of a text that redaction keeps, each with its neighbours in the redacted text. -/
def keptRuns (text : List Char) : List (Run Char) := (taken U text).runs placeholders none none

/-- No pattern matches anywhere in the text. -/
def Clean (text : String) : Prop := ∀ r ∈ dlpPatterns U, search r none none text.toList = false

theorem clean_iff_classifiers (text : String) :
    Clean U text ↔ ∀ C ∈ classifiers U, ¬ Run.Occurs C.pattern ⟨none, text.toList, none⟩ := by
  rw [Clean, ← classifiers_patterns, List.forall_mem_map]
  refine forall₂_congr fun C _ => ?_
  rw [← Run.search_iff, Bool.not_eq_true]

/-- Clean text is left alone. -/
theorem redactStr_of_clean {text : String} (h : Clean U text) : redactStr U text = text := by
  rw [redactStr, redactChars_eq]
  rw [subAll_of_not_occurs _ _ ((clean_iff_classifiers U text).mp h), String.ofList_toList]

/-! ### What can be left over -/

theorem awsKeyRe_blind : Blind awsKeyRe := by simp [awsKeyRe, concat, times, Blind, lit]

theorem bearerRe_blind : Blind bearerRe := by
  simp [bearerRe, concat, plus, atLeast, times, Blind, litIgnoreCase, space, tokenChar]

theorem apiKeyRe_blind : Blind apiKeyRe := by
  simp [apiKeyRe, concat, atLeast, times, opt, Blind, litIgnoreCase, oneOf, space, tokenChar]

theorem ipv6_blind : Blind (alt ipv6Full ipv6Compressed) := by
  simp [ipv6Full, ipv6Compressed, hexGroup, concat, times, between, upTo, opt, Blind, lit]

/-- A pattern that looks at nothing but the word it matches is never left over. -/
theorem blind_not_occurs {C : Classifier placeholders} (hC : C ∈ classifiers U) {s : Regex Char}
    (hs : Blind s) (hsr : ∀ b a w, Matches s b w a → Matches C.pattern b w a) (text : List Char) :
    ∀ R ∈ keptRuns U text, ¬ Run.Occurs s R :=
  apply_blind (classifiers U) C hC s hs hsr (.last text)

/-- The patterns that test the characters around their word. -/
def boundedPatterns : List (Regex Char) := [ssnRe U, emailRe U, phoneRe U, ccRe U, ipv4 U]

theorem exposed_ipRe {text : List Char} {R : Run Char} (hR : R ∈ keptRuns U text) :
    R.Exposed placeholders (ipRe U) ↔ R.Exposed placeholders (ipv4 U) := by
  have hblind := blind_not_occurs U (C := ⟨.ipAddress, ipRe U, ipRe_fits U⟩)
    (by simp [classifiers]) ipv6_blind (fun b a w hm => .right (ipv4 U) _ b a w hm) text R hR
  constructor
  · rintro ⟨x, w, y, hf, hs⟩
    rcases matches_alt.mp hf.isMatch with hm | hm
    · exact ⟨x, w, y, ⟨hf.word, hm⟩, hs⟩
    · exact absurd ⟨x, w, y, hf.word, hm⟩ hblind
  · rintro ⟨x, w, y, hf, hs⟩
    exact ⟨x, w, y, ⟨hf.word, .left _ _ _ _ w hf.isMatch⟩, hs⟩

/-- Only the patterns that test their surroundings are ever exposed. -/
theorem exposed_iff {text : List Char} :
    (∀ C ∈ classifiers U, ∀ R ∈ keptRuns U text, ¬ R.Exposed placeholders C.pattern) ↔
      ∀ r ∈ boundedPatterns U, ∀ R ∈ keptRuns U text, ¬ R.Exposed placeholders r := by
  have hnone : ∀ C ∈ classifiers U, Blind C.pattern → ∀ R ∈ keptRuns U text,
      ¬ R.Exposed placeholders C.pattern := by
    rintro C hC hb R hR ⟨x, w, y, hf, -⟩
    exact blind_not_occurs U hC hb (fun _ _ _ hm => hm) text R hR ⟨x, w, y, hf⟩
  have haws := hnone ⟨.secret, awsKeyRe, awsKeyRe_fits⟩ (by simp [classifiers]) awsKeyRe_blind
  have hbearer := hnone ⟨.secret, bearerRe, bearerRe_fits⟩ (by simp [classifiers]) bearerRe_blind
  have hapiKey := hnone ⟨.secret, apiKeyRe, apiKeyRe_fits⟩ (by simp [classifiers]) apiKeyRe_blind
  have hip : (∀ R ∈ keptRuns U text, ¬ R.Exposed placeholders (ipRe U)) ↔
      ∀ R ∈ keptRuns U text, ¬ R.Exposed placeholders (ipv4 U) :=
    forall₂_congr fun R hR => not_congr (exposed_ipRe U hR)
  simp only [classifiers, boundedPatterns, List.forall_mem_cons, hip, List.not_mem_nil,
    false_implies, implies_true, and_true]
  tauto

/-- **Redacted text is clean**, and redacting it once more changes nothing, exactly if no stretch
that redaction keeps has a match at the bracket of a placeholder. -/
theorem redactStr_clean_iff (s : String) :
    (Clean U (redactStr U s) ∧ redactStr U (redactStr U s) = redactStr U s) ↔
      ∀ r ∈ boundedPatterns U, ∀ R ∈ keptRuns U s.toList, ¬ R.Exposed placeholders r := by
  have hclean : Clean U (redactStr U s) ↔
      ∀ r ∈ boundedPatterns U, ∀ R ∈ keptRuns U s.toList, ¬ R.Exposed placeholders r := by
    rw [clean_iff_classifiers, redactStr, String.toList_ofList, redactChars_eq, ← exposed_iff]
    exact clean_iff (classifiers U) (.last s.toList)
  rw [← hclean]
  constructor
  · exact fun h => h.1
  · exact fun h => ⟨h, redactStr_of_clean U h⟩

/-- A social security number that an access key runs into: the key takes the character that kept
the number from having a boundary before it. -/
theorem redactStr_unclean :
    redactStr asciiTables "AKIAIOSFODNN7EXAMPLE123-45-6789" = "<PII:SECRET>123-45-6789" ∧
      ¬ Clean asciiTables "<PII:SECRET>123-45-6789" ∧
      redactStr asciiTables "<PII:SECRET>123-45-6789" = "<PII:SECRET><PII:SSN>" := by
  refine ⟨by decide +kernel, ?_, by decide +kernel⟩
  intro h
  have hssn := h (ssnRe asciiTables) (by simp [dlpPatterns])
  revert hssn
  decide +kernel

/-! ### What is replaced -/

/-- **Redaction only substitutes.** What comes out is the text with disjoint words of it replaced, each
by the label of a classifier whose pattern matched it, and with all else in its place. A text in which
some pattern matches does not come out as it went in. -/
theorem redactStr_substitutes (s : String) :
    (∃ k : Cuts Label Char, k.original = s.toList ∧
      (redactStr U s).toList = k.render classifierLabels ∧
      ∀ v ∈ k.words, ∃ C ∈ classifiers U, C.label = v.1 ∧ Recognises C.pattern v.2) ∧
    (redactStr U s = s ↔ Clean U s) := by
  refine ⟨⟨taken U s.toList, taken_original U s.toList, ?_, ?_⟩, ?_⟩
  · rw [render_taken, redactStr, String.toList_ofList]
  · intro v hv
    exact (apply_words (classifiers U) (.last s.toList) v hv).resolve_left List.not_mem_nil
  · rw [clean_iff_classifiers, ← subAll_eq_self_iff, ← redactChars_eq, redactStr]
    constructor
    · intro hsame
      rw [← String.toList_ofList (l := redactChars U s.toList), hsame]
    · intro hsame
      rw [hsame, String.ofList_toList]

end Pipeline

end Sigil.Redaction
