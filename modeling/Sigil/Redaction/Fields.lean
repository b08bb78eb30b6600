import Sigil.Library.Edges
import Sigil.Redaction.Seams

/-! # Fields

No classifier reaches across a comma, a quote, a bracket of JSON or any other delimiter: it takes them
for the end of the text. So a record whose fields stand between delimiters is redacted field by field
(`record_redacted`).
-/
set_option autoImplicit false

namespace Sigil.Redaction

open Regex

/-! ## Delimiters -/

/-- In no class of any of the eight patterns, and no word character. -/
def isDelimiter (U : CharTables) (c : Char) : Bool :=
  !(U.isDecimal c || isWord U c || isSpace c || isTokenChar c || isTokenChar (caseFold c) ||
    c ∈ ['@', '%', '(', ')', ':'])

/-- So are these, whatever the tables: `,` `;` `"` `'` `[` `]` `{` `}` `<` `>` `|` `\`. -/
theorem delimiters (U : CharTables) : ∀ c ∈ [',', ';', '"', '\'', '[', ']', '\x7b', '\x7d', '<', '>',
    '|', '\\'], isDelimiter U c = true := by
  have hascii : ∀ c : Char, c.toNat < 0x80 → c.isDigit = false → c.isAlphanum = false →
      (c = '_' || isSpace c || isTokenChar c || isTokenChar (caseFold c) ||
        c ∈ ['@', '%', '(', ')', ':']) = false → isDelimiter U c = true := by
    intro c hc hdigit halnum hrest
    simp only [Bool.or_eq_false_iff] at hrest
    simp only [isDelimiter, isWord, U.isDecimal_ascii c hc, U.isAlnum_ascii c hc, hdigit, halnum, hrest]
    rfl
  simp only [List.forall_mem_cons, List.not_mem_nil, false_implies, implies_true, and_true]
  refine ⟨?_, ?_, ?_, ?_, ?_, ?_, ?_, ?_, ?_, ?_, ?_, ?_⟩ <;>
    exact hascii _ (by decide) (by decide) (by decide) (by decide)

section Edge

variable {U : CharTables} {x : Char} (h : isDelimiter U x = true)

include h

theorem not_decimal_of_delimiter : U.isDecimal x = false := by
  simp only [isDelimiter, Bool.not_eq_true', Bool.or_eq_false_iff] at h
  exact h.1.1.1.1.1

theorem not_word_of_delimiter : isWord U x = false := by
  simp only [isDelimiter, Bool.not_eq_true', Bool.or_eq_false_iff] at h
  exact h.1.1.1.1.2

theorem not_space_of_delimiter : isSpace x = false := by
  simp only [isDelimiter, Bool.not_eq_true', Bool.or_eq_false_iff] at h
  exact h.1.1.1.2

theorem not_token_of_delimiter : isTokenChar x = false := by
  simp only [isDelimiter, Bool.not_eq_true', Bool.or_eq_false_iff] at h
  exact h.1.1.2

theorem not_folded_of_delimiter : isTokenChar (caseFold x) = false := by
  simp only [isDelimiter, Bool.not_eq_true', Bool.or_eq_false_iff] at h
  exact h.1.2

theorem ne_of_delimiter : x ≠ '@' ∧ x ≠ '%' ∧ x ≠ '(' ∧ x ≠ ')' ∧ x ≠ ':' := by
  simp only [isDelimiter, Bool.not_eq_true', Bool.or_eq_false_iff] at h
  simpa using h.2

theorem wordBoundary_edge : Edge x (wordBoundary U) := by
  have hword := not_word_of_delimiter h
  exact ⟨fun b => by simp [hword], fun a => by simp [hword]⟩

theorem digit_edge : Edge x (digit U) := not_decimal_of_delimiter h

theorem litIgnoreCase_edge {c : Char} (hc : isTokenChar c = true) : Edge x (litIgnoreCase c) := by
  apply decide_eq_false
  rintro rfl
  rw [not_folded_of_delimiter h] at hc
  cases hc

theorem space_edge : Edge x space := not_space_of_delimiter h

theorem tokenChar_edge : Edge x tokenChar := not_folded_of_delimiter h

/-- What some class has that no delimiter is. -/
def isClassed (c : Char) : Bool := isTokenChar c || isSpace c || c ∈ ['@', '%', '(', ')', ':']

theorem not_classed_of_delimiter : isClassed x = false := by
  have hne := ne_of_delimiter h
  simp [isClassed, not_token_of_delimiter h, not_space_of_delimiter h, hne]

theorem class_edge {p : Char → Bool} (hp : ∀ c, p c = true → isClassed c = true) :
    Edge x (.char p) := by
  refine eq_false_of_ne_true fun hx => ?_
  have hclassed := hp x hx
  rw [not_classed_of_delimiter h] at hclassed
  cases hclassed

theorem lit_edge {c : Char} (hc : isClassed c = true) : Edge x (lit c) := by
  apply class_edge h
  intro d hd
  rwa [of_decide_eq_true hd]

theorem oneOf_edge {cs : List Char} (hcs : cs.all isClassed = true) : Edge x (oneOf cs) := by
  apply class_edge h
  intro d hd
  exact List.all_eq_true.mp hcs d (of_decide_eq_true hd)

/-- Letters, digits and some others. -/
theorem alphanum_edge {p : Char → Bool} (cs : List Char) (hcs : cs.all isClassed = true)
    (hp : ∀ c, p c = true → c.isAlphanum = true ∨ c ∈ cs) : Edge x (.char p) := by
  apply class_edge h
  intro c hc
  obtain halnum | hmem := hp c hc
  · simp [isClassed, isTokenChar, halnum]
  · exact List.all_eq_true.mp hcs c hmem

/-! ### The patterns -/

theorem ssnRe_edge : Edge x (ssnRe U) := by
  have hdigit := digit_edge h
  have hdash := lit_edge h (c := '-') rfl
  exact edge_concat (by simp [wordBoundary_edge h, hdigit.times, hdash])

theorem emailRe_edge : Edge x (emailRe U) := by
  have hname : Edge x (.char fun c => c.isAlphanum || c ∈ ['.', '_', '%', '+', '-']) :=
    alphanum_edge h ['.', '_', '%', '+', '-'] (by decide) fun c hc => by simpa using hc
  have hhost : Edge x (.char fun c => c.isAlphanum || c ∈ ['.', '-']) :=
    alphanum_edge h ['.', '-'] (by decide) fun c hc => by simpa using hc
  have hletter : Edge x (.char isLetter) :=
    alphanum_edge h [] rfl fun c hc => Or.inl (by simpa [isLetter, Char.isAlphanum] using Or.inl hc)
  have hat := lit_edge h (c := '@') rfl
  have hdot := lit_edge h (c := '.') rfl
  apply edge_concat
  simp only [List.forall_mem_cons, List.not_mem_nil, false_implies, implies_true, and_true]
  exact ⟨wordBoundary_edge h, hname.plus, hat, hhost.plus, hdot, hletter.atLeast 2, wordBoundary_edge h⟩

theorem phoneRe_edge : Edge x (phoneRe U) := by
  have hdigit := digit_edge h
  have hseparator : Edge x phoneSeparator := by
    apply class_edge h
    intro c hc
    obtain hspace | hmark := Bool.or_eq_true_iff.mp hc
    · simp [isClassed, hspace]
    · have hall : ['.', '-'].all isClassed = true := by decide
      exact List.all_eq_true.mp hall c (of_decide_eq_true hmark)
  have hdecimal := not_decimal_of_delimiter h
  have hbefore : Edge x (notAfterDigit U) := ⟨fun b => rfl, fun a => by simp [hdecimal]⟩
  have hafter : Edge x (notBeforeDigit U) := ⟨fun b => by simp [hdecimal], fun a => rfl⟩
  have hcode : Edge x (concat [opt (lit '+'), lit '1', opt phoneSeparator]) :=
    edge_concat (by simp [(lit_edge h (c := '+') rfl).opt, lit_edge h (c := '1') rfl, hseparator.opt])
  have harea : Edge x (concat [lit '(', times 3 (digit U), lit ')']) :=
    edge_concat (by simp [lit_edge h (c := '(') rfl, lit_edge h (c := ')') rfl, hdigit.times])
  have halt : Edge x (alt (concat [lit '(', times 3 (digit U), lit ')']) (times 3 (digit U))) :=
    ⟨harea, hdigit.times 3⟩
  exact edge_concat (by
    simp [hbefore, hcode.opt, halt, hseparator.opt, hdigit.times, hafter])

theorem ccRe_edge : Edge x (ccRe U) := by
  have hdigit := digit_edge h
  have hmark : Edge x (oneOf [' ', '-']) := oneOf_edge h (by decide)
  have hgroups : Edge x (concat [times 4 (digit U), oneOf [' ', '-'], times 4 (digit U),
      oneOf [' ', '-'], times 4 (digit U), oneOf [' ', '-'], between 1 4 (digit U)]) :=
    edge_concat (by simp [hdigit.times, hmark, hdigit.between])
  have halt : Edge x (alt (concat [times 4 (digit U), oneOf [' ', '-'], times 4 (digit U),
      oneOf [' ', '-'], times 4 (digit U), oneOf [' ', '-'], between 1 4 (digit U)])
      (between 13 16 (digit U))) := ⟨hgroups, hdigit.between 13 16⟩
  exact edge_concat (by simp [wordBoundary_edge h, halt])

/-- A word written out. -/
theorem word_edge (cs : List Char) (hcs : cs.all isClassed = true) : Edge x (concat (cs.map lit)) := by
  apply edge_concat
  intro r hr
  obtain ⟨c, hc, rfl⟩ := List.mem_map.mp hr
  exact lit_edge h (List.all_eq_true.mp hcs c hc)

theorem awsKeyRe_edge : Edge x awsKeyRe := by
  have hkey : Edge x (.char fun c => c.isUpper || c.isDigit) := by
    refine alphanum_edge h [] rfl fun c hc => Or.inl ?_
    obtain hupper | hdigit := Bool.or_eq_true_iff.mp hc
    · exact alphanum_of_upper hupper
    · simp [Char.isAlphanum, hdigit]
  refine ⟨⟨?_, ?_, ?_, ?_, ?_, ?_⟩, hkey.times 16⟩
  · exact word_edge h ['A', 'K', 'I', 'A'] (by decide)
  · exact word_edge h ['A', 'S', 'I', 'A'] (by decide)
  · exact word_edge h ['A', 'R', 'O', 'A'] (by decide)
  · exact word_edge h ['A', 'I', 'P', 'A'] (by decide)
  · exact word_edge h ['A', 'I', 'D', 'A'] (by decide)
  · exact word_edge h ['A', 'I', 'F', 'A'] (by decide)

theorem bearerRe_edge : Edge x bearerRe := by
  have hletter : ∀ c, isTokenChar c = true → Edge x (litIgnoreCase c) :=
    fun c hc => litIgnoreCase_edge h hc
  exact edge_concat (by
    simp [hletter 'b' rfl, hletter 'e' rfl, hletter 'a' rfl, hletter 'r' rfl, (space_edge h).plus,
      (tokenChar_edge h).atLeast])

theorem apiKeyRe_edge : Edge x apiKeyRe := by
  have hletter : ∀ c, isTokenChar c = true → Edge x (litIgnoreCase c) :=
    fun c hc => litIgnoreCase_edge h hc
  have hspaces : Edge x (star space) := space_edge h
  have hjoin : Edge x (oneOf ['_', '-']) := oneOf_edge h (by decide)
  have hassign : Edge x (oneOf [':', '=']) := oneOf_edge h (by decide)
  exact edge_concat (by
    simp [hletter 'a' rfl, hletter 'p' rfl, hletter 'i' rfl, hjoin.opt, hletter 'k' rfl,
      hletter 'e' rfl, hletter 'y' rfl, hspaces, hassign, (tokenChar_edge h).atLeast])

theorem octet_edge : Edge x (octet U) := by
  have hdigit := digit_edge h
  have hone : ∀ cs : List Char, cs.all isClassed = true → Edge x (oneOf cs) :=
    fun cs hcs => oneOf_edge h hcs
  have hlit : ∀ c, isClassed c = true → Edge x (lit c) := fun c hc => lit_edge h hc
  refine ⟨?_, ?_, ?_, ?_⟩
  · exact edge_concat (by simp [hlit '2' rfl, hlit '5' rfl, hone ['0', '1', '2', '3', '4', '5'] rfl])
  · exact edge_concat (by simp [hlit '2' rfl, hone ['0', '1', '2', '3', '4'] rfl, hdigit])
  · exact edge_concat (by simp [hlit '1' rfl, hdigit])
  · exact edge_concat (by
      simp [(hone ['1', '2', '3', '4', '5', '6', '7', '8', '9'] rfl).opt, hdigit])

theorem hexGroup_edge : Edge x (.char isHex) := by
  refine alphanum_edge h [] rfl fun c hc => Or.inl ?_
  simp only [isHex, Bool.or_eq_true, Bool.and_eq_true, decide_eq_true_eq] at hc
  obtain (hdigit | ⟨hlow, hhigh⟩) | ⟨hlow, hhigh⟩ := hc
  · simp [Char.isAlphanum, hdigit]
  · have hupper : c.isUpper = true := decide_eq_true ⟨hlow, Char.le_trans hhigh (by decide)⟩
    exact alphanum_of_upper hupper
  · have hlower : c.isLower = true := Bool.and_eq_true_iff.mpr
      ⟨decide_eq_true hlow, decide_eq_true (Char.le_trans hhigh (by decide))⟩
    exact alphanum_of_lower hlower

theorem ipRe_edge : Edge x (ipRe U) := by
  have hdot := lit_edge h (c := '.') rfl
  have hcolon := lit_edge h (c := ':') rfl
  have hgroup : Edge x hexGroup := (hexGroup_edge h).between 1 4
  have hstep : Edge x (seq hexGroup (lit ':')) := ⟨hgroup, hcolon⟩
  have hquad : Edge x (seq (octet U) (lit '.')) := ⟨octet_edge h, hdot⟩
  have htail : Edge x (seq (star (seq hexGroup (lit ':'))) (between 0 4 (.char isHex))) :=
    ⟨hstep, (hexGroup_edge h).between 0 4⟩
  have hsteps : Edge x (star (seq hexGroup (lit ':'))) := hstep
  refine ⟨?_, ?_, ?_⟩
  · exact edge_concat (by simp [wordBoundary_edge h, hquad.times, octet_edge h])
  · exact edge_concat (by simp [hstep.times, hgroup])
  · exact edge_concat (by simp [hsteps, hcolon, htail.opt])

theorem classifiers_edge : ∀ C ∈ classifiers U, Edge x C.pattern := by
  simp only [classifiers, List.forall_mem_cons, List.not_mem_nil, false_implies, implies_true, and_true]
  exact ⟨ssnRe_edge h, emailRe_edge h, phoneRe_edge h, ccRe_edge h, awsKeyRe_edge h, bearerRe_edge h,
    apiKeyRe_edge h, ipRe_edge h⟩

theorem redactChars_delimiter (u v : List Char) :
    redactChars U (u ++ x :: v) = redactChars U u ++ x :: redactChars U v := by
  simp only [redactChars_eq]
  exact subAll_edge _ (classifiers_edge h) u v

end Edge

/-! ## Records -/

/-- A first field, and after each delimiter another. -/
def record : List Char → List (Char × List Char) → List Char
  | field, [] => field
  | field, (x, next) :: rest => field ++ x :: record next rest

/-- **A record is redacted field by field**, whatever stands in the fields. -/
theorem record_redacted (U : CharTables) (field : List Char) (rest : List (Char × List Char))
    (h : ∀ f ∈ rest, isDelimiter U f.1 = true) :
    redactChars U (record field rest) =
      record (redactChars U field) (rest.map fun f => (f.1, redactChars U f.2)) := by
  induction rest generalizing field with
  | nil => rw [record, List.map_nil, record]
  | cons f rest ih =>
    obtain ⟨x, next⟩ := f
    have hnext := ih next fun g hg => h g (List.mem_cons_of_mem _ hg)
    have hx : isDelimiter U x = true := h (x, next) List.mem_cons_self
    rw [record, redactChars_delimiter hx, hnext, List.map_cons, record]

/-- A number, an address and a name. -/
theorem record_redacted_row :
    redactChars asciiTables (record "123-45-6789".toList [(',', "ab@c.de".toList),
      (';', "n".toList)]) = record "<PII:SSN>".toList [(',', "<PII:EMAIL>".toList),
        (';', "n".toList)] := by
  have hdelimiters : ∀ f ∈ [(',', "ab@c.de".toList), (';', "n".toList)],
      isDelimiter asciiTables f.1 = true := by decide
  have hssn : redactChars asciiTables "123-45-6789".toList = "<PII:SSN>".toList := by decide +kernel
  have hemail : redactChars asciiTables "ab@c.de".toList = "<PII:EMAIL>".toList := by decide +kernel
  have hname : redactChars asciiTables "n".toList = "n".toList := by decide +kernel
  rw [record_redacted asciiTables "123-45-6789".toList [(',', "ab@c.de".toList), (';', "n".toList)]
    hdelimiters, List.map_cons, List.map_cons, List.map_nil, hssn, hemail, hname]

end Sigil.Redaction
