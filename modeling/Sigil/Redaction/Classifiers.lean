import Sigil.Library.Placeholders
import Sigil.Python.Text

/-! # The classifier pipeline

The eight compiled patterns of `redaction.py`, in the order of `_redact_str`, and the labels that
take the place of what they match. `\d` and `\w` go by the Unicode tables of the host, which
`CharTables` knows on ASCII only; a pattern compiled with `IGNORECASE` also matches the four letters
outside ASCII that fold into it.
-/
set_option autoImplicit false

namespace Sigil.Redaction

open Regex

/-! ## Characters -/

structure CharTables where
  /-- `str.isdecimal` on one character -/
  isDecimal : Char → Bool
  /-- `str.isalnum` on one character -/
  isAlnum : Char → Bool
  isDecimal_ascii : ∀ c : Char, c.toNat < 0x80 → isDecimal c = c.isDigit
  isAlnum_ascii : ∀ c : Char, c.toNat < 0x80 → isAlnum c = c.isAlphanum

/-- Tables that know no other characters. -/
def asciiTables : CharTables where
  isDecimal := Char.isDigit
  isAlnum := Char.isAlphanum
  isDecimal_ascii := fun _ _ => rfl
  isAlnum_ascii := fun _ _ => rfl

/-- A character with its case ignored: İ and ı fold into `i`, ſ into `s`, the kelvin sign into `k`. -/
def caseFold (c : Char) : Char :=
  if c.toNat = 0x130 ∨ c.toNat = 0x131 then 'i'
  else if c.toNat = 0x17f then 's'
  else if c.toNat = 0x212a then 'k'
  else c.toLower

def lit (c : Char) : Regex Char := .char fun x => x = c

theorem matches_lit {c : Char} {b a : Option Char} {w : List Char} :
    Matches (lit c) b w a ↔ w = [c] := by simp [lit, matches_char]

/-- A literal under `IGNORECASE`. -/
def litIgnoreCase (c : Char) : Regex Char := .char fun x => caseFold x = c

def oneOf (cs : List Char) : Regex Char := .char fun x => x ∈ cs

/-- `[A-Za-z]` -/
def isLetter (c : Char) : Bool := c.isAlpha

/-- `[A-Za-z0-9\-._~+/=]` -/
def isTokenChar (c : Char) : Bool := c.isAlphanum || c ∈ ['-', '.', '_', '~', '+', '/', '=']

theorem alphanum_of_upper {c : Char} (h : c.isUpper = true) : c.isAlphanum = true := by
  have hclass : c.isAlphanum = ((c.isUpper || c.isLower) || c.isDigit) := rfl
  simp [hclass, h]

theorem alphanum_of_lower {c : Char} (h : c.isLower = true) : c.isAlphanum = true := by
  have hclass : c.isAlphanum = ((c.isUpper || c.isLower) || c.isDigit) := rfl
  simp [hclass, h]

/-- `[0-9A-Fa-f]` -/
def isHex (c : Char) : Bool := c.isDigit || ('A' ≤ c && c ≤ 'F') || ('a' ≤ c && c ≤ 'f')

/-- `\s` -/
def space : Regex Char := .char isSpace

/-- `[A-Za-z0-9\-._~+/=]` under `IGNORECASE`. -/
def tokenChar : Regex Char := .char fun x => isTokenChar (caseFold x)

section Tables

variable (U : CharTables)

/-- `\w` -/
def isWord (c : Char) : Bool := U.isAlnum c || c = '_'

/-- `\d` -/
def digit : Regex Char := .char U.isDecimal

/-- `\b` -/
def wordBoundary : Regex Char := .look fun b a => b.any (isWord U) != a.any (isWord U)

/-- `(?<!\d)` -/
def notAfterDigit : Regex Char := .look fun b _ => !b.any U.isDecimal

/-- `(?!\d)` -/
def notBeforeDigit : Regex Char := .look fun _ a => !a.any U.isDecimal

/-! ## The patterns -/

/-- `_SSN_RE` -/
def ssnRe : Regex Char :=
  concat [wordBoundary U, times 3 (digit U), lit '-', times 2 (digit U), lit '-', times 4 (digit U),
    wordBoundary U]

/-- `_EMAIL_RE` -/
def emailRe : Regex Char :=
  concat [wordBoundary U, plus (.char fun c => c.isAlphanum || c ∈ ['.', '_', '%', '+', '-']),
    lit '@', plus (.char fun c => c.isAlphanum || c ∈ ['.', '-']), lit '.',
    atLeast 2 (.char isLetter), wordBoundary U]

/-- `[\s.\-]` -/
def phoneSeparator : Regex Char := .char fun c => isSpace c || c ∈ ['.', '-']

/-- `_PHONE_RE` -/
def phoneRe : Regex Char :=
  concat [notAfterDigit U, opt (concat [opt (lit '+'), lit '1', opt phoneSeparator]),
    alt (concat [lit '(', times 3 (digit U), lit ')']) (times 3 (digit U)),
    opt phoneSeparator, times 3 (digit U), opt phoneSeparator, times 4 (digit U), notBeforeDigit U]

/-- `_CC_RE` -/
def ccRe : Regex Char :=
  concat [wordBoundary U,
    alt (concat [times 4 (digit U), oneOf [' ', '-'], times 4 (digit U), oneOf [' ', '-'],
        times 4 (digit U), oneOf [' ', '-'], between 1 4 (digit U)])
      (between 13 16 (digit U)),
    wordBoundary U]

/-- The octet of `_IP_RE`: `25[0-5]|2[0-4]\d|1\d\d|[1-9]?\d`. -/
def octet : Regex Char :=
  alt (concat [lit '2', lit '5', oneOf ['0', '1', '2', '3', '4', '5']])
    (alt (concat [lit '2', oneOf ['0', '1', '2', '3', '4'], digit U])
      (alt (concat [lit '1', digit U, digit U])
        (concat [opt (oneOf ['1', '2', '3', '4', '5', '6', '7', '8', '9']), digit U])))

/-- The first alternative of `_IP_RE`. -/
def ipv4 : Regex Char :=
  concat [wordBoundary U, times 3 (seq (octet U) (lit '.')), octet U, wordBoundary U]

end Tables

/-- `_AWS_KEY_RE` -/
def awsKeyRe : Regex Char :=
  seq (alt (concat [lit 'A', lit 'K', lit 'I', lit 'A'])
      (alt (concat [lit 'A', lit 'S', lit 'I', lit 'A'])
        (alt (concat [lit 'A', lit 'R', lit 'O', lit 'A'])
          (alt (concat [lit 'A', lit 'I', lit 'P', lit 'A'])
            (alt (concat [lit 'A', lit 'I', lit 'D', lit 'A'])
              (concat [lit 'A', lit 'I', lit 'F', lit 'A']))))))
    (times 16 (.char fun c => c.isUpper || c.isDigit))

/-- `_BEARER_RE` -/
def bearerRe : Regex Char :=
  concat [litIgnoreCase 'b', litIgnoreCase 'e', litIgnoreCase 'a', litIgnoreCase 'r',
    litIgnoreCase 'e', litIgnoreCase 'r', plus space, atLeast 20 tokenChar]

/-- `_API_KEY_RE` -/
def apiKeyRe : Regex Char :=
  concat [litIgnoreCase 'a', litIgnoreCase 'p', litIgnoreCase 'i', opt (oneOf ['_', '-']),
    litIgnoreCase 'k', litIgnoreCase 'e', litIgnoreCase 'y', star space, oneOf [':', '='],
    star space, atLeast 16 tokenChar]

/-- `[0-9A-Fa-f]{1,4}` -/
def hexGroup : Regex Char := between 1 4 (.char isHex)

/-- The second alternative of `_IP_RE`. -/
def ipv6Full : Regex Char := concat [times 7 (seq hexGroup (lit ':')), hexGroup]

/-- The third alternative of `_IP_RE`. -/
def ipv6Compressed : Regex Char :=
  concat [star (seq hexGroup (lit ':')), lit ':', lit ':',
    opt (seq (star (seq hexGroup (lit ':'))) (between 0 4 (.char isHex)))]

/-- `_IP_RE` -/
def ipRe (U : CharTables) : Regex Char := alt (ipv4 U) (alt ipv6Full ipv6Compressed)

/-! ## The pipeline -/

/-- The keys of `CLASSIFIER_LABELS`. -/
inductive Label where
  | ssn
  | email
  | phone
  | creditCard
  | secret
  | ipAddress
  deriving DecidableEq, Repr

/-- `CLASSIFIER_LABELS` -/
def classifierLabels : Label → List Char
  | .ssn => ['<', 'P', 'I', 'I', ':', 'S', 'S', 'N', '>']
  | .email => ['<', 'P', 'I', 'I', ':', 'E', 'M', 'A', 'I', 'L', '>']
  | .phone => ['<', 'P', 'I', 'I', ':', 'P', 'H', 'O', 'N', 'E', '>']
  | .creditCard => ['<', 'P', 'I', 'I', ':', 'C', 'C', '>']
  | .secret => ['<', 'P', 'I', 'I', ':', 'S', 'E', 'C', 'R', 'E', 'T', '>']
  | .ipAddress => ['<', 'P', 'I', 'I', ':', 'I', 'P', '_', 'A', 'D', 'D', 'R', 'E', 'S', 'S', '>']

/-- `_redact_str`, on characters. -/
def redactChars (U : CharTables) (text : List Char) : List Char :=
  let text := sub (ssnRe U) (classifierLabels .ssn) text
  let text := sub (emailRe U) (classifierLabels .email) text
  let text := sub (phoneRe U) (classifierLabels .phone) text
  let text := sub (ccRe U) (classifierLabels .creditCard) text
  let text := sub awsKeyRe (classifierLabels .secret) text
  let text := sub bearerRe (classifierLabels .secret) text
  let text := sub apiKeyRe (classifierLabels .secret) text
  sub (ipRe U) (classifierLabels .ipAddress) text

/-- `_redact_str` -/
def redactStr (U : CharTables) (text : String) : String :=
  String.ofList (redactChars U text.toList)

example : classifierLabels .ipAddress = "<PII:IP_ADDRESS>".toList := by simp [classifierLabels]

end Sigil.Redaction
