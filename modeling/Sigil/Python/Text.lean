import Sigil.Python.Value

/-! # Text: `strip`, `repr`, `str` and `json.dumps`

The string operations of Python the SDK relies on, on `List Char` where they take a string apart.
`dumps ensureAscii` is `json.dumps(v, separators=(",", ":"))`; `canonicalJson` adds
`sort_keys=True, ensure_ascii=False` and is partial, since sorting keys of different types raises
`TypeError`.
-/
set_option autoImplicit false

namespace Sigil

/-! ## Characters -/

def quoteChar : Char := Char.ofNat 0x22

def apostrophe : Char := Char.ofNat 0x27

def backslash : Char := Char.ofNat 0x5c

/-- `s.strip('"')` -/
def stripQuotes (s : List Char) : List Char :=
  ((s.dropWhile (· = quoteChar)).reverse.dropWhile (· = quoteChar)).reverse

/-- `str.isspace` on one character -/
def isSpace (c : Char) : Bool :=
  c.toNat ∈ [0x09, 0x0a, 0x0b, 0x0c, 0x0d, 0x1c, 0x1d, 0x1e, 0x1f, 0x20, 0x85, 0xa0, 0x1680,
    0x2028, 0x2029, 0x202f, 0x205f, 0x3000] || (0x2000 ≤ c.toNat && c.toNat ≤ 0x200a)

def strip (s : List Char) : List Char :=
  ((s.dropWhile isSpace).reverse.dropWhile isSpace).reverse

def utf8 (s : String) : List UInt8 := s.toUTF8.toList

def hexDigit (n : ℕ) : Char := Nat.digitChar (n % 16)

/-- `n` in `width` lower-case hexadecimal digits. -/
def hexPad : ℕ → ℕ → List Char
  | 0, _ => []
  | width + 1, n => hexPad width (n / 16) ++ [hexDigit n]

/-! ## `repr` and `str` -/

def reprChar (h : Host) (quote c : Char) : List Char :=
  if c = quote ∨ c = backslash then [backslash, c]
  else if c = '\t' then [backslash, 't']
  else if c = '\n' then [backslash, 'n']
  else if c = '\r' then [backslash, 'r']
  else if c.toNat < 0x20 ∨ c.toNat = 0x7f then backslash :: 'x' :: hexPad 2 c.toNat
  else if c.toNat < 0x7f ∨ h.isPrintable c then [c]
  else if c.toNat ≤ 0xff then backslash :: 'x' :: hexPad 2 c.toNat
  else if c.toNat ≤ 0xffff then backslash :: 'u' :: hexPad 4 c.toNat
  else backslash :: 'U' :: hexPad 8 c.toNat

def reprStr (h : Host) (s : String) : String :=
  let quote := if apostrophe ∈ s.toList ∧ quoteChar ∉ s.toList then quoteChar else apostrophe
  String.ofList (quote :: s.toList.flatMap (reprChar h quote) ++ [quote])

def reprBool (b : Bool) : String := if b then "True" else "False"

def reprKey (h : Host) : PyKey → String
  | .str s => reprStr h s
  | .int i => toString i
  | .bool b => reprBool b
  | .none => "None"

namespace PyVal

mutual

def repr (h : Host) : PyVal → String
  | none => "None"
  | bool b => reprBool b
  | int i => toString i
  | float bits => h.reprFloat bits
  | str s => reprStr h s
  | list xs => "[" ++ reprItems h xs ++ "]"
  | tuple xs => "(" ++ reprItems h xs ++ (if xs.length = 1 then ",)" else ")")
  | dict kvs => "\x7b" ++ reprEntries h kvs ++ "\x7d"

def reprItems (h : Host) : List PyVal → String
  | [] => ""
  | x :: xs => repr h x ++ (if xs.isEmpty then "" else ", ") ++ reprItems h xs

def reprEntries (h : Host) : List (PyKey × PyVal) → String
  | [] => ""
  | (k, v) :: kvs =>
    reprKey h k ++ ": " ++ repr h v ++ (if kvs.isEmpty then "" else ", ") ++ reprEntries h kvs

end

/-- `str(v)` -/
def toStr (h : Host) : PyVal → String
  | str s => s
  | v => repr h v

/-! ## `json.dumps` -/

def jsonEscape (ensureAscii : Bool) (c : Char) : List Char :=
  if c = quoteChar ∨ c = backslash then [backslash, c]
  else if c = '\n' then [backslash, 'n']
  else if c = '\r' then [backslash, 'r']
  else if c = '\t' then [backslash, 't']
  else if c.toNat = 0x0c then [backslash, 'f']
  else if c.toNat = 0x08 then [backslash, 'b']
  else if c.toNat < 0x20 then backslash :: 'u' :: hexPad 4 c.toNat
  else if ensureAscii ∧ 0x7f ≤ c.toNat then
    if c.toNat < 0x10000 then backslash :: 'u' :: hexPad 4 c.toNat
    else
      let n := c.toNat - 0x10000
      backslash :: 'u' :: hexPad 4 (0xd800 + n / 0x400) ++
        backslash :: 'u' :: hexPad 4 (0xdc00 + n % 0x400)
  else [c]

def dumpsStr (ensureAscii : Bool) (s : String) : String :=
  String.ofList (quoteChar :: s.toList.flatMap (jsonEscape ensureAscii) ++ [quoteChar])

def dumpsBool (b : Bool) : String := if b then "true" else "false"

def dumpsFloat (h : Host) (bits : UInt64) : String :=
  let r := h.reprFloat bits
  if r = "nan" then "NaN" else if r = "inf" then "Infinity" else if r = "-inf" then "-Infinity"
  else r

/-- Keys that are not strings are written as strings. -/
def dumpsKey (ensureAscii : Bool) : PyKey → String
  | .str s => dumpsStr ensureAscii s
  | .int i => dumpsStr ensureAscii (toString i)
  | .bool b => dumpsStr ensureAscii (dumpsBool b)
  | .none => dumpsStr ensureAscii "null"

mutual

def dumps (h : Host) (ensureAscii : Bool) : PyVal → String
  | none => "null"
  | bool b => dumpsBool b
  | int i => toString i
  | float bits => dumpsFloat h bits
  | str s => dumpsStr ensureAscii s
  | list xs => "[" ++ dumpsItems h ensureAscii xs ++ "]"
  | tuple xs => "[" ++ dumpsItems h ensureAscii xs ++ "]"
  | dict kvs => "\x7b" ++ dumpsEntries h ensureAscii kvs ++ "\x7d"

def dumpsItems (h : Host) (ensureAscii : Bool) : List PyVal → String
  | [] => ""
  | x :: xs =>
    dumps h ensureAscii x ++ (if xs.isEmpty then "" else ",") ++ dumpsItems h ensureAscii xs

def dumpsEntries (h : Host) (ensureAscii : Bool) : List (PyKey × PyVal) → String
  | [] => ""
  | (k, v) :: kvs =>
    dumpsKey ensureAscii k ++ ":" ++ dumps h ensureAscii v ++ (if kvs.isEmpty then "" else ",") ++
      dumpsEntries h ensureAscii kvs

end

/-! ## Sorted keys -/

/-- `a <= b` on keys; `none` is the `TypeError` of comparing different types. Booleans compare as
integers. -/
def keyNumber : PyKey → Option ℤ
  | .int i => some i
  | .bool b => some (if b then 1 else 0)
  | _ => Option.none

def keyString : PyKey → Option String
  | .str s => some s
  | _ => Option.none

/-- `sorted(d.items())` for pairwise different keys: all strings, all numbers, or a single item. -/
def sortedItems (kvs : List (PyKey × PyVal)) : Option (List (PyKey × PyVal)) :=
  if kvs.length ≤ 1 then some kvs
  else if kvs.all fun kv => (keyString kv.1).isSome then
    some (kvs.mergeSort fun a b => decide ((keyString a.1).getD "" ≤ (keyString b.1).getD ""))
  else if kvs.all fun kv => (keyNumber kv.1).isSome then
    some (kvs.mergeSort fun a b => decide ((keyNumber a.1).getD 0 ≤ (keyNumber b.1).getD 0))
  else Option.none

mutual

/-- Sort the items of every dictionary, at every depth. -/
def sortKeys : PyVal → Option PyVal
  | list xs => (sortKeysItems xs).map list
  | tuple xs => (sortKeysItems xs).map tuple
  | dict kvs => ((sortKeysEntries kvs).bind sortedItems).map dict
  | none => some none
  | bool b => some (bool b)
  | int i => some (int i)
  | float bits => some (float bits)
  | str s => some (str s)

def sortKeysItems : List PyVal → Option (List PyVal)
  | [] => some []
  | x :: xs => (sortKeys x).bind fun y => (sortKeysItems xs).map (y :: ·)

def sortKeysEntries : List (PyKey × PyVal) → Option (List (PyKey × PyVal))
  | [] => some []
  | (k, v) :: kvs => (sortKeys v).bind fun w => (sortKeysEntries kvs).map ((k, w) :: ·)

end

/-- `canonical_json`; `none` is `TypeError`. -/
def canonicalJson (h : Host) (v : PyVal) : Option String := v.sortKeys.map (dumps h false)

def argsHash (h : Host) (v : PyVal) : Option String :=
  (v.canonicalJson h).map fun text => h.sha256Hex (utf8 text)

end PyVal

end Sigil
