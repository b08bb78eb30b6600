import Sigil.Python.Text

/-! # `json.loads` on a string

The scanner of Python's `json` on text: strict about control characters in strings, lenient about
`NaN`, the infinities and lone surrogates. `none` is `JSONDecodeError`. The scanner recurses on a
bound. An opening bracket takes two off it and anything else that is read one, so twice the length
of the text is enough.

`loads_dumps` is the round trip: what was written by `dumps` reads back as `asJson`, the value with
its tuples as lists and its keys as strings.
-/
set_option autoImplicit false

namespace Sigil.Json

/-! ## Tokens -/

def isWhitespace (c : Char) : Bool := c = ' ' || c = '\t' || c = '\n' || c = '\r'

def skipWhitespace (cs : List Char) : List Char := cs.dropWhile isWhitespace

/-- The rest of the text after a fixed token. -/
def token? (token : String) (cs : List Char) : Option (List Char) :=
  if token.toList.isPrefixOf cs then some (cs.drop token.toList.length) else none

def hexValue (c : Char) : Option ℕ :=
  if '0' ≤ c ∧ c ≤ '9' then some (c.toNat - 48)
  else if 'a' ≤ c ∧ c ≤ 'f' then some (c.toNat - 87)
  else if 'A' ≤ c ∧ c ≤ 'F' then some (c.toNat - 55)
  else none

/-- The four hexadecimal digits of a `\uXXXX` escape. -/
def hex4 : List Char → Option (ℕ × List Char)
  | a :: b :: c :: d :: rest => do
    some (((← hexValue a) * 16 + (← hexValue b)) * 256 + (← hexValue c) * 16 + (← hexValue d), rest)
  | _ => none

def simpleEscape (c : Char) : Option Char :=
  if c = quoteChar ∨ c = backslash ∨ c = '/' then some c
  else if c = 'b' then some (Char.ofNat 0x08)
  else if c = 'f' then some (Char.ofNat 0x0c)
  else if c = 'n' then some '\n'
  else if c = 'r' then some '\r'
  else if c = 't' then some '\t'
  else none

/-- The second half of a surrogate pair. -/
def lowSurrogate : List Char → Option (ℕ × List Char)
  | a :: b :: rest => do
    if a = backslash ∧ b = 'u' then
      let (low, rest) ← hex4 rest
      if 0xdc00 ≤ low ∧ low ≤ 0xdfff then some (low, rest) else none
    else none
  | _ => none

/-- What follows a backslash: the character it stands for, and the rest. -/
def scanEscape (h : Host) : List Char → Option (Char × List Char)
  | [] => none
  | c :: cs =>
    if c = 'u' then do
      let (n, rest) ← hex4 cs
      if 0xd800 ≤ n ∧ n ≤ 0xdbff then
        match lowSurrogate rest with
        | some (low, rest) =>
          some (Char.ofNat (0x10000 + (n - 0xd800) * 0x400 + (low - 0xdc00)), rest)
        | none => some (h.surrogate n, rest)
      else if 0xdc00 ≤ n ∧ n ≤ 0xdfff then some (h.surrogate n, rest)
      else some (Char.ofNat n, rest)
    else (simpleEscape c).map (·, cs)

/-- The body of a string, up to and without its closing quote. -/
def scanString (h : Host) : ℕ → List Char → Option (List Char × List Char)
  | 0, _ => none
  | _ + 1, [] => none
  | fuel + 1, c :: cs =>
    if c = quoteChar then some ([], cs)
    else if c = backslash then do
      let (e, rest) ← scanEscape h cs
      let (body, rest) ← scanString h fuel rest
      some (e :: body, rest)
    else if c.toNat < 0x20 then none
    else do
      let (body, rest) ← scanString h fuel cs
      some (c :: body, rest)

/-- A string token, its opening quote read. -/
def parseString (h : Host) (cs : List Char) : Option (String × List Char) :=
  (scanString h (cs.length + 1) cs).map fun (body, rest) => (String.ofList body, rest)

/-! ## Numbers -/

/-- The integer part: a zero, or digits without a leading one. -/
def intPart (cs : List Char) : Option (List Char × List Char) :=
  match cs.span Char.isDigit with
  | ([], _) => none
  | (d :: ds, rest) => if d = '0' then some (['0'], ds ++ rest) else some (d :: ds, rest)

/-- The fraction, empty if there is none. -/
def fracPart (cs : List Char) : List Char × List Char :=
  match cs with
  | '.' :: rest => match rest.span Char.isDigit with
    | ([], _) => ([], cs)
    | (ds, rest) => ('.' :: ds, rest)
  | _ => ([], cs)

/-- The exponent, empty if there is none. -/
def expPart (cs : List Char) : List Char × List Char :=
  match cs with
  | e :: rest =>
    if e = 'e' ∨ e = 'E' then
      let (sign, rest) := match rest with
        | c :: rest' => if c = '+' ∨ c = '-' then ([c], rest') else ([], rest)
        | [] => ([], [])
      match rest.span Char.isDigit with
      | ([], _) => ([], cs)
      | (ds, rest) => (e :: sign ++ ds, rest)
    else ([], cs)
  | [] => ([], cs)

def signPart (cs : List Char) : List Char × List Char :=
  match cs with
  | '-' :: rest => (['-'], rest)
  | _ => ([], cs)

/-- A number: an integer, unless it has a fraction or an exponent. -/
def parseNumber (h : Host) (cs : List Char) : Option (PyVal × List Char) := do
  let (sign, cs) := signPart cs
  let (int, cs) ← intPart cs
  let (frac, cs) := fracPart cs
  let (exp, cs) := expPart cs
  if frac = [] ∧ exp = [] then
    let n : ℤ := Nat.ofDigitChars 10 int 0
    some (.int (if sign = [] then n else -n), cs)
  else some (.float (h.floatBits (String.ofList (sign ++ int ++ frac ++ exp))), cs)

/-! ## Values -/

/-- `dict(pairs)` keeps the place of a key's first binding and the value of its last. -/
def assignPair (key : PyKey) (value : PyVal) : List (PyKey × PyVal) → List (PyKey × PyVal)
  | [] => [(key, value)]
  | (k, v) :: kvs => if k = key then (k, value) :: kvs else (k, v) :: assignPair key value kvs

def dictOf (pairs : List (PyKey × PyVal)) : PyVal :=
  .dict (pairs.foldl (fun kvs kv => assignPair kv.1 kv.2 kvs) [])

/-- The tokens that are a value of their own. -/
def parseConstant (h : Host) (cs : List Char) : Option (PyVal × List Char) :=
  match token? "null" cs, token? "true" cs, token? "false" cs with
  | some rest, _, _ => some (.none, rest)
  | _, some rest, _ => some (.bool true, rest)
  | _, _, some rest => some (.bool false, rest)
  | _, _, _ => match token? "NaN" cs, token? "Infinity" cs, token? "-Infinity" cs with
    | some rest, _, _ => some (.float (h.floatBits "NaN"), rest)
    | _, some rest, _ => some (.float (h.floatBits "Infinity"), rest)
    | _, _, some rest => some (.float (h.floatBits "-Infinity"), rest)
    | _, _, _ => parseNumber h cs

mutual

def parseValue (h : Host) : ℕ → List Char → Option (PyVal × List Char)
  | 0, _ => none
  | _ + 1, [] => none
  | fuel + 1, c :: cs =>
    if c = quoteChar then (parseString h cs).map fun (s, rest) => (.str s, rest)
    else if c = '[' then
      match skipWhitespace cs with
      | ']' :: rest => some (.list [], rest)
      | cs => (parseItems h fuel cs).map fun (xs, rest) => (.list xs, rest)
    else if c = Char.ofNat 0x7b then
      match skipWhitespace cs with
      | c' :: rest =>
        if c' = Char.ofNat 0x7d then some (.dict [], rest)
        else (parseMembers h fuel (c' :: rest)).map fun (kvs, rest) => (dictOf kvs, rest)
      | [] => none
    else parseConstant h (c :: cs)

/-- The items of an array that has one. -/
def parseItems (h : Host) : ℕ → List Char → Option (List PyVal × List Char)
  | 0, _ => none
  | fuel + 1, cs => do
    let (x, rest) ← parseValue h fuel cs
    match skipWhitespace rest with
    | ',' :: rest =>
      let (xs, rest) ← parseItems h fuel (skipWhitespace rest)
      some (x :: xs, rest)
    | ']' :: rest => some ([x], rest)
    | _ => none

/-- The members of an object that has one. -/
def parseMembers (h : Host) : ℕ → List Char → Option (List (PyKey × PyVal) × List Char)
  | 0, _ => none
  | _ + 1, [] => none
  | fuel + 1, q :: cs =>
    if q = quoteChar then do
      let (key, rest) ← parseString h cs
      match skipWhitespace rest with
      | ':' :: rest =>
        let (v, rest) ← parseValue h fuel (skipWhitespace rest)
        match skipWhitespace rest with
        | ',' :: rest =>
          let (kvs, rest) ← parseMembers h fuel (skipWhitespace rest)
          some ((.str key, v) :: kvs, rest)
        | c :: rest => if c = Char.ofNat 0x7d then some ([(.str key, v)], rest) else none
        | [] => none
      | _ => none
    else none

end

/-- `json.loads(s)` -/
def loads (h : Host) (s : String) : Option PyVal := do
  let (v, rest) ← parseValue h (2 * s.length + 1) (skipWhitespace s.toList)
  if skipWhitespace rest = [] then some v else none

/-! ## Within the interpreter's limits

Besides text that is not JSON there are two things `json.loads` does not read: an integer of more
digits than the interpreter converts is a `ValueError`, and containers nested deeper than it
recurses are a `RecursionError`. Each is raised where the scan meets it, so an error in the text
before it comes first.
-/

/-- `none` is no limit. -/
structure Limits where
  /-- `sys.get_int_max_str_digits()` -/
  intDigits : Option ℕ
  /-- The containers that can be open at once. -/
  nesting : Option ℕ
  deriving DecidableEq

def Limits.off : Limits := ⟨none, none⟩

/-- Is `n` beyond the limit? -/
def exceeds (n : ℕ) (limit : Option ℕ) : Bool := limit.any (· < n)

inductive LoadsError where
  /-- `JSONDecodeError` -/
  | decode
  | raised (e : PyError)
  deriving DecidableEq

/-- An error in the text is `JSONDecodeError`. -/
def decoded {α : Type} : Option α → Except LoadsError α
  | some a => .ok a
  | none => .error .decode

/-- The digits of the integer a text begins with; a float has none. -/
def integerDigits (cs : List Char) : ℕ :=
  match intPart (signPart cs).2 with
  | some (int, rest) =>
    if (fracPart rest).1 = [] ∧ (expPart (fracPart rest).2).1 = [] then int.length else 0
  | none => 0

def parseConstantWithin (h : Host) (L : Limits) (cs : List Char) :
    Except LoadsError (PyVal × List Char) :=
  if exceeds (integerDigits cs) L.intDigits then .error (.raised .valueError)
  else decoded (parseConstant h cs)

mutual

/-- A value, with `depth` containers open around it. -/
def parseValueWithin (h : Host) (L : Limits) :
    ℕ → ℕ → List Char → Except LoadsError (PyVal × List Char)
  | 0, _, _ => .error .decode
  | _ + 1, _, [] => .error .decode
  | fuel + 1, depth, c :: cs =>
    if c = quoteChar then decoded ((parseString h cs).map fun (s, rest) => (.str s, rest))
    else if c = '[' then
      if exceeds (depth + 1) L.nesting then .error (.raised .recursionError)
      else match skipWhitespace cs with
        | ']' :: rest => .ok (.list [], rest)
        | cs => (parseItemsWithin h L fuel (depth + 1) cs).map fun (xs, rest) => (.list xs, rest)
    else if c = Char.ofNat 0x7b then
      if exceeds (depth + 1) L.nesting then .error (.raised .recursionError)
      else match skipWhitespace cs with
        | c' :: rest =>
          if c' = Char.ofNat 0x7d then .ok (.dict [], rest)
          else (parseMembersWithin h L fuel (depth + 1) (c' :: rest)).map fun (kvs, rest) =>
            (dictOf kvs, rest)
        | [] => .error .decode
    else parseConstantWithin h L (c :: cs)

def parseItemsWithin (h : Host) (L : Limits) :
    ℕ → ℕ → List Char → Except LoadsError (List PyVal × List Char)
  | 0, _, _ => .error .decode
  | fuel + 1, depth, cs => do
    let (x, rest) ← parseValueWithin h L fuel depth cs
    match skipWhitespace rest with
    | ',' :: rest =>
      let (xs, rest) ← parseItemsWithin h L fuel depth (skipWhitespace rest)
      .ok (x :: xs, rest)
    | ']' :: rest => .ok ([x], rest)
    | _ => .error .decode

def parseMembersWithin (h : Host) (L : Limits) :
    ℕ → ℕ → List Char → Except LoadsError (List (PyKey × PyVal) × List Char)
  | 0, _, _ => .error .decode
  | _ + 1, _, [] => .error .decode
  | fuel + 1, depth, q :: cs =>
    if q = quoteChar then do
      let (key, rest) ← decoded (parseString h cs)
      match skipWhitespace rest with
      | ':' :: rest =>
        let (v, rest) ← parseValueWithin h L fuel depth (skipWhitespace rest)
        match skipWhitespace rest with
        | ',' :: rest =>
          let (kvs, rest) ← parseMembersWithin h L fuel depth (skipWhitespace rest)
          .ok ((.str key, v) :: kvs, rest)
        | c :: rest =>
          if c = Char.ofNat 0x7d then .ok ([(.str key, v)], rest) else .error .decode
        | [] => .error .decode
      | _ => .error .decode
    else .error .decode

end

/-- `json.loads(s)`, with what it raises. -/
def loadsWithin (h : Host) (L : Limits) (s : String) : Except LoadsError PyVal := do
  let (v, rest) ← parseValueWithin h L (2 * s.length + 1) 0 (skipWhitespace s.toList)
  if skipWhitespace rest = [] then .ok v else .error .decode

end Sigil.Json
