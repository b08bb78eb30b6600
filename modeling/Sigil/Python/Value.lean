import Mathlib.Data.Rat.Defs
import Mathlib.Data.List.Basic

/-! # Python data values and the host they run on

`PyVal` is the data the SDK moves between its callers, sigil-core and its audit trail: what
`json.loads` returns, and the argument values `json.dumps` accepts (so tuples and non-string
dictionary keys too). Floats are carried as their bit pattern and never computed with. Strings are
sequences of Unicode scalar values, so lone surrogates are not representable.

A dictionary is its list of items in insertion order; look-up takes the first binding.

`Host` collects what the SDK takes from outside its own files: the float formatter, the Unicode
tables, SHA-256, the JSON parser, ed25519 and `datetime.fromisoformat`.
-/
set_option autoImplicit false

namespace Sigil

inductive PyKey where
  | str (s : String)
  | int (i : ℤ)
  | bool (b : Bool)
  | none
  deriving DecidableEq, Repr

inductive PyVal where
  | none
  | bool (b : Bool)
  | int (i : ℤ)
  | float (bits : UInt64)
  | str (s : String)
  | list (xs : List PyVal)
  | tuple (xs : List PyVal)
  | dict (kvs : List (PyKey × PyVal))
  deriving Repr, Inhabited

/-- The built-in exceptions the modelled code can raise. -/
inductive PyError where
  | attributeError
  | keyError
  | overflowError
  | recursionError
  | typeError
  | valueError
  deriving DecidableEq, Repr

/-- What a computation in `do` notation returned, every step of it returned. -/
theorem bind_eq_ok {ε α β : Type} {x : Except ε α} {f : α → Except ε β} {b : β} :
    x >>= f = .ok b ↔ ∃ a, x = .ok a ∧ f a = .ok b := by
  cases x with
  | error e =>
    constructor
    · intro h
      cases h
    · rintro ⟨a, h, -⟩
      cases h
  | ok a =>
    constructor
    · exact fun h => ⟨a, rfl, h⟩
    · rintro ⟨a', h, hf⟩
      cases h
      exact hf

/-- A `datetime`: an instant in microseconds, in UTC when it carries an offset (`aware`), on the
local clock otherwise. -/
structure DateTime where
  aware : Bool
  instant : ℤ
  deriving DecidableEq, Repr

/-- `a < b`: a `datetime` with an offset does not compare with one without. -/
def DateTime.lt (a b : DateTime) : Except PyError Bool :=
  if a.aware = b.aware then .ok (decide (a.instant < b.instant)) else .error .typeError

def DateTime.Before (a b : DateTime) : Prop := a.aware = b.aware ∧ a.instant < b.instant

instance (a b : DateTime) : Decidable (a.Before b) :=
  inferInstanceAs (Decidable (a.aware = b.aware ∧ a.instant < b.instant))

def DateTime.Le (a b : DateTime) : Prop := a.aware = b.aware ∧ a.instant ≤ b.instant

theorem DateTime.lt_eq_ok_iff (a b : DateTime) (r : Bool) :
    a.lt b = .ok r ↔ a.aware = b.aware ∧ r = decide (a.instant < b.instant) := by
  unfold DateTime.lt
  split <;> simp_all [eq_comm]

/-- A Python `float` read as a duration. -/
inductive Seconds where
  | finite (q : ℚ)
  | notFinite
  deriving DecidableEq, Repr

structure Host where
  /-- `float.__repr__` -/
  reprFloat : UInt64 → String
  /-- `str.isprintable` on one character -/
  isPrintable : Char → Bool
  /-- `float(s)`; `none` is `ValueError` -/
  parseFloat : String → Option Seconds
  /-- `-sum((c / n) * math.log2(c / n) for c in counts)` in double precision -/
  entropyOf : List ℕ → ℕ → UInt64
  sha256Hex : List UInt8 → String
  /-- `json.loads` on bytes; `none` is `JSONDecodeError` or `UnicodeDecodeError` -/
  jsonLoads : List UInt8 → Option PyVal
  /-- `VerifyKey(key).verify(payload, sig)` raises nothing -/
  verifyKey : List UInt8 → List UInt8 → List UInt8 → Bool
  /-- `datetime.fromisoformat`; `none` is `ValueError` -/
  fromIsoFormat : String → Option DateTime
  /-- `float(s)` on the text of a JSON number, as bits -/
  floatBits : String → UInt64 := fun _ => 0
  /-- Stands for a lone surrogate, which the strings here cannot hold. -/
  surrogate : ℕ → Char := fun _ => Char.ofNat 0xfffd

/-! ## Truth and look-up -/

namespace PyVal

/-- `bool(v)`; both zeros are false. -/
def truthy : PyVal → Bool
  | none => false
  | bool b => b
  | int i => i != 0
  | float bits => bits != 0 && bits != 0x8000000000000000
  | str s => s != ""
  | list xs => !xs.isEmpty
  | tuple xs => !xs.isEmpty
  | dict kvs => !kvs.isEmpty

/-- `v or d` -/
def orElse (v d : PyVal) : PyVal := if v.truthy then v else d

/-- `v.get(k)`: only dictionaries have the method. -/
def get (v : PyVal) (k : String) : Except PyError PyVal :=
  match v with
  | dict kvs => .ok ((kvs.lookup (.str k)).getD none)
  | _ => .error .attributeError

/-- `v.get(k, d)` -/
def getD (v : PyVal) (k : String) (d : PyVal) : Except PyError PyVal :=
  match v with
  | dict kvs => .ok ((kvs.lookup (.str k)).getD d)
  | _ => .error .attributeError

/-- `v[k]` with a string key -/
def getItem (v : PyVal) (k : String) : Except PyError PyVal :=
  match v with
  | dict kvs => match kvs.lookup (.str k) with
    | some x => .ok x
    | Option.none => .error .keyError
  | _ => .error .typeError

def ofKey : PyKey → PyVal
  | .str s => str s
  | .int i => int i
  | .bool b => bool b
  | .none => none

/-- `iter(v)`, as `for x in v` sees it. -/
def iter : PyVal → Except PyError (List PyVal)
  | list xs => .ok xs
  | tuple xs => .ok xs
  | str s => .ok (s.toList.map fun c => str (String.singleton c))
  | dict kvs => .ok (kvs.map fun kv => ofKey kv.1)
  | _ => .error .typeError

/-- Is `v` the string `s`? (`v == s` for a string `s`) -/
def isStr (v : PyVal) (s : String) : Bool :=
  match v with
  | str t => t == s
  | _ => false

@[simp] theorem isStr_iff (v : PyVal) (s : String) : v.isStr s = true ↔ v = str s := by
  cases v <;> simp [isStr]

@[simp] theorem truthy_str (s : String) : (str s).truthy = true ↔ s ≠ "" := by simp [truthy]

@[simp] theorem truthy_none : none.truthy = false := rfl

@[simp] theorem get_dict (kvs : List (PyKey × PyVal)) (k : String) :
    (dict kvs).get k = .ok ((kvs.lookup (.str k)).getD none) := rfl

@[simp] theorem getD_dict (kvs : List (PyKey × PyVal)) (k : String) (d : PyVal) :
    (dict kvs).getD k d = .ok ((kvs.lookup (.str k)).getD d) := rfl

def isDict : PyVal → Bool
  | dict _ => true
  | _ => false

/-- `v is None` -/
def isNone : PyVal → Bool
  | none => true
  | _ => false

theorem get_eq_error_iff (v : PyVal) (k : String) (e : PyError) :
    v.get k = .error e ↔ v.isDict = false ∧ e = .attributeError := by
  cases v <;> simp [get, isDict, eq_comm]

end PyVal

/-- `s or d` for an optional string: absent and empty both fall through to `d`. -/
def strOr (s : Option String) (d : String) : String :=
  match s with
  | some s => if s = "" then d else s
  | none => d

end Sigil
