import Sigil.Python.Text

/-! # Redacted arguments and prompt entropy

What an instrumented LLM call adds to its audit event: the arguments with every string passed
through the classifier pipeline, and the entropy of the prompt. The pipeline is a parameter here,
partial because it may raise.
-/
set_option autoImplicit false

namespace Sigil

section Redact

variable (redactStr : String → Option String)

mutual

/-- `redact`: dictionaries and lists are traversed, everything but strings passes through. -/
def redact : PyVal → Option PyVal
  | .str s => (redactStr s).map .str
  | .dict kvs => (redactEntries kvs).map .dict
  | .list xs => (redactItems xs).map .list
  | .none => some .none
  | .bool b => some (.bool b)
  | .int i => some (.int i)
  | .float bits => some (.float bits)
  | .tuple xs => some (.tuple xs)

def redactItems : List PyVal → Option (List PyVal)
  | [] => some []
  | x :: xs => (redact x).bind fun y => (redactItems xs).map (y :: ·)

def redactEntries : List (PyKey × PyVal) → Option (List (PyKey × PyVal))
  | [] => some []
  | (k, v) :: kvs => (redact v).bind fun w => (redactEntries kvs).map ((k, w) :: ·)

end

/-- `redact_safe` on a dictionary: if redaction raises, its own string values are blanked. -/
def redactSafe (kvs : List (PyKey × PyVal)) : PyVal :=
  match redact redactStr (.dict kvs) with
  | some v => v
  | none => .dict (kvs.map fun kv => match kv.2 with
    | .str _ => (kv.1, .str "<REDACTED>")
    | v => (kv.1, v))

end Redact

/-- The positional and keyword arguments of a call. -/
structure CallArgs where
  args : List PyVal
  kwargs : List (String × PyVal)

/-- The items of `_raw_args`. -/
def CallArgs.rawItems (a : CallArgs) : List (PyKey × PyVal) :=
  [(.str "args", .list a.args), (.str "kwargs", .dict (a.kwargs.map fun kv => (.str kv.1, kv.2)))]

/-- `_raw_args` -/
def CallArgs.raw (a : CallArgs) : PyVal := .dict a.rawItems

/-- The `"content"` strings of a messages list, one a line. -/
def joinContents (msgs : List PyVal) : String :=
  "\n".intercalate (msgs.filterMap fun
    | .dict kvs => match kvs.lookup (.str "content") with
      | some (.str c) => some c
      | _ => none
    | _ => none)

/-- The first of the keyword arguments `names` that is a string. -/
def firstStrArg (kwargs : List (String × PyVal)) (names : List String) : Option String :=
  names.findSome? fun name => match kwargs.lookup name with
    | some (.str s) => some s
    | _ => none

def extractPrompt (a : CallArgs) : String :=
  match a.args with
  | .str s :: _ => s
  | .list msgs :: _ => joinContents msgs
  | _ => match firstStrArg a.kwargs ["prompt", "input", "content"] with
    | some s => s
    | none => match a.kwargs.lookup "messages" with
      | some (.list msgs) => joinContents msgs
      | _ => ""

/-- How often each character occurs, in the order of first occurrence. -/
def charCounts (cs : List Char) : List ℕ :=
  (cs.foldl (fun seen c => if c ∈ seen then seen else seen ++ [c]) []).map fun c => cs.count c

def shannonEntropy (h : Host) (text : String) : UInt64 :=
  let stripped := strip text.toList
  if stripped = [] then 0 else h.entropyOf (charCounts stripped) stripped.length

end Sigil
