import Sigil.Library.Dialogue
import Sigil.Redaction

/-! # What a governed call asks of the world around it

The SDK is modelled as dialogues. A `Question` is an operation whose outcome the SDK does not
control: reading the registry the subscriber thread writes, the clocks, an HTTP request, waiting,
recording an audit event, calling the wrapped function. `V` is the type of values wrapped functions
return and `X` that of the exceptions they raise.
-/
set_option autoImplicit false

namespace Sigil

open PyVal (dict)

/-! ## Requests -/

inductive Method where
  | get
  | post
  deriving DecidableEq, Repr

inductive Route where
  | issueToken
  | preflight
  | approval (approvalId : String)
  | redeem (approvalId : String)
  | logBatch
  deriving DecidableEq, Repr

def hexUpper (n : ℕ) : Char := (hexDigit n).toUpper

/-- `quote(s, safe="")` -/
def quoteUrl (s : String) : String :=
  String.ofList ((utf8 s).flatMap fun b =>
    let c := Char.ofNat b.toNat
    if c.isAlphanum ∨ c ∈ ['_', '.', '-', '~'] then [c]
    else ['%', hexUpper (b.toNat / 16), hexUpper b.toNat])

/-- The path as the client builds it. `requests` removes dot segments before it sends a path. -/
def Route.path : Route → String
  | issueToken => "/internal/v1/sigil/tokens/issue"
  | preflight => "/internal/v1/sigil/toolgate/preflight"
  | approval id => "/internal/v1/sigil/toolgate/approval/" ++ quoteUrl id
  | redeem id => "/internal/v1/sigil/toolgate/approval/" ++ quoteUrl id ++ "/redeem"
  | logBatch => "/internal/v1/sigil/toolgate/log-batch"

structure Request where
  method : Method
  baseUrl : String
  route : Route
  headers : List (String × String)
  body : Option PyVal
  timeout : Seconds

def Request.url (r : Request) : String := r.baseUrl ++ r.route.path

/-- What `requests` makes of a request: an exception, or a response, whose body may not be JSON. -/
inductive HttpAnswer where
  | raised
  | response (status : ℤ) (body : Option PyVal)

/-- The JSON body of a response of the expected status. -/
def HttpAnswer.json? (expected : ℤ) : HttpAnswer → Option PyVal
  | .response status (some v) => if status = expected then some v else none
  | _ => none

/-! ## Questions -/

/-- How a wrapper runs: blocking, or on the event loop. -/
inductive Mode where
  | sync
  | async
  deriving DecidableEq, Repr

inductive Question where
  | isRevoked (agentId taskId : String)
  | isKillSwitchHealthy
  /-- `datetime.now(tz=timezone.utc)` -/
  | utcNow
  | monotonic
  /-- `str(uuid.uuid4())` -/
  | uuid4
  | http (r : Request)
  /-- `time.sleep(s)` or `await asyncio.sleep(s)`, which may raise. -/
  | sleep (mode : Mode) (seconds : ℚ)
  | push (event : PyVal)
  /-- `client._overflow.write(event)` -/
  | overflowWrite (event : PyVal)
  /-- `fn(*args, **kwargs)`, awaited by an async wrapper -/
  | execute (mode : Mode) (call : CallArgs)

abbrev Answer (V X : Type) : Question → Type
  | .isRevoked _ _ => Bool
  | .isKillSwitchHealthy => Bool
  | .utcNow => DateTime
  | .monotonic => ℚ
  | .uuid4 => String
  | .http _ => HttpAnswer
  | .sleep _ _ => Except PyError Unit
  | .push _ => Unit
  | .overflowWrite _ => Unit
  | .execute _ _ => Except X V

/-! ## Exceptions -/

/-- `SigilDeniedError`, or its subclass `SigilUnreachableDeniedError`. -/
structure Denied where
  message : String
  deniedReason : PyVal
  toolName : String
  taskId : String
  unreachable : Bool := false

inductive Exc (X : Type) where
  | denied (d : Denied)
  /-- `SigilTransportError` -/
  | transport (message : String) (method : Method) (url : String)
  /-- `SigilAPIError` -/
  | api (message : String) (statusCode : ℤ)
  | py (e : PyError)
  /-- An exception of the wrapped function. -/
  | raised (x : X)

/-- Is it a `SigilTransportError` or a `SigilAPIError`? -/
def Exc.isUnreachable {X : Type} : Exc X → Bool
  | transport _ _ _ | api _ _ => true
  | _ => false

abbrev Call (V X α : Type) : Type := Dialogue Question (Answer V X) (Exc X) α

abbrev CallEvent (V X : Type) : Type := Dialogue.Event Question (Answer V X)

section Operations

variable {V X : Type}

abbrev isRevoked (agentId taskId : String) : Call V X Bool :=
  Dialogue.query (Question.isRevoked agentId taskId)

abbrev isKillSwitchHealthy : Call V X Bool := Dialogue.query Question.isKillSwitchHealthy

abbrev utcNow : Call V X DateTime := Dialogue.query Question.utcNow

abbrev monotonic : Call V X ℚ := Dialogue.query Question.monotonic

abbrev uuid4 : Call V X String := Dialogue.query Question.uuid4

abbrev request (r : Request) : Call V X HttpAnswer := Dialogue.query (Question.http r)

abbrev push (event : PyVal) : Call V X Unit := Dialogue.query (Question.push event)

abbrev overflowWrite (event : PyVal) : Call V X Unit := Dialogue.query (Question.overflowWrite event)

abbrev callFunction (mode : Mode) (call : CallArgs) : Call V X (Except X V) :=
  Dialogue.query (Question.execute mode call)

def liftPy {α : Type} (r : Except PyError α) : Call V X α :=
  match r with
  | .ok a => .done a
  | .error e => .fail (.py e)

def sleep (mode : Mode) (seconds : ℚ) : Call V X Unit :=
  Dialogue.query (Question.sleep mode seconds) >>= liftPy

end Operations

end Sigil
