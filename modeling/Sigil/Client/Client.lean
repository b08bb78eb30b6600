import Sigil.Client.Wire
import Sigil.Revocation.Subscriber
import Sigil.Verify.Local

/-! # The client

`SigilClient` is the configuration a constructed client holds; the checks of `__init__` are fields,
so a client with a non-positive poll interval or without a service token cannot be built. Its
subscriber, buffer and overflow writer are state, and are modelled apart. The endpoints share one
request function, `send`.
-/
set_option autoImplicit false

namespace Sigil

open Verify (Keyring VerifyResult verifyLocal)
open Revocation (RevocationSubscriber)

/-! ## Configuration -/

inductive FailMode where
  | closed
  | opened
  deriving DecidableEq, Repr

def FailMode.ofString (s : String) : Except PyError FailMode :=
  if s = "closed" then .ok .closed else if s = "open" then .ok .opened else .error .valueError

structure ClientArgs where
  baseUrl : Option String := none
  internalToken : Option String := none
  serviceAccount : Option String := none
  tenantId : Option String := none
  agentId : Option String := none
  serviceAccountId : Option String := none
  failMode : Option String := none
  killSwitchFailMode : Option String := none
  biscuitKeyring : Option Keyring := none
  activeKid : Option String := none
  timeout : Seconds := .finite 5
  approvalTimeout : Seconds := .finite 300
  approvalPollInterval : Seconds := .finite 2

abbrev Environ : Type := String → Option String

structure SigilClient where
  baseUrl : String
  internalToken : String
  internalToken_ne : internalToken ≠ ""
  serviceAccount : String
  tenantId : String
  agentId : String
  serviceAccountId : String
  failMode : FailMode
  killSwitchFailMode : FailMode
  timeout : Seconds
  approvalTimeout : ℚ
  approvalTimeout_pos : 0 < approvalTimeout
  approvalPollInterval : ℚ
  approvalPollInterval_pos : 0 < approvalPollInterval
  biscuitKeyring : Keyring
  activeKid : String
  redisUrlConfigured : Bool

/-- The entries of `SIGIL_BISCUIT_PUBKEYS`, up to the first that does not decode. -/
def fillKeyring : Keyring → List (PyKey × PyVal) → Keyring
  | keyring, (.str kid, .str b64Key) :: entries => match b64decode b64Key.toList with
    | some key => fillKeyring (keyring.assign kid key) entries
    | none => keyring
  | keyring, _ => keyring

/-- `json.loads` on a string: as on its bytes, except that a byte order mark is refused. -/
def loadsText (h : Host) (s : String) : Option PyVal :=
  if s.toList.head? = some (Char.ofNat 0xfeff) then none else h.jsonLoads (utf8 s)

def parseBiscuitKeyring (h : Host) (environ : Environ) : Keyring :=
  let pubkeysJson := (environ "SIGIL_BISCUIT_PUBKEYS").getD ""
  let keyring := if pubkeysJson = "" then OrderedDict.empty
    else match loadsText h pubkeysJson with
      | some (.dict entries) => fillKeyring OrderedDict.empty entries
      | _ => OrderedDict.empty
  let singleKey := (environ "SIGIL_BISCUIT_PUBKEY").getD ""
  let singleKid := (environ "SIGIL_BISCUIT_KID").getD ""
  if singleKey ≠ "" ∧ singleKid ≠ "" ∧ singleKid ∉ keyring.keys then
    match b64decode singleKey.toList with
    | some key => keyring.assign singleKid key
    | none => keyring
  else keyring

/-- `s.rstrip("/")` -/
def rstripSlash (s : String) : String :=
  String.ofList (s.toList.reverse.dropWhile (· = '/')).reverse

/-- `float(arg if os.environ.get(var) is None else os.environ[var])` -/
def floatSetting (h : Host) (environ : Environ) (var : String) (arg : Seconds) :
    Except PyError Seconds :=
  match environ var with
  | none => .ok arg
  | some text => match h.parseFloat text with
    | some s => .ok s
    | none => .error .valueError

namespace SigilClient

def init (h : Host) (a : ClientArgs) (environ : Environ) : Except PyError SigilClient := do
  let setting (arg : Option String) (var default : String) := strOr arg (strOr (environ var) default)
  let internalToken := setting a.internalToken "SIGIL_SDK_TOKEN" ""
  let approvalTimeout ← floatSetting h environ "SIGIL_APPROVAL_TIMEOUT" a.approvalTimeout
  let pollInterval ← floatSetting h environ "SIGIL_APPROVAL_POLL_INTERVAL" a.approvalPollInterval
  let failMode ← FailMode.ofString (setting a.failMode "SIGIL_FAIL_MODE" "closed")
  let killSwitchFailMode ←
    FailMode.ofString (setting a.killSwitchFailMode "SIGIL_KILL_SWITCH_FAIL_MODE" "open")
  match approvalTimeout, pollInterval with
  | .finite t, .finite i =>
    if ht : 0 < t then
      if hi : 0 < i then
        if htok : internalToken ≠ "" then
          .ok {
            baseUrl := rstripSlash (setting a.baseUrl "SIGIL_CORE_URL" "http://sigil-core:8120")
            internalToken := internalToken
            internalToken_ne := htok
            serviceAccount := setting a.serviceAccount "SIGIL_SERVICE_ACCOUNT" "sigil-python-sdk"
            tenantId := setting a.tenantId "SIGIL_TENANT_ID" ""
            agentId := setting a.agentId "SIGIL_AGENT_ID" ""
            serviceAccountId := setting a.serviceAccountId "SIGIL_SERVICE_ACCOUNT_ID" ""
            failMode := failMode
            killSwitchFailMode := killSwitchFailMode
            timeout := a.timeout
            approvalTimeout := t
            approvalTimeout_pos := ht
            approvalPollInterval := i
            approvalPollInterval_pos := hi
            biscuitKeyring := a.biscuitKeyring.getD (parseBiscuitKeyring h environ)
            activeKid := setting a.activeKid "SIGIL_BISCUIT_ACTIVE_KID" ""
            redisUrlConfigured := decide ((environ "SIGIL_REDIS_URL").getD "" ≠ "") }
        else .error .valueError
      else .error .valueError
    else .error .valueError
  | _, _ => .error .valueError

/-! ## The kill-switch -/

/-- Is there a subscriber? A Redis URL without a tenant starts none. -/
def subscribed (c : SigilClient) : Bool := c.redisUrlConfigured && decide (c.tenantId ≠ "")

def subscriber (c : SigilClient) : RevocationSubscriber := .init c.tenantId c.agentId

/-- `is_revoked`, with the subscriber in the state `sub`. -/
def isRevoked (c : SigilClient) (sub : RevocationSubscriber) (agentId taskId : String) : Bool :=
  c.subscribed && sub.isRevoked agentId (some taskId)

/-- `is_kill_switch_healthy`, with the subscriber connected or not. -/
def isKillSwitchHealthy (c : SigilClient) (connected : Bool) : Bool :=
  if c.subscribed then connected else !c.redisUrlConfigured

/-! ## Requests -/

def baseHeaders (c : SigilClient) : List (String × String) :=
  [("X-Internal-Service-Token", c.internalToken), ("X-Internal-Service-Account", c.serviceAccount),
    ("X-Tenant-ID", c.tenantId), ("Content-Type", "application/json")]

def toolgateHeaders (c : SigilClient) : List (String × String) :=
  if c.agentId = "" then c.baseHeaders else c.baseHeaders ++ [("X-Sigil-Agent-ID", c.agentId)]

variable {V X : Type}

/-- What every endpoint does with its answer: only a JSON response of the expected status returns. -/
def receive (name : String) (expected : ℤ) (r : Request) : HttpAnswer → Except (Exc X) PyVal
  | .raised =>
    .error (.transport (name ++ ": transport error reaching sigil-core") r.method r.url)
  | .response status body =>
    if status ≠ expected then
      .error (.api (name ++ ": expected " ++ toString expected ++ ", got " ++ toString status)
        status)
    else match body with
      | some v => .ok v
      | none => .error (.api
        (name ++ ": response body is not valid JSON (status=" ++ toString status ++ ")") status)

def send (name : String) (expected : ℤ) (r : Request) : Call V X PyVal := do
  Dialogue.ofExcept (receive name expected r (← request r))

def issueRequest (c : SigilClient) (agentId serviceAccountId taskId : String)
    (toolAllowlist : List String) (ttlSeconds : ℤ) (attenuationRoot : Option String) : Request where
  method := .post
  baseUrl := c.baseUrl
  route := .issueToken
  headers := c.baseHeaders
  body := some (.dict ([(.str "agent_id", .str agentId),
    (.str "service_account_id", .str serviceAccountId), (.str "task_id", .str taskId),
    (.str "tool_allowlist", .list (toolAllowlist.map .str)),
    (.str "ttl_seconds", .int ttlSeconds)] ++
    (attenuationRoot.map fun root => (.str "attenuation_root", .str root)).toList))
  timeout := c.timeout

def issueToken (c : SigilClient) (agentId serviceAccountId taskId : String)
    (toolAllowlist : List String) (ttlSeconds : ℤ) (attenuationRoot : Option String) :
    Call V X PyVal :=
  send "issue_token" 201
    (c.issueRequest agentId serviceAccountId taskId toolAllowlist ttlSeconds attenuationRoot)

def preflightRequest (c : SigilClient) (token : PyVal)
    (toolNamespace toolName argsHash agentId taskId : String) : Request where
  method := .post
  baseUrl := c.baseUrl
  route := .preflight
  headers := c.toolgateHeaders
  body :=
    let effectiveAgentId := if agentId = "" then c.agentId else agentId
    some (.dict ([(.str "token", token), (.str "tool_namespace", .str toolNamespace),
      (.str "tool_name", .str toolName), (.str "args_hash", .str argsHash)] ++
      (if effectiveAgentId = "" then [] else [(.str "agent_id", .str effectiveAgentId)]) ++
      (if taskId = "" then [] else [(.str "task_id", .str taskId)])))
  timeout := c.timeout

def preflight (c : SigilClient) (token : PyVal)
    (toolNamespace toolName argsHash agentId taskId : String) : Call V X PyVal :=
  send "preflight" 200 (c.preflightRequest token toolNamespace toolName argsHash agentId taskId)

def approvalRequest (c : SigilClient) (approvalId : String) : Request where
  method := .get
  baseUrl := c.baseUrl
  route := .approval approvalId
  headers := c.toolgateHeaders
  body := none
  timeout := c.timeout

/-- `str(result.get(field) or "")`; an empty text is the API error `missing`. -/
def textField (h : Host) (field missing : String) (result : PyVal) : Except (Exc X) String :=
  match result.get field with
  | .error e => .error (.py e)
  | .ok v =>
    if (v.orElse (.str "")).toStr h = "" then .error (.api missing 200)
    else .ok ((v.orElse (.str "")).toStr h)

def approvalStatus (h : Host) (c : SigilClient) (approvalId : String) : Call V X String := do
  let result ← send "approval_status" 200 (c.approvalRequest approvalId)
  Dialogue.ofExcept (textField h "status" "approval_status: response missing 'status' field" result)

def redeemRequest (c : SigilClient) (approvalId : String) (token : PyVal) : Request where
  method := .post
  baseUrl := c.baseUrl
  route := .redeem approvalId
  headers := c.toolgateHeaders
  body := some (.dict [(.str "token", token)])
  timeout := c.timeout

def redeemApproval (h : Host) (c : SigilClient) (approvalId : String) (token : PyVal) :
    Call V X PyVal := do
  let result ← send "redeem_approval" 200 (c.redeemRequest approvalId token)
  let _ ← Dialogue.ofExcept
    (textField h "revocation_id" "redeem_approval: response missing 'revocation_id'" result)
  pure result

def maxBatchSize : ℕ := 100

def logBatchRequest (c : SigilClient) (events : List PyVal) : Request where
  method := .post
  baseUrl := c.baseUrl
  route := .logBatch
  headers := c.toolgateHeaders
  body := some (.dict [(.str "events", .list events)])
  timeout := c.timeout

/-- `log_batch`, by what `requests` makes of its request. -/
def logBatch (c : SigilClient) (events : List PyVal) (answer : HttpAnswer) :
    Except (Exc X) PyVal :=
  if maxBatchSize < events.length then .error (.py .valueError)
  else receive "log_batch" 202 (c.logBatchRequest events) answer

end SigilClient

/-! ## Task contexts -/

structure SigilTaskContext where
  toolAllowlist : List String
  agentIdOverride : Option String
  serviceAccountIdOverride : Option String
  ttlSeconds : ℤ
  taskId : Option String := none
  biscuitToken : PyVal := .none
  effectiveTools : List String := []

/-- `s or None` -/
def orNone (s : String) : Option String := if s = "" then none else some s

/-- `verify_local` on the token of a task: only strings can be split. -/
def verifyToken (h : Host) (token : PyVal) (keyring : Keyring)
    (activeKid requiredTool expectedTenant : Option String) (utcNow : DateTime) :
    Except PyError VerifyResult :=
  match token with
  | .str t => verifyLocal h t keyring activeKid requiredTool expectedTenant none utcNow
  | _ => .error .attributeError

namespace SigilTaskContext

/-- The agent the task's token is issued for. -/
def issuedAgentId (c : SigilClient) (t : SigilTaskContext) : String :=
  strOr t.agentIdOverride c.agentId

/-- `__enter__`, up to making the context current. -/
def enter {V X : Type} (h : Host) (c : SigilClient) (t : SigilTaskContext) :
    Call V X SigilTaskContext := do
  let taskId ← uuid4
  let resp ← c.issueToken (issuedAgentId c t) (strOr t.serviceAccountIdOverride c.serviceAccountId)
    taskId t.toolAllowlist t.ttlSeconds none
  let biscuitToken ← liftPy (resp.getItem "biscuit_token")
  if c.biscuitKeyring.entries.isEmpty then
    pure { t with
      taskId := some taskId, biscuitToken := biscuitToken, effectiveTools := t.toolAllowlist }
  else
    let now ← utcNow
    let result ← liftPy
      (verifyToken h biscuitToken c.biscuitKeyring (orNone c.activeKid) none none now)
    pure { t with
      taskId := some taskId, biscuitToken := biscuitToken,
      effectiveTools := if result.ok then result.effectiveTools else t.effectiveTools }

end SigilTaskContext

end Sigil
