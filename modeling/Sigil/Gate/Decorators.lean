import Sigil.Client.Client
import Mathlib.Data.Rat.Floor

/-! # Governed calls

The decorators of `decorators.py`. A governed call passes the checks of `governanceCheck` one by
one, waits for a human when preflight asks for it, redeems the approval, and then executes the
wrapped function and records how it went. Each check either falls through or records a denial and
raises. The poll loop of the source has no bound; here it takes one, and is `spent` when it is used
up.
-/
set_option autoImplicit false

namespace Sigil.Gate

open Verify (VerifyResult)

/-! ## Tools and events -/

inductive RiskTier where
  | low
  | med
  | high
  | critical
  deriving DecidableEq, Repr

namespace RiskTier

/-- Membership in `_HIGH_RISK_TIERS`. -/
def isHighRisk : RiskTier → Bool
  | low | med => false
  | high | critical => true

def toString : RiskTier → String
  | low => "low"
  | med => "med"
  | high => "high"
  | critical => "critical"

end RiskTier

structure Tool where
  toolNamespace : String
  name : String
  riskTier : RiskTier
  deriving DecidableEq, Repr

/-- `tool_fqn` -/
def Tool.fqn (t : Tool) : String := t.toolNamespace ++ "." ++ t.name

/-- What every step of a governed call is told about it. -/
structure Governed where
  agentId : String
  taskId : String
  tool : Tool
  ah : String
  argsRedacted : Option PyVal

def makeEvent (g : Governed) (latencyMs : ℤ) (outcome : String) (deniedReason : Option PyVal)
    (failOpen : Bool) (approvalGrantId : Option String) (promptEntropy : UInt64) : PyVal :=
  .dict ([(.str "agent_id", .str g.agentId), (.str "task_id", .str g.taskId),
    (.str "tool_name", .str g.tool.fqn), (.str "tool_namespace", .str g.tool.toolNamespace),
    (.str "args_hash", .str g.ah), (.str "latency_ms", .int latencyMs),
    (.str "outcome", .str outcome), (.str "risk_tier", .str g.tool.riskTier.toString),
    (.str "prompt_entropy", .float promptEntropy)] ++
    (deniedReason.map fun r => (PyKey.str "denied_reason", r)).toList ++
    (g.argsRedacted.map fun a => (PyKey.str "args_redacted", a)).toList ++
    (if failOpen then [(.str "fail_open", .bool true)] else []) ++
    ((approvalGrantId.filter (· ≠ "")).map
      fun id => (PyKey.str "approval_grant_id", .str id)).toList)

def deniedEvent (g : Governed) (reason : Option PyVal) : PyVal :=
  makeEvent g 0 "denied" reason false none 0

variable {V X α : Type}

def Governed.denied (g : Governed) (reason : PyVal) (message : String) : Denied where
  message := message
  deniedReason := reason
  toolName := g.tool.fqn
  taskId := g.taskId

/-- Record a denial and raise `SigilDeniedError`. -/
def deny (g : Governed) (reason : PyVal) (message : String) : Call V X α := do
  push (deniedEvent g (some reason))
  .fail (.denied (g.denied reason message))

/-! ## The governance check -/

/-- Step 2: revocation. -/
def checkRevoked (g : Governed) : Call V X Unit := do
  let revoked ← isRevoked g.agentId g.taskId
  if revoked then
    deny g (.str "agent_revoked")
      ("Agent or task is revoked; call to '" ++ g.tool.fqn ++ "' denied")
  else pure ()

/-- Step 2b: a degraded kill-switch denies when so configured. -/
def checkKillSwitch (c : SigilClient) (g : Governed) : Call V X Unit :=
  match c.killSwitchFailMode with
  | .opened => pure ()
  | .closed => do
    let healthy ← isKillSwitchHealthy
    if healthy then pure ()
    else deny g (.str "kill_switch_degraded") ("Kill-switch degraded; call to '" ++ g.tool.fqn ++
      "' denied (kill_switch_fail_mode=closed)")

/-- `verify_local` as a governed call makes it. -/
def verifyTask (h : Host) (c : SigilClient) (token : PyVal) (tool : Tool) (utcNow : DateTime) :
    Except PyError VerifyResult :=
  verifyToken h token c.biscuitKeyring (orNone c.activeKid) (some tool.fqn) (orNone c.tenantId)
    utcNow

def checkVerified (h : Host) (c : SigilClient) (token : PyVal) (g : Governed) : Call V X Unit := do
  let now ← utcNow
  let vr ← liftPy (verifyTask h c token g.tool now)
  if vr.ok then pure ()
  else do
    push (deniedEvent g (vr.reason.map .str))
    .fail (.denied (g.denied (.str (strOr vr.reason "token_invalid"))
      ("Local verify denied '" ++ g.tool.fqn ++ "': " ++ vr.reason.getD "None")))

/-- Step 3: local verification. A task without a token raises and records nothing. -/
def checkToken (h : Host) (c : SigilClient) (task : SigilTaskContext) (g : Governed) :
    Call V X Unit :=
  if task.biscuitToken.isNone then
    .fail (.denied (g.denied (.str "token_invalid")
      "Task context has no biscuit token (was __enter__ called?)"))
  else checkVerified h c task.biscuitToken g

def handlePreflightUnreachable (c : SigilClient) (g : Governed) : Call V X Bool :=
  match c.failMode with
  | .closed => do
    overflowWrite (deniedEvent g (some (.str "sigil_unreachable")))
    .fail (.denied { g.denied (.str "sigil_unreachable") ("sigil-core unreachable during preflight " ++
      "for '" ++ g.tool.fqn ++ "' (fail_mode=closed)") with unreachable := true })
  | .opened => pure true

/-- What a preflight verdict means: deny, wait for an approval, or fall through. -/
def judgeVerdict (h : Host) (g : Governed) (verdict : PyVal) : Call V X (Bool × Option String) := do
  let v := (← liftPy (verdict.get "verdict")).orElse (.str "deny")
  if v.isStr "deny" then do
    let reason := (← liftPy (verdict.get "denied_reason")).orElse (.str "policy_deny")
    deny g reason ("Preflight denied '" ++ g.tool.fqn ++ "': " ++ reason.toStr h)
  else if v.isStr "approve" then do
    let approvalId ← liftPy (verdict.get "approval_id")
    if approvalId.truthy then pure (false, some (approvalId.toStr h))
    else deny g (.str "approval_service_unavailable") ("Preflight returned 'approve' for '" ++
      g.tool.fqn ++ "' without an approval_id; failing closed")
  else if v.isStr "allow" then pure (false, none)
  else deny g (.str "unknown_verdict") ("Preflight returned unknown verdict " ++ v.repr h ++
    " for '" ++ g.tool.fqn ++ "'; failing closed")

/-- The `except (SigilTransportError, SigilAPIError)` clause. -/
def afterUnreachable (c : SigilClient) (g : Governed) : Call V X (Bool × Option String) := do
  let failOpen ← handlePreflightUnreachable c g
  pure (failOpen, none)

/-- Step 4: preflight, for the high-risk tiers. -/
def checkPreflight (h : Host) (c : SigilClient) (task : SigilTaskContext) (g : Governed) :
    Call V X (Bool × Option String) :=
  if g.tool.riskTier.isHighRisk then
    Dialogue.handle (fun e => if e.isUnreachable then some (afterUnreachable c g) else none) do
      let verdict ← c.preflight task.biscuitToken g.tool.toolNamespace g.tool.name g.ah g.agentId
        g.taskId
      judgeVerdict h g verdict
  else pure (false, none)

def governanceCheck (h : Host) (c : SigilClient) (task : SigilTaskContext) (g : Governed) :
    Call V X (Bool × Option String) := do
  checkRevoked g
  checkKillSwitch c g
  checkToken h c task g
  checkPreflight h c task g

/-! ## Approval -/

def approvalTerminal : List String := ["approved", "rejected", "expired"]

def approvalPollOnce (h : Host) (c : SigilClient) (approvalId : String) (deadline : ℚ) :
    Call V X (Option String × ℚ) := do
  let status ← Dialogue.handle (fun _ => some (pure none)) do
    let status ← c.approvalStatus h approvalId
    pure (some status)
  match status with
  | none => pure (some "unavailable", 0)
  | some status =>
    if status ∈ approvalTerminal then pure (some status, 0)
    else do
      let remaining := deadline - (← monotonic)
      if remaining ≤ 0 then pure (some "timeout", 0)
      else pure (none, min c.approvalPollInterval remaining)

section Polling

variable (h : Host) (c : SigilClient) (approvalId : String)

/-- The `while True` loop of `_poll_approval`, at most `fuel` times round. -/
def pollApprovalLoop (deadline : ℚ) : ℕ → Call V X String
  | 0 => .spent
  | fuel + 1 => do
    match ← approvalPollOnce h c approvalId deadline with
    | (some result, _) => pure result
    | (none, sleepFor) => do
      sleep .sync sleepFor
      pollApprovalLoop deadline fuel

def pollApproval (fuel : ℕ) : Call V X String := do
  let deadline := (← monotonic) + c.approvalTimeout
  pollApprovalLoop h c approvalId deadline fuel

/-- The loop of `_poll_approval_async`. -/
def pollApprovalAsyncLoop (deadline : ℚ) : ℕ → Call V X String
  | 0 => .spent
  | fuel + 1 => do
    match ← approvalPollOnce h c approvalId deadline with
    | (some result, _) => pure result
    | (none, sleepFor) => do
      sleep .async sleepFor
      pollApprovalAsyncLoop deadline fuel

def pollApprovalAsync (fuel : ℕ) : Call V X String := do
  let deadline := (← monotonic) + c.approvalTimeout
  pollApprovalAsyncLoop h c approvalId deadline fuel

/-- The loop of the poller for this mode. -/
def pollLoop (mode : Mode) (deadline : ℚ) (fuel : ℕ) : Call V X String :=
  match mode with
  | .sync => pollApprovalLoop h c approvalId deadline fuel
  | .async => pollApprovalAsyncLoop h c approvalId deadline fuel

/-- The poller for this mode. -/
def pollWith (mode : Mode) (h : Host) (c : SigilClient) (approvalId : String) (fuel : ℕ) :
    Call V X String :=
  match mode with
  | .sync => pollApproval h c approvalId fuel
  | .async => pollApprovalAsync h c approvalId fuel

/-- The two loops differ in what they sleep with. -/
theorem pollLoop_step (mode : Mode) (deadline : ℚ) (fuel : ℕ) :
    (pollLoop h c approvalId mode deadline (fuel + 1) : Call V X String) = (do
      match ← approvalPollOnce h c approvalId deadline with
      | (some result, _) => pure result
      | (none, sleepFor) => do
        sleep mode sleepFor
        pollLoop h c approvalId mode deadline fuel) := by cases mode <;> rfl

theorem pollLoop_zero (mode : Mode) (deadline : ℚ) :
    (pollLoop h c approvalId mode deadline 0 : Call V X String) = .spent := by cases mode <;> rfl

theorem pollWith_eq (mode : Mode) (fuel : ℕ) :
    (pollWith mode h c approvalId fuel : Call V X String) = (do
      let now ← monotonic
      pollLoop h c approvalId mode (now + c.approvalTimeout) fuel) := by cases mode <;> rfl

end Polling

/-- The denial reason of a poll outcome other than `"approved"`. -/
def finalizeReason (outcome : String) : String :=
  ([("rejected", "approval_rejected"), ("expired", "approval_expired"),
    ("timeout", "approval_timeout"), ("unavailable", "approval_service_unavailable")].lookup
    outcome).getD "approval_service_unavailable"

def finalizeApproval (g : Governed) (outcome : String) : Call V X Unit :=
  if outcome = "approved" then pure ()
  else deny g (.str (finalizeReason outcome))
    ("Approval for '" ++ g.tool.fqn ++ "' resolved to " ++ finalizeReason outcome)

def redeemDeniedReason : Exc X → String
  | .api _ statusCode => if statusCode = 409 then "approval_replayed" else "approval_token_unavailable"
  | _ => "approval_token_unavailable"

def raiseRedeemDenied (g : Governed) (reason : String) : Call V X α :=
  deny g (.str reason) ("Approval redemption for '" ++ g.tool.fqn ++ "' failed: " ++ reason)

def redeemApproval (h : Host) (c : SigilClient) (approvalId : String) (token : PyVal)
    (g : Governed) : Call V X String := do
  let redeemed ← Dialogue.handle (fun e => some (pure (.error (redeemDeniedReason e)))) do
    let result ← c.redeemApproval h approvalId token
    pure (Except.ok result)
  match redeemed with
  | .error reason => raiseRedeemDenied g reason
  | .ok result => do
    let revocationId := ((← liftPy (result.get "revocation_id")).orElse (.str "")).toStr h
    if revocationId = "" then raiseRedeemDenied g "approval_token_unavailable"
    else pure revocationId

def redeemApprovalAsync (h : Host) (c : SigilClient) (approvalId : String) (token : PyVal)
    (g : Governed) : Call V X String := do
  -- `run_in_executor` hands on what the request returns or raises
  let redeemed ← Dialogue.handle (fun e => some (pure (.error (redeemDeniedReason e)))) do
    let result ← c.redeemApproval h approvalId token
    pure (Except.ok result)
  match redeemed with
  | .error reason => raiseRedeemDenied g reason
  | .ok result => do
    let revocationId := ((← liftPy (result.get "revocation_id")).orElse (.str "")).toStr h
    if revocationId = "" then raiseRedeemDenied g "approval_token_unavailable"
    else pure revocationId

theorem redeemApprovalAsync_eq (h : Host) (c : SigilClient) (approvalId : String) (token : PyVal)
    (g : Governed) : (redeemApprovalAsync h c approvalId token g : Call V X String) =
      redeemApproval h c approvalId token g := rfl

/-! ## Execution -/

/-- `int(x)` -/
def truncate (x : ℚ) : ℤ := if x < 0 then ⌈x⌉ else ⌊x⌋

def outcomeOf : Except X V → String
  | .ok _ => "allowed"
  | .error _ => "error"

def executeAudit (call : CallArgs) (g : Governed) (failOpen : Bool)
    (approvalGrantId : Option String) (promptEntropy : UInt64) : Call V X V := do
  let t0 ← monotonic
  let result ← callFunction .sync call
  -- the `finally` block
  let t1 ← monotonic
  push (makeEvent g (truncate ((t1 - t0) * 1000)) (outcomeOf result) none failOpen
    approvalGrantId promptEntropy)
  match result with
  | .ok v => pure v
  | .error x => .fail (.raised x)

def asyncExecuteAudit (call : CallArgs) (g : Governed) (failOpen : Bool)
    (approvalGrantId : Option String) (promptEntropy : UInt64) : Call V X V := do
  let t0 ← monotonic
  let result ← callFunction .async call
  -- the `finally` block
  let t1 ← monotonic
  push (makeEvent g (truncate ((t1 - t0) * 1000)) (outcomeOf result) none failOpen
    approvalGrantId promptEntropy)
  match result with
  | .ok v => pure v
  | .error x => .fail (.raised x)

/-- The helper for this mode. -/
def execute : Mode → CallArgs → Governed → Bool → Option String → UInt64 → Call V X V
  | .sync => executeAudit
  | .async => asyncExecuteAudit

/-- The two helpers differ in how they call the function. -/
theorem execute_eq (mode : Mode) (call : CallArgs) (g : Governed) (failOpen : Bool)
    (approvalGrantId : Option String) (promptEntropy : UInt64) :
    (execute mode call g failOpen approvalGrantId promptEntropy : Call V X V) = (do
      let t0 ← monotonic
      let result ← callFunction mode call
      let t1 ← monotonic
      push (makeEvent g (truncate ((t1 - t0) * 1000)) (outcomeOf result) none failOpen
        approvalGrantId promptEntropy)
      match result with
      | .ok v => pure v
      | .error x => .fail (.raised x)) := by cases mode <;> rfl

/-! ## The wrappers -/

def requireTask (tool : Tool) : Option (SigilClient × SigilTaskContext) →
    Call V X (SigilClient × SigilTaskContext)
  | some current => pure current
  | none => .fail (.denied {
      message := "No active SigilTaskContext — '" ++ tool.fqn ++ "' must be called inside " ++
        "'with client.task([...]) as task:'"
      deniedReason := .str "no_task"
      toolName := tool.fqn
      taskId := "" })

namespace InstrumentedTool

def wrapper (h : Host) (current : Option (SigilClient × SigilTaskContext)) (tool : Tool)
    (call : CallArgs) (fuel : ℕ) : Call V X V := do
  let (c, task) ← requireTask tool current
  match call.raw.argsHash h with
  | none => .fail (.py .typeError)
  | some ah => do
    let g : Governed := ⟨c.agentId, strOr task.taskId "", tool, ah, none⟩
    let (failOpen, approvalId) ← governanceCheck h c task g
    let approvalGrantId ← match approvalId with
      | none => pure none
      | some approvalId => do
        let outcome ← pollApproval h c approvalId fuel
        finalizeApproval g outcome
        let approvalGrantId ← redeemApproval h c approvalId (task.biscuitToken.orElse (.str "")) g
        pure (some approvalGrantId)
    executeAudit call g failOpen approvalGrantId 0

def asyncWrapper (h : Host) (current : Option (SigilClient × SigilTaskContext)) (tool : Tool)
    (call : CallArgs) (fuel : ℕ) : Call V X V := do
  let (c, task) ← requireTask tool current
  match call.raw.argsHash h with
  | none => .fail (.py .typeError)
  | some ah => do
    let g : Governed := ⟨c.agentId, strOr task.taskId "", tool, ah, none⟩
    let (failOpen, approvalId) ← governanceCheck h c task g
    let approvalGrantId ← match approvalId with
      | none => pure none
      | some approvalId => do
        let outcome ← pollApprovalAsync h c approvalId fuel
        finalizeApproval g outcome
        let approvalGrantId ←
          redeemApprovalAsync h c approvalId (task.biscuitToken.orElse (.str "")) g
        pure (some approvalGrantId)
    asyncExecuteAudit call g failOpen approvalGrantId 0

end InstrumentedTool

namespace InstrumentedLlm

def wrapper (redactStr : String → Option String) (h : Host)
    (current : Option (SigilClient × SigilTaskContext)) (tool : Tool) (call : CallArgs) (fuel : ℕ) :
    Call V X V := do
  let (c, task) ← requireTask tool current
  match call.raw.argsHash h with
  | none => .fail (.py .typeError)
  | some ah => do
    let redacted := redactSafe redactStr call.rawItems
    let entropy := shannonEntropy h (extractPrompt call)
    let g : Governed := ⟨c.agentId, strOr task.taskId "", tool, ah, some redacted⟩
    let (failOpen, approvalId) ← governanceCheck h c task g
    let approvalGrantId ← match approvalId with
      | none => pure none
      | some approvalId => do
        let outcome ← pollApproval h c approvalId fuel
        finalizeApproval g outcome
        let approvalGrantId ← redeemApproval h c approvalId (task.biscuitToken.orElse (.str "")) g
        pure (some approvalGrantId)
    executeAudit call g failOpen approvalGrantId entropy

def asyncWrapper (redactStr : String → Option String) (h : Host)
    (current : Option (SigilClient × SigilTaskContext)) (tool : Tool) (call : CallArgs) (fuel : ℕ) :
    Call V X V := do
  let (c, task) ← requireTask tool current
  match call.raw.argsHash h with
  | none => .fail (.py .typeError)
  | some ah => do
    let redacted := redactSafe redactStr call.rawItems
    let entropy := shannonEntropy h (extractPrompt call)
    let g : Governed := ⟨c.agentId, strOr task.taskId "", tool, ah, some redacted⟩
    let (failOpen, approvalId) ← governanceCheck h c task g
    let approvalGrantId ← match approvalId with
      | none => pure none
      | some approvalId => do
        let outcome ← pollApprovalAsync h c approvalId fuel
        finalizeApproval g outcome
        let approvalGrantId ←
          redeemApprovalAsync h c approvalId (task.biscuitToken.orElse (.str "")) g
        pure (some approvalGrantId)
    asyncExecuteAudit call g failOpen approvalGrantId entropy

end InstrumentedLlm

/-- The two decorators; the LLM one comes with the classifier pipeline. -/
inductive Decorator where
  | instrumentedTool
  | instrumentedLlm (redactStr : String → Option String)

/-- The wrapper a decorator makes of a function, blocking or a coroutine. -/
def wrapper : Decorator → Mode → Host → Option (SigilClient × SigilTaskContext) → Tool → CallArgs →
    ℕ → Call V X V
  | .instrumentedTool, .sync => InstrumentedTool.wrapper
  | .instrumentedTool, .async => InstrumentedTool.asyncWrapper
  | .instrumentedLlm redactStr, .sync => InstrumentedLlm.wrapper redactStr
  | .instrumentedLlm redactStr, .async => InstrumentedLlm.asyncWrapper redactStr

/-! ## The shell they share

The four wrappers are one shell: they differ in the poller and the helper they use, and in what the
LLM decorator records besides.
-/

def governedCall (mode : Mode) (h : Host) (current : Option (SigilClient × SigilTaskContext))
    (tool : Tool) (call : CallArgs) (argsRedacted : Option PyVal) (promptEntropy : UInt64)
    (fuel : ℕ) : Call V X V := do
  let (c, task) ← requireTask tool current
  match call.raw.argsHash h with
  | none => .fail (.py .typeError)
  | some ah => do
    let g : Governed := ⟨c.agentId, strOr task.taskId "", tool, ah, argsRedacted⟩
    let (failOpen, approvalId) ← governanceCheck h c task g
    let approvalGrantId ← match approvalId with
      | none => pure none
      | some approvalId => do
        let outcome ← pollWith mode h c approvalId fuel
        finalizeApproval g outcome
        let approvalGrantId ← redeemApproval h c approvalId (task.biscuitToken.orElse (.str "")) g
        pure (some approvalGrantId)
    execute mode call g failOpen approvalGrantId promptEntropy

namespace Decorator

def argsRedacted (d : Decorator) (call : CallArgs) : Option PyVal :=
  match d with
  | instrumentedTool => none
  | instrumentedLlm redactStr => some (redactSafe redactStr call.rawItems)

def promptEntropy (d : Decorator) (h : Host) (call : CallArgs) : UInt64 :=
  match d with
  | instrumentedTool => 0
  | instrumentedLlm _ => shannonEntropy h (extractPrompt call)

end Decorator

theorem wrapper_eq (d : Decorator) (mode : Mode) (h : Host)
    (current : Option (SigilClient × SigilTaskContext)) (tool : Tool) (call : CallArgs) (fuel : ℕ) :
    (wrapper d mode h current tool call fuel : Call V X V) =
      governedCall mode h current tool call (d.argsRedacted call) (d.promptEntropy h call) fuel := by
  cases d with
  | instrumentedTool => cases mode <;> rfl
  | instrumentedLlm redactStr => cases mode <;> rfl

/-- The approval gate of a call, once preflight has asked for it; returns the grant. -/
def approvalGate (mode : Mode) (h : Host) (c : SigilClient) (task : SigilTaskContext)
    (g : Governed) (approvalId : String) (fuel : ℕ) : Call V X String := do
  let outcome ← pollWith mode h c approvalId fuel
  finalizeApproval g outcome
  redeemApproval h c approvalId (task.biscuitToken.orElse (.str "")) g

end Sigil.Gate
