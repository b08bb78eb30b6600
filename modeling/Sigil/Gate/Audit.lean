import Sigil.Gate.Decision

/-! # The audit trail of a governed call

Every execution is recorded once, as it happened. A denial is recorded once, with the reason the
caller is given, unless it slips through: a task without a token, a token on which local
verification raises, or a preflight answer that is JSON but no object.
-/
set_option autoImplicit false

namespace Sigil.Gate

open Audit (Store)
open Dialogue (Run)

variable {V X : Type}

/-! ## The fields of an event -/

def eventField (event : PyVal) (name : String) : Option PyVal :=
  match event with
  | .dict kvs => kvs.lookup (.str name)
  | _ => none

section Fields

variable (g : Governed) (latencyMs : ℤ) (outcome : String) (deniedReason : Option PyVal)
  (failOpen : Bool) (grant : Option String) (promptEntropy : UInt64)

@[simp] theorem makeEvent_outcome : eventField
    (makeEvent g latencyMs outcome deniedReason failOpen grant promptEntropy) "outcome" =
      some (.str outcome) := rfl

@[simp] theorem makeEvent_deniedReason : eventField
    (makeEvent g latencyMs outcome deniedReason failOpen grant promptEntropy) "denied_reason" =
      deniedReason := by
  unfold eventField makeEvent
  generalize g.argsRedacted = redacted, grant.filter (· ≠ "") = id
  cases deniedReason <;> cases redacted <;> cases failOpen <;> cases id <;> rfl

@[simp] theorem makeEvent_failOpen : eventField
    (makeEvent g latencyMs outcome deniedReason failOpen grant promptEntropy) "fail_open" =
      if failOpen then some (.bool true) else none := by
  unfold eventField makeEvent
  generalize g.argsRedacted = redacted, grant.filter (· ≠ "") = id
  cases deniedReason <;> cases redacted <;> cases failOpen <;> cases id <;> rfl

@[simp] theorem makeEvent_grant : eventField
    (makeEvent g latencyMs outcome deniedReason failOpen grant promptEntropy) "approval_grant_id" =
      (grant.filter (· ≠ "")).map .str := by
  unfold eventField makeEvent
  generalize g.argsRedacted = redacted, grant.filter (· ≠ "") = id
  cases deniedReason <;> cases redacted <;> cases failOpen <;> cases id <;> rfl

end Fields

/-! ## Denials -/

section Enter

variable (S : Script V X) (h : Host) (c : SigilClient) (t : SigilTaskContext) (m : Moment)

theorem issueToken_returns (agentId serviceAccountId taskId : String) (toolAllowlist : List String)
    (ttlSeconds : ℤ) (attenuationRoot : Option String) (resp : PyVal)
    (hissue : S.issue.json? 201 = some resp) :
    Returns resp (S.play (c.issueToken agentId serviceAccountId taskId toolAllowlist ttlSeconds
      attenuationRoot) m) := by
  unfold SigilClient.issueToken SigilClient.send
  have hask : Returns S.issue (S.play (request (c.issueRequest agentId serviceAccountId taskId
      toolAllowlist ttlSeconds attenuationRoot)) m) := ⟨rfl, rfl, rfl⟩
  refine hask.bind ?_
  rw [receive_of_json _ _ _ _ resp hissue]
  exact (passes_done S resp _).returns

theorem enter_returns (resp token : PyVal) (vr : Verify.VerifyResult)
    (hissue : S.issue.json? 201 = some resp) (htoken : resp.getItem "biscuit_token" = .ok token)
    (hkeys : c.biscuitKeyring.entries.isEmpty = false)
    (hvr : verifyToken h token c.biscuitKeyring (orNone c.activeKid) none none S.utcNow = .ok vr)
    (hok : vr.ok = true) :
    Returns { t with taskId := some S.uuid4, biscuitToken := token, effectiveTools := vr.effectiveTools }
      (S.play (t.enter h c) m) := by
  unfold SigilTaskContext.enter
  have huuid : Returns S.uuid4 (S.play uuid4 m) := ⟨rfl, rfl, rfl⟩
  refine huuid.bind ?_
  refine (issueToken_returns S c _ _ _ _ _ _ _ resp hissue).bind ?_
  refine (liftPy_passes S _ token htoken _).returns.bind ?_
  rw [hkeys, if_neg Bool.false_ne_true]
  have hnow : ∀ m', Returns S.utcNow (S.play utcNow m') := fun _ => ⟨rfl, rfl, rfl⟩
  refine (hnow _).bind ?_
  refine (liftPy_passes S _ vr hvr _).returns.bind ?_
  rw [if_pos hok]
  exact (passes_done S _ _).returns

end Enter

section Sample

open Verify (sampleHost sampleKeyring authorityText authorityBlock authorityReading
  authorityReading_signed)

/-- `client.task(["a.b"])`, not yet entered. -/
def openedTask : SigilTaskContext where
  toolAllowlist := ["a.b"]
  agentIdOverride := none
  serviceAccountIdOverride := none
  ttlSeconds := 3600

theorem openedTask_enters (S : Script ℕ String) (hissue : S.issue = sampleScript.issue)
    (huuid : S.uuid4 = "k1") (hnow : S.utcNow = ⟨true, 0⟩) (override : Option String) :
    Returns { sampleTask with agentIdOverride := override }
      (S.play ({ openedTask with agentIdOverride := override }.enter sampleHost sampleClient)
        .start) := by
  have hverify : verifyToken sampleHost (.str authorityText.token) sampleClient.biscuitKeyring
      (orNone sampleClient.activeKid) none none S.utcNow =
        .ok (Verify.acceptance sampleHost [authorityBlock]) := by
    rw [hnow]
    exact ((Verify.verifyLocal_accepts_iff authorityReading sampleKeyring none none none none
      ⟨true, 0⟩ _).mpr ⟨authorityReading_signed, by decide +kernel, rfl⟩).1
  have hjson : S.issue.json? 201 = some (.dict [(.str "biscuit_token", .str authorityText.token)]) := by
    rw [hissue]
    rfl
  have henter := enter_returns S sampleHost sampleClient
    { openedTask with agentIdOverride := override } .start _ (.str authorityText.token)
    (Verify.acceptance sampleHost [authorityBlock]) hjson rfl rfl hverify rfl
  rw [huuid] at henter
  exact henter

def emptyStore : Store where
  buffer := .init
  overflow := .init none none "/home/u/.sigil/overflow" "a1" true
  disk := ⟨fun _ => none, fun _ => true⟩
  today := "2030-01-01"

def killedScript : Script ℕ String := sampleScript.withRegistry fun _ _ _ => true

end Sample

/-! ## Executions -/

/-- Preflight was asked and raised. -/
def PreflightFailed (S : Script V X) (tool : Tool) : Prop :=
  tool.riskTier.isHighRisk = true ∧ S.preflight.json? 200 = none

/-- Preflight was asked and wants an approval. -/
def ApprovalGated (S : Script V X) (tool : Tool) : Prop :=
  tool.riskTier.isHighRisk = true ∧
    ∃ kvs, Verdict S.preflight "approve" kvs ∧ (approvalIdOf kvs).truthy = true

/-- What an audit event says of an execution is true. -/
structure Truthful (h : Host) (S : Script V X) (c : SigilClient) (tool : Tool) (call : CallArgs)
    (event : PyVal) : Prop where
  outcome : eventField event "outcome" = some (.str (outcomeOf S.outcome))
  argsHash : eventField event "args_hash" = (call.raw.argsHash h).map .str
  failOpen : (∃ v, eventField event "fail_open" = some v) ↔
    PreflightFailed S tool ∧ c.failMode = .opened
  grant : (∃ v, eventField event "approval_grant_id" = some v) ↔ ApprovalGated S tool
  ownGrant : ∀ v, eventField event "approval_grant_id" = some v →
    some v = (grantOf h S.redeem).map .str

theorem verdict_unique {answer : HttpAnswer} {v w : String} {kvs kvs' : List (PyKey × PyVal)}
    (hv : Verdict answer v kvs) (hw : Verdict answer w kvs') : v = w ∧ kvs = kvs' := by
  cases hv.1.symm.trans hw.1
  have heq := hv.2.symm.trans hw.2
  simp only [Option.some.injEq, PyVal.str.injEq] at heq
  exact ⟨heq, rfl⟩

theorem fated_executed_fields {h : Host} {S : Script V X} {c : SigilClient}
    {task : SigilTaskContext} {g : Governed} {m : Moment} {failOpen : Bool} {grant : Option String}
    (hagent : g.agentId = c.agentId) (htask : g.taskId = strOr task.taskId "")
    (hf : Fated h S c task g m (.executed failOpen grant)) :
    (failOpen = true ↔ PreflightFailed S g.tool ∧ c.failMode = .opened) ∧
      (grant.isSome = true ↔ ApprovalGated S g.tool) ∧
      ∀ id, grant = some id → grantOf h S.redeem = some id ∧ id ≠ "" := by
  have hruled := rule_ruled h S c task g m hagent htask
  rcases (fated_executed_iff h S c task g m failOpen grant).mp hf with
    ⟨hr, rfl⟩ | ⟨rfl, id, hr, -, hsome, hgrant⟩
  · rw [hr] at hruled
    refine ⟨?_, ?_, fun id hid => by cases hid⟩
    · cases hruled with
      | lowRisk _ hlow => simp [PreflightFailed, hlow]
      | highRisk _ _ hhigh hpre =>
        cases hpre with
        | allow kvs hv => simp [PreflightFailed, hv.1]
        | failOpen hnone hmode => simp [PreflightFailed, hhigh, hnone, hmode]
    · cases hruled with
      | lowRisk _ hlow => simp [ApprovalGated, hlow]
      | highRisk _ _ _ hpre =>
        constructor
        · intro hsome
          cases hsome
        · rintro ⟨-, kvs, hv, -⟩
          cases hpre with
          | allow kvs' hv' => exact absurd (verdict_unique hv hv').1 (by decide)
          | failOpen hnone => cases hnone.symm.trans hv.1
  · rw [hr] at hruled
    cases hruled with
    | highRisk _ _ hhigh hpre =>
      cases hpre with
      | approve kvs hv hid =>
        refine ⟨?_, ?_, ?_⟩
        · simp [PreflightFailed, hv.1]
        · exact ⟨fun _ => ⟨hhigh, kvs, hv, hid⟩, fun _ => hsome⟩
        · rintro id rfl
          obtain ⟨_, _, _, hne⟩ := answerText_eq_some h "revocation_id" S.redeem id hgrant
          exact ⟨hgrant, hne⟩

theorem argsHash_of_execution (h : Host) (S : Script V X) (c : SigilClient)
    (task : SigilTaskContext) (d : Decorator) (mode : Mode) (tool : Tool) (call : CallArgs)
    (fuel : ℕ) (m : Moment)
    (hexec : executions (S.play (wrapper d mode h (some (c, task)) tool call fuel) m).events ≠ []) :
    ∃ ah, call.raw.argsHash h = some ah := by
  cases hah : call.raw.argsHash h with
  | some ah => exact ⟨ah, rfl⟩
  | none =>
    have hrun : (wrapper d mode h (some (c, task)) tool call fuel : Call V X V) =
        .fail (.py .typeError) := by
      rw [wrapper_eq, governedCall_unhashed h c task tool mode call _ _ fuel hah]
    rw [hrun] at hexec
    exact absurd rfl hexec

/-- **Every execution is recorded once and truthfully.** -/
theorem execution_audited (h : Host) (S : Script V X) (c : SigilClient)
    (task : SigilTaskContext) (d : Decorator) (mode : Mode) (tool : Tool) (call : CallArgs)
    (fuel : ℕ) (hfuel : pollFuel c ≤ fuel) (m : Moment)
    (hexec : executions (S.play (wrapper d mode h (some (c, task)) tool call fuel) m).events ≠ []) :
    ∃ event, audits (S.play (wrapper d mode h (some (c, task)) tool call fuel) m).events =
        [(.buffer, event)] ∧ Truthful h S c tool call event ∧
      (S.play (wrapper d mode h (some (c, task)) tool call fuel) m).result =
        outcomeResult S.outcome := by
  obtain ⟨ah, hah⟩ := argsHash_of_execution h S c task d mode tool call fuel m hexec
  obtain ⟨fate, hfated, hmeets⟩ := wrapper_play S h c task d mode tool call ah hah fuel hfuel m
  rcases meets_executions hmeets with ⟨⟨failOpen, grant, rfl⟩, -⟩ | ⟨-, hnone⟩
  · obtain ⟨hfail, hgate, hown⟩ := fated_executed_fields rfl rfl hfated
    have htool : (d.governed c task tool call ah).tool = tool := rfl
    rw [htool] at hfail hgate
    have hid : grant.filter (· ≠ "") = grant := by
      cases grant with
      | none => rfl
      | some id => simp [Option.filter, (hown id rfl).2]
    have hgrant : eventField (executionEvent S (d.governed c task tool call ah) failOpen grant
        (d.promptEntropy h call)) "approval_grant_id" = grant.map .str := by
      rw [executionEvent, makeEvent_grant, hid]
    refine ⟨_, hmeets.audits, ⟨makeEvent_outcome .., ?_, ?_, ?_, ?_⟩, hmeets.result⟩
    · rw [hah]
      rfl
    · rw [executionEvent, makeEvent_failOpen, ← hfail]
      cases failOpen <;> simp
    · rw [hgrant, ← hgate]
      cases grant <;> simp
    · intro v hv
      rw [hgrant, Option.map_eq_some_iff] at hv
      obtain ⟨id, rfl, rfl⟩ := hv
      rw [(hown id rfl).1]
      rfl
  · exact absurd hnone hexec

theorem execution_audited_sample :
    ∃ event, audits (sampleCall sampleScript).events = [(.buffer, event)] ∧
      Truthful Verify.sampleHost sampleScript sampleClient sampleTool noArgs event ∧
      (sampleCall sampleScript).result = .returned 7 :=
  execution_audited Verify.sampleHost sampleScript sampleClient sampleTask .instrumentedTool .sync
    sampleTool noArgs (pollFuel sampleClient) le_rfl .start
    (fun hnone => List.cons_ne_nil _ _
      ((sampleCall_executions sampleScript (sampleScript_permitted none)).symm.trans hnone))

end Sigil.Gate
