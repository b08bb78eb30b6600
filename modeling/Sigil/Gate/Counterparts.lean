import Sigil.Gate.Conversation.Call
import Sigil.Library.Agreement

/-! # Two governed calls

Two calls are counterparts when they differ only in things that neither their answers nor their
decisions depend on. They then agree, step by step: they ask alike and end alike.
-/
set_option autoImplicit false

namespace Sigil.Gate

open Dialogue (Agree Likeness agree_ofExcept agree_query_bind)

variable {V X α : Type}

/-- Taken for the same, and like answers to them are equal. -/
structure Corresponds (L : Likeness Question (Answer V X)) (q q' : Question) : Prop where
  same : L.same q q'
  equal : ∀ a a', L.alike ⟨q, a⟩ ⟨q', a'⟩ → HEq a a'

structure Counterparts (L : Likeness Question (Answer V X)) (h : Host) (c c' : SigilClient)
    (task task' : SigilTaskContext) (g g' : Governed) (mode mode' : Mode) (call : CallArgs)
    (entropy entropy' : UInt64) : Prop where
  baseUrl : c.baseUrl = c'.baseUrl
  failMode : c.failMode = c'.failMode
  killSwitchFailMode : c.killSwitchFailMode = c'.killSwitchFailMode
  approvalTimeout : c.approvalTimeout = c'.approvalTimeout
  approvalPollInterval : c.approvalPollInterval = c'.approvalPollInterval
  untokened : task.biscuitToken.isNone = task'.biscuitToken.isNone
  taskId : g.taskId = g'.taskId
  tool : g.tool = g'.tool
  isRevoked : Corresponds L (.isRevoked g.agentId g.taskId) (.isRevoked g'.agentId g'.taskId)
  isKillSwitchHealthy : Corresponds L .isKillSwitchHealthy .isKillSwitchHealthy
  monotonic : Corresponds L .monotonic .monotonic
  utcNow : L.same .utcNow .utcNow
  verified : ∀ now now' : DateTime, L.alike ⟨.utcNow, now⟩ ⟨.utcNow, now'⟩ →
    verifyTask h c task.biscuitToken g.tool now = verifyTask h c' task'.biscuitToken g'.tool now'
  preflight : Corresponds L
    (.http (c.preflightRequest task.biscuitToken g.tool.toolNamespace g.tool.name g.ah g.agentId
      g.taskId))
    (.http (c'.preflightRequest task'.biscuitToken g'.tool.toolNamespace g'.tool.name g'.ah
      g'.agentId g'.taskId))
  status : ∀ id, Corresponds L (.http (c.approvalRequest id)) (.http (c'.approvalRequest id))
  redeem : ∀ id, Corresponds L (.http (c.redeemRequest id (task.biscuitToken.orElse (.str ""))))
    (.http (c'.redeemRequest id (task'.biscuitToken.orElse (.str ""))))
  sleep : ∀ seconds, Corresponds L (.sleep mode seconds) (.sleep mode' seconds)
  denied : ∀ reason, L.same (.push (deniedEvent g reason)) (.push (deniedEvent g' reason))
  spilled : ∀ reason,
    L.same (.overflowWrite (deniedEvent g reason)) (.overflowWrite (deniedEvent g' reason))
  recorded : ∀ latencyMs outcome failOpen grant,
    L.same (.push (makeEvent g latencyMs outcome none failOpen grant entropy))
      (.push (makeEvent g' latencyMs outcome none failOpen grant entropy'))
  executed : Corresponds L (.execute mode call) (.execute mode' call)

namespace Counterparts

variable {L : Likeness Question (Answer V X)} {h : Host} {c c' : SigilClient}
  {task task' : SigilTaskContext} {g g' : Governed} {mode mode' : Mode} {call : CallArgs}
  {entropy entropy' : UInt64}
  (K : Counterparts L h c c' task task' g g' mode mode' call entropy entropy')

include K

/-! ## Denials -/

theorem denied_eq (reason : PyVal) (message : String) :
    g.denied reason message = g'.denied reason message := by
  unfold Governed.denied
  rw [K.tool, K.taskId]

theorem deny_agree (reason : PyVal) (message : String) (post : α → α → Prop) :
    Agree L post (deny g reason message : Call V X α) (deny g' reason message) := by
  refine agree_query_bind (K.denied _) fun _ _ _ => ?_
  rw [K.denied_eq]
  exact .fail _

/-! ## The governance check -/

theorem checkRevoked_agree :
    Agree L (· = ·) (checkRevoked g : Call V X Unit) (checkRevoked g') := by
  refine agree_query_bind K.isRevoked.same fun revoked revoked' hr => ?_
  rw [← eq_of_heq (K.isRevoked.equal revoked revoked' hr), K.tool]
  cases revoked with
  | true => exact K.deny_agree _ _ _
  | false => exact .done () () rfl

theorem checkKillSwitch_agree :
    Agree L (· = ·) (checkKillSwitch c g : Call V X Unit) (checkKillSwitch c' g') := by
  unfold checkKillSwitch
  rw [← K.killSwitchFailMode]
  cases c.killSwitchFailMode with
  | opened => exact .done () () rfl
  | closed =>
    refine agree_query_bind K.isKillSwitchHealthy.same fun healthy healthy' hh => ?_
    rw [← eq_of_heq (K.isKillSwitchHealthy.equal healthy healthy' hh), K.tool]
    cases healthy with
    | true => exact .done () () rfl
    | false => exact K.deny_agree _ _ _

theorem checkToken_agree :
    Agree L (· = ·) (checkToken h c task g : Call V X Unit) (checkToken h c' task' g') := by
  unfold checkToken checkVerified
  rw [← K.untokened, K.denied_eq]
  split
  · exact .fail _
  · refine agree_query_bind K.utcNow fun now now' hnow => ?_
    rw [K.verified now now' hnow]
    cases verifyTask h c' task'.biscuitToken g'.tool now' with
    | error e => exact .fail _
    | ok vr =>
      show Agree L _ (if vr.ok then _ else _) (if vr.ok then _ else _)
      split
      · exact .done () () rfl
      · refine agree_query_bind (K.denied _) fun _ _ _ => ?_
        rw [K.denied_eq, K.tool]
        exact .fail _

theorem judgeVerdict_agree (verdict : PyVal) :
    Agree L (· = ·) (judgeVerdict h g verdict : Call V X (Bool × Option String))
      (judgeVerdict h g' verdict) := by
  unfold judgeVerdict
  rw [K.tool]
  cases verdict with
  | dict kvs =>
    simp only [PyVal.get_dict, liftPy, Dialogue.done_bind]
    split
    · exact K.deny_agree _ _ _
    · split
      · split
        · exact .done _ _ rfl
        · exact K.deny_agree _ _ _
      · split
        · exact .done _ _ rfl
        · exact K.deny_agree _ _ _
  | _ => exact .fail _

theorem afterUnreachable_agree :
    Agree L (· = ·) (afterUnreachable c g : Call V X (Bool × Option String))
      (afterUnreachable c' g') := by
  unfold afterUnreachable handlePreflightUnreachable
  rw [← K.failMode, K.tool, K.denied_eq]
  cases c.failMode with
  | opened => exact .done _ _ rfl
  | closed => exact agree_query_bind (K.spilled _) fun _ _ _ => .fail _

omit K in
/-- What an endpoint makes of an answer depends on the method and the URL of its request. -/
theorem receive_congr (name : String) (expected : ℤ) (r r' : Request) (answer : HttpAnswer)
    (hmethod : r.method = r'.method) (hurl : r.url = r'.url) :
    (SigilClient.receive name expected r answer : Except (Exc X) PyVal) =
      SigilClient.receive name expected r' answer := by
  cases answer with
  | raised => rw [SigilClient.receive, SigilClient.receive, hmethod, hurl]
  | response status body => rfl

theorem checkPreflight_agree :
    Agree L (· = ·) (checkPreflight h c task g : Call V X (Bool × Option String))
      (checkPreflight h c' task' g') := by
  unfold checkPreflight
  rw [← K.tool]
  split
  · refine Agree.handle ?_ fun e => ?_
    · unfold SigilClient.preflight SigilClient.send
      simp only [Dialogue.bind_assoc]
      have hmeets := K.preflight
      rw [← K.tool] at hmeets
      refine agree_query_bind hmeets.same fun answer answer' ha => ?_
      rw [← eq_of_heq (hmeets.equal answer answer' ha)]
      rw [receive_congr "preflight" 200 (c.preflightRequest task.biscuitToken g.tool.toolNamespace
        g.tool.name g.ah g.agentId g.taskId) (c'.preflightRequest task'.biscuitToken
        g.tool.toolNamespace g.tool.name g'.ah g'.agentId g'.taskId) answer rfl
        (congrArg (· ++ Route.preflight.path) K.baseUrl)]
      refine (agree_ofExcept _).bind ?_
      rintro verdict _ rfl
      exact K.judgeVerdict_agree verdict
    · by_cases he : e.isUnreachable = true
      · rw [if_pos he, if_pos he]
        exact K.afterUnreachable_agree
      · rw [if_neg he, if_neg he]
        exact .fail e
  · exact .done _ _ rfl

theorem governanceCheck_agree :
    Agree L (· = ·) (governanceCheck h c task g : Call V X (Bool × Option String))
      (governanceCheck h c' task' g') :=
  K.checkRevoked_agree.bind fun _ _ _ => K.checkKillSwitch_agree.bind fun _ _ _ =>
    K.checkToken_agree.bind fun _ _ _ => K.checkPreflight_agree

/-! ## The approval gate -/

theorem approvalPollOnce_agree (id : String) (deadline : ℚ) :
    Agree L (· = ·) (approvalPollOnce h c id deadline : Call V X (Option String × ℚ))
      (approvalPollOnce h c' id deadline) := by
  unfold approvalPollOnce
  rw [← tryStatus, ← tryStatus, tryStatus_eq, tryStatus_eq, Dialogue.ask_bind, Dialogue.ask_bind,
    ← K.approvalPollInterval]
  refine .ask _ _ _ _ (K.status id).same fun answer answer' ha => ?_
  rw [← eq_of_heq ((K.status id).equal answer answer' ha)]
  cases answerText h "status" answer with
  | none => exact .done _ _ rfl
  | some status =>
    simp only [Dialogue.done_bind]
    split
    · exact .done _ _ rfl
    · refine agree_query_bind K.monotonic.same fun now now' hnow => ?_
      rw [← eq_of_heq (K.monotonic.equal now now' hnow)]
      split
      · exact .done _ _ rfl
      · exact .done _ _ rfl

theorem sleep_agree (seconds : ℚ) :
    Agree L (· = ·) (Sigil.sleep mode seconds : Call V X Unit) (Sigil.sleep mode' seconds) := by
  refine agree_query_bind (K.sleep seconds).same fun slept slept' hs => ?_
  rw [← eq_of_heq ((K.sleep seconds).equal slept slept' hs)]
  cases slept with
  | ok _ => exact .done () () rfl
  | error e => exact .fail _

theorem pollLoop_agree (id : String) (deadline : ℚ) (fuel : ℕ) :
    Agree L (· = ·) (pollLoop h c id mode deadline fuel : Call V X String)
      (pollLoop h c' id mode' deadline fuel) := by
  induction fuel with
  | zero =>
    rw [pollLoop_zero, pollLoop_zero]
    exact .spent
  | succ fuel ih =>
    rw [pollLoop_step, pollLoop_step]
    refine (K.approvalPollOnce_agree id deadline).bind ?_
    rintro ⟨result, sleepFor⟩ _ rfl
    cases result with
    | some result => exact .done _ _ rfl
    | none => exact (K.sleep_agree sleepFor).bind fun _ _ _ => ih

theorem finalizeApproval_agree (outcome : String) :
    Agree L (· = ·) (finalizeApproval g outcome : Call V X Unit) (finalizeApproval g' outcome) := by
  unfold finalizeApproval
  rw [K.tool]
  split
  · exact .done () () rfl
  · exact K.deny_agree _ _ _

theorem redeemApproval_agree (id : String) :
    Agree L (· = ·)
      (redeemApproval h c id (task.biscuitToken.orElse (.str "")) g : Call V X String)
      (redeemApproval h c' id (task'.biscuitToken.orElse (.str "")) g') := by
  unfold redeemApproval
  rw [← tryRedeem, ← tryRedeem, tryRedeem_eq, tryRedeem_eq, Dialogue.ask_bind, Dialogue.ask_bind]
  refine .ask _ _ _ _ (K.redeem id).same fun answer answer' ha => ?_
  rw [← eq_of_heq ((K.redeem id).equal answer answer' ha)]
  have hdenied (reason : String) :
      Agree L (· = ·) (raiseRedeemDenied g reason : Call V X String) (raiseRedeemDenied g' reason) := by
    unfold raiseRedeemDenied
    rw [K.tool]
    exact K.deny_agree _ _ _
  cases redeemResult h answer with
  | error reason => exact hdenied reason
  | ok result =>
    simp only [Dialogue.done_bind]
    cases result.get "revocation_id" with
    | error e => exact .fail _
    | ok id =>
      simp only [liftPy, Dialogue.done_bind]
      split
      · exact hdenied _
      · exact .done _ _ rfl

theorem approvalGate_agree (id : String) (fuel : ℕ) :
    Agree L (· = ·) (approvalGate mode h c task g id fuel : Call V X String)
      (approvalGate mode' h c' task' g' id fuel) := by
  unfold approvalGate
  refine Agree.bind (?_ : Agree L (· = ·) _ _) ?_
  · rw [pollWith_eq, pollWith_eq]
    refine agree_query_bind K.monotonic.same fun now now' hnow => ?_
    rw [← eq_of_heq (K.monotonic.equal now now' hnow), ← K.approvalTimeout]
    exact K.pollLoop_agree id _ fuel
  · rintro outcome _ rfl
    exact (K.finalizeApproval_agree outcome).bind fun _ _ _ => K.redeemApproval_agree id

/-! ## The whole call -/

theorem execute_agree (failOpen : Bool) (grant : Option String) :
    Agree L (· = ·) (execute mode call g failOpen grant entropy : Call V X V)
      (execute mode' call g' failOpen grant entropy') := by
  rw [execute_eq, execute_eq]
  refine agree_query_bind K.monotonic.same fun t0 t0' h0 => ?_
  rw [← eq_of_heq (K.monotonic.equal t0 t0' h0)]
  refine agree_query_bind K.executed.same fun result result' hr => ?_
  rw [← eq_of_heq (K.executed.equal result result' hr)]
  refine agree_query_bind K.monotonic.same fun t1 t1' h1 => ?_
  rw [← eq_of_heq (K.monotonic.equal t1 t1' h1)]
  refine agree_query_bind (K.recorded _ _ _ _) fun _ _ _ => ?_
  cases result with
  | ok v => exact .done v v rfl
  | error x => exact .fail _

end Counterparts

/-- **Counterparts agree.** -/
theorem governedCall_agree {L : Likeness Question (Answer V X)} (h : Host) (c c' : SigilClient)
    (task task' : SigilTaskContext) (mode mode' : Mode) (tool : Tool) (call : CallArgs)
    (argsRedacted argsRedacted' : Option PyVal) (entropy entropy' : UInt64) (fuel : ℕ)
    (K : ∀ ah, Counterparts L h c c' task task' (governed c task tool ah argsRedacted)
      (governed c' task' tool ah argsRedacted') mode mode' call entropy entropy') :
    Agree L (· = ·)
      (governedCall mode h (some (c, task)) tool call argsRedacted entropy fuel : Call V X V)
      (governedCall mode' h (some (c', task')) tool call argsRedacted' entropy' fuel) := by
  cases hah : call.raw.argsHash h with
  | none =>
    rw [governedCall_unhashed h c task tool mode call argsRedacted entropy fuel hah,
      governedCall_unhashed h c' task' tool mode' call argsRedacted' entropy' fuel hah]
    exact .fail _
  | some ah =>
    rw [governedCall_eq h c task tool mode call argsRedacted entropy fuel ah hah,
      governedCall_eq h c' task' tool mode' call argsRedacted' entropy' fuel ah hah]
    refine (K ah).governanceCheck_agree.bind ?_
    rintro ⟨failOpen, approvalId⟩ _ rfl
    cases approvalId with
    | none => exact (K ah).execute_agree failOpen none
    | some id =>
      refine ((K ah).approvalGate_agree id fuel).bind ?_
      rintro grant _ rfl
      exact (K ah).execute_agree failOpen (some grant)

end Sigil.Gate
