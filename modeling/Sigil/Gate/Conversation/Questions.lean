import Sigil.Gate.Conversation.Call

/-! # What a governed call asks

Every question of a call is one of a few kinds, and names the agent, the task, the tool and the
token of the call.
-/
set_option autoImplicit false

namespace Sigil.Gate

open Dialogue (Only only_done only_fail only_query_bind)

variable {V X α : Type}

inductive Asks (c : SigilClient) (task : SigilTaskContext) (g : Governed) (mode : Mode)
    (call : CallArgs) : Question → Prop where
  | isRevoked : Asks c task g mode call (.isRevoked g.agentId g.taskId)
  | isKillSwitchHealthy : Asks c task g mode call .isKillSwitchHealthy
  | utcNow : Asks c task g mode call .utcNow
  | monotonic : Asks c task g mode call .monotonic
  | preflight : Asks c task g mode call (.http (c.preflightRequest task.biscuitToken
      g.tool.toolNamespace g.tool.name g.ah g.agentId g.taskId))
  | status (id : String) : Asks c task g mode call (.http (c.approvalRequest id))
  | redeem (id : String) : Asks c task g mode call
      (.http (c.redeemRequest id (task.biscuitToken.orElse (.str ""))))
  | sleep (seconds : ℚ) : Asks c task g mode call (.sleep mode seconds)
  | push (latencyMs : ℤ) (outcome : String) (reason : Option PyVal) (failOpen : Bool)
      (grant : Option String) (promptEntropy : UInt64) : Asks c task g mode call
        (.push (makeEvent g latencyMs outcome reason failOpen grant promptEntropy))
  | overflowWrite (reason : PyVal) :
      Asks c task g mode call (.overflowWrite (deniedEvent g (some reason)))
  | execute : Asks c task g mode call (.execute mode call)

section Asks

variable (h : Host) (c : SigilClient) (task : SigilTaskContext) (g : Governed) (mode : Mode)
  (call : CallArgs)

/-- `p` asks only what a governed call may. -/
abbrev OnlyAsks (p : Call V X α) : Prop :=
  Only (fun e : CallEvent V X => Asks c task g mode call e.1) p

theorem liftPy_asks (r : Except PyError α) :
    OnlyAsks c task g mode call (liftPy r : Call V X α) := by
  cases r with
  | ok a => exact only_done a
  | error e => exact only_fail _

theorem ofExcept_asks (r : Except (Exc X) α) :
    OnlyAsks c task g mode call (Dialogue.ofExcept r : Call V X α) := by
  cases r with
  | ok a => exact only_done a
  | error e => exact only_fail e

theorem deny_asks (reason : PyVal) (message : String) :
    OnlyAsks c task g mode call (deny g reason message : Call V X α) :=
  only_query_bind (fun _ => .push 0 "denied" (some reason) false none 0) fun _ => only_fail _

theorem checkRevoked_asks : OnlyAsks c task g mode call (checkRevoked g : Call V X Unit) := by
  unfold checkRevoked
  refine only_query_bind (fun _ => .isRevoked) fun revoked => ?_
  split
  · exact deny_asks c task g mode call _ _
  · exact only_done ()

theorem checkKillSwitch_asks :
    OnlyAsks c task g mode call (checkKillSwitch c g : Call V X Unit) := by
  unfold checkKillSwitch
  cases c.killSwitchFailMode with
  | opened => exact only_done ()
  | closed =>
    refine only_query_bind (fun _ => .isKillSwitchHealthy) fun healthy => ?_
    split
    · exact only_done ()
    · exact deny_asks c task g mode call _ _

theorem checkToken_asks :
    OnlyAsks c task g mode call (checkToken h c task g : Call V X Unit) := by
  unfold checkToken checkVerified
  split
  · exact only_fail _
  · refine only_query_bind (fun _ => .utcNow) fun now => ?_
    refine (liftPy_asks c task g mode call _).bind fun vr => ?_
    split
    · exact only_done ()
    · exact only_query_bind (fun _ => .push 0 "denied" _ false none 0) fun _ => only_fail _

theorem judgeVerdict_asks (verdict : PyVal) :
    OnlyAsks c task g mode call (judgeVerdict h g verdict : Call V X (Bool × Option String)) := by
  unfold judgeVerdict
  refine (liftPy_asks c task g mode call _).bind fun v => ?_
  simp only
  split
  · exact (liftPy_asks c task g mode call _).bind fun reason => deny_asks c task g mode call _ _
  · split
    · refine (liftPy_asks c task g mode call _).bind fun approvalId => ?_
      split
      · exact only_done _
      · exact deny_asks c task g mode call _ _
    · split
      · exact only_done _
      · exact deny_asks c task g mode call _ _

theorem afterUnreachable_asks :
    OnlyAsks c task g mode call (afterUnreachable c g : Call V X (Bool × Option String)) := by
  unfold afterUnreachable handlePreflightUnreachable
  cases c.failMode with
  | opened => exact only_done _
  | closed => exact only_query_bind (fun _ => .overflowWrite _) fun _ => only_fail _

theorem checkPreflight_asks : OnlyAsks c task g mode call
    (checkPreflight h c task g : Call V X (Bool × Option String)) := by
  unfold checkPreflight
  split
  · refine Only.handle ?_ fun e => ?_
    · unfold SigilClient.preflight SigilClient.send
      refine Only.bind (only_query_bind (fun _ => .preflight) fun answer => ?_)
        fun verdict => judgeVerdict_asks h c task g mode call verdict
      exact ofExcept_asks c task g mode call _
    · by_cases he : e.isUnreachable = true
      · rw [if_pos he]
        exact afterUnreachable_asks c task g mode call
      · rw [if_neg he]
        exact only_fail e
  · exact only_done _

theorem governanceCheck_asks : OnlyAsks c task g mode call
    (governanceCheck h c task g : Call V X (Bool × Option String)) :=
  (checkRevoked_asks c task g mode call).bind fun _ =>
    (checkKillSwitch_asks c task g mode call).bind fun _ =>
      (checkToken_asks h c task g mode call).bind fun _ => checkPreflight_asks h c task g mode call

theorem approvalPollOnce_asks (id : String) (deadline : ℚ) : OnlyAsks c task g mode call
    (approvalPollOnce h c id deadline : Call V X (Option String × ℚ)) := by
  unfold approvalPollOnce
  refine Only.bind (Only.handle ?_ fun e => only_done none) fun status => ?_
  · refine Only.bind ?_ fun status => only_done (some status)
    unfold SigilClient.approvalStatus SigilClient.send
    refine Only.bind (only_query_bind (fun _ => .status id) fun answer => ?_)
      fun result => ofExcept_asks c task g mode call _
    exact ofExcept_asks c task g mode call _
  · cases status with
    | none => exact only_done _
    | some status =>
      simp only
      split
      · exact only_done _
      · refine only_query_bind (fun _ => .monotonic) fun now => ?_
        split <;> exact only_done _

theorem sleep_asks (seconds : ℚ) :
    OnlyAsks c task g mode call (sleep mode seconds : Call V X Unit) :=
  only_query_bind (fun _ => .sleep seconds) fun _ => liftPy_asks c task g mode call _

theorem pollLoop_asks (id : String) (deadline : ℚ) (fuel : ℕ) :
    OnlyAsks c task g mode call (pollLoop h c id mode deadline fuel : Call V X String) := by
  induction fuel with
  | zero =>
    rw [pollLoop_zero]
    exact Dialogue.only_spent
  | succ fuel ih =>
    rw [pollLoop_step]
    refine (approvalPollOnce_asks h c task g mode call id deadline).bind ?_
    rintro ⟨result, sleepFor⟩
    cases result with
    | some result => exact only_done result
    | none => exact (sleep_asks c task g mode call sleepFor).bind fun _ => ih

theorem redeemApproval_asks (id : String) : OnlyAsks c task g mode call
    (redeemApproval h c id (task.biscuitToken.orElse (.str "")) g : Call V X String) := by
  unfold redeemApproval
  refine Only.bind (Only.handle ?_ fun e => only_done _) fun redeemed => ?_
  · refine Only.bind ?_ fun result => only_done _
    unfold SigilClient.redeemApproval SigilClient.send
    refine Only.bind (only_query_bind (fun _ => .redeem id) fun answer => ?_) fun result => ?_
    · exact ofExcept_asks c task g mode call _
    · exact (ofExcept_asks c task g mode call _).bind fun _ => only_done result
  · cases redeemed with
    | error reason => exact deny_asks c task g mode call _ _
    | ok result =>
      refine (liftPy_asks c task g mode call _).bind fun id => ?_
      simp only
      split
      · exact deny_asks c task g mode call _ _
      · exact only_done _

theorem finalizeApproval_asks (outcome : String) :
    OnlyAsks c task g mode call (finalizeApproval g outcome : Call V X Unit) := by
  unfold finalizeApproval
  split
  · exact only_done ()
  · exact deny_asks c task g mode call _ _

theorem approvalGate_asks (id : String) (fuel : ℕ) : OnlyAsks c task g mode call
    (approvalGate mode h c task g id fuel : Call V X String) := by
  unfold approvalGate
  refine Only.bind ?_ fun outcome => (finalizeApproval_asks c task g mode call outcome).bind
    fun _ => redeemApproval_asks h c task g mode call id
  rw [pollWith_eq]
  exact only_query_bind (fun _ => .monotonic) fun now => pollLoop_asks h c task g mode call id _ fuel

theorem execute_asks (failOpen : Bool) (grant : Option String) (promptEntropy : UInt64) :
    OnlyAsks c task g mode call
      (execute mode call g failOpen grant promptEntropy : Call V X V) := by
  rw [execute_eq]
  refine only_query_bind (fun _ => .monotonic) fun t0 => ?_
  refine only_query_bind (fun _ => .execute) fun result => ?_
  refine only_query_bind (fun _ => .monotonic) fun t1 => ?_
  refine only_query_bind (fun _ => .push _ _ _ _ _ _) fun _ => ?_
  cases result with
  | ok v => exact only_done v
  | error x => exact only_fail _

/-- **What a call asks.** -/
theorem wrapper_asks (d : Decorator) (tool : Tool) (ah : String)
    (hah : call.raw.argsHash h = some ah) (fuel : ℕ) :
    OnlyAsks c task (d.governed c task tool call ah) mode call
      (wrapper d mode h (some (c, task)) tool call fuel : Call V X V) := by
  rw [wrapper_eq, governedCall_eq h c task tool mode call _ _ fuel ah hah]
  refine (governanceCheck_asks h c task _ mode call).bind ?_
  rintro ⟨failOpen, approvalId⟩
  cases approvalId with
  | none => exact execute_asks c task _ mode call failOpen none _
  | some id =>
    exact (approvalGate_asks h c task _ mode call id fuel).bind fun grant =>
      execute_asks c task _ mode call failOpen (some grant) _

end Asks

end Sigil.Gate
