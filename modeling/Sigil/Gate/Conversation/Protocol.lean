import Sigil.Gate.Conversation.Call
import Sigil.Library.Monitor

/-! # The protocol of a governed call

`Step` is the protocol between a call and the world: a stage tells which events may come next, and
the answer to an event tells the next stage. Every conversation of a call goes by it.
-/
set_option autoImplicit false

namespace Sigil.Gate

open Dialogue (Guided guided_ask guided_done guided_end guided_fail guided_query_bind guided_spent)

variable {V X α : Type}

/-! ## Stages -/

inductive Stage where
  | checking
  /-- The token has been verified. -/
  | verified
  | waiting (approvalId : String)
  | approved (approvalId : String)
  /-- Nothing is left to ask. -/
  | permitted
  | executed
  /-- The call is denied. -/
  | closed

def Ruling.stage : Ruling → Stage
  | .cleared _ => .permitted
  | .pending id => .waiting id
  | .refused _ _ | .unaudited _ | .crashed _ => .closed

def verifiedStage (h : Host) (c : SigilClient) (task : SigilTaskContext) (tool : Tool)
    (now : DateTime) : Stage :=
  match verifyTask h c task.biscuitToken tool now with
  | .ok vr => if vr.ok then .verified else .closed
  | .error _ => .closed

def statusStage (h : Host) (id : String) (answer : HttpAnswer) : Stage :=
  match settledAs h answer with
  | none => .waiting id
  | some outcome => if outcome = "approved" then .approved id else .closed

def redeemStage (h : Host) (answer : HttpAnswer) : Stage :=
  if (grantOf h answer).isSome then .permitted else .closed

/-- The stages in which a call for `approval?` may go on, or, without one, execute. -/
def Cleared (tool : Tool) : Option String → Stage → Prop
  | some id, s => s = .waiting id
  | none, s => s = .permitted ∨ (s = .verified ∧ tool.riskTier.isHighRisk = false)

inductive Step (h : Host) (c : SigilClient) (task : SigilTaskContext) (tool : Tool) :
    Stage → CallEvent V X → Stage → Prop where
  | clock (s : Stage) (now : ℚ) : Step h c task tool s ⟨.monotonic, now⟩ s
  | sleep (id : String) (mode : Mode) (seconds : ℚ) (slept : Except PyError Unit) :
      Step h c task tool (.waiting id) ⟨.sleep mode seconds, slept⟩ (.waiting id)
  | registry (agentId taskId : String) (revoked : Bool) :
      Step h c task tool .checking ⟨.isRevoked agentId taskId, revoked⟩
        (if revoked then .closed else .checking)
  | health (healthy : Bool) :
      Step h c task tool .checking ⟨.isKillSwitchHealthy, healthy⟩
        (if healthy then .checking else .closed)
  | verify (now : DateTime) :
      Step h c task tool .checking ⟨.utcNow, now⟩ (verifiedStage h c task tool now)
  | preflight (r : Request) (answer : HttpAnswer) (hr : r.route = .preflight)
      (htier : tool.riskTier.isHighRisk = true) :
      Step h c task tool .verified ⟨.http r, answer⟩ (rulePreflight h c answer).stage
  | status (id : String) (r : Request) (answer : HttpAnswer) (hr : r.route = .approval id) :
      Step h c task tool (.waiting id) ⟨.http r, answer⟩ (statusStage h id answer)
  | redeem (id : String) (r : Request) (answer : HttpAnswer) (hr : r.route = .redeem id) :
      Step h c task tool (.approved id) ⟨.http r, answer⟩ (redeemStage h answer)
  | execute (s : Stage) (hs : Cleared tool none s) (mode : Mode) (call : CallArgs)
      (result : Except X V) : Step h c task tool s ⟨.execute mode call, result⟩ .executed
  | record (event : PyVal) : Step h c task tool .executed ⟨.push event, ()⟩ .executed
  | deny (s : Stage) (hs : s = .closed ∨ ∃ id, s = .waiting id) (event : PyVal) :
      Step h c task tool s ⟨.push event, ()⟩ .closed
  | spill (event : PyVal) : Step h c task tool .closed ⟨.overflowWrite event, ()⟩ .closed

section Guidance

variable (h : Host) (c : SigilClient) (task : SigilTaskContext) (tool : Tool) (g : Governed)

abbrev Goes (p : Call V X α) (s : Stage) (post : Except (Exc X) α → Stage → Prop) : Prop :=
  Guided (Step h c task tool) p s post

/-- A denial raises, and what it raises is no `SigilTransportError` or `SigilAPIError`. -/
theorem deny_goes (reason : PyVal) (message : String) (s : Stage)
    (hs : s = .closed ∨ ∃ id, s = .waiting id) {post : Except (Exc X) α → Stage → Prop}
    (hpost : ∀ e, e.isUnreachable = false → post (.error e) .closed) :
    Goes h c task tool (deny g reason message : Call V X α) s post :=
  guided_query_bind fun _ => ⟨.closed, .deny s hs _, guided_fail _ (hpost _ rfl)⟩

/-! ## The governance check -/

theorem checkRevoked_goes : Goes h c task tool (checkRevoked g : Call V X Unit) .checking
    fun x s => x = .ok () → s = .checking := by
  unfold checkRevoked
  refine guided_query_bind fun revoked => ⟨_, .registry _ _ revoked, ?_⟩
  cases revoked with
  | false => exact guided_done () fun _ => rfl
  | true => exact deny_goes h c task tool g _ _ .closed (Or.inl rfl) fun e _ hx => by cases hx

theorem checkKillSwitch_goes : Goes h c task tool (checkKillSwitch c g : Call V X Unit) .checking
    fun x s => x = .ok () → s = .checking := by
  unfold checkKillSwitch
  cases c.killSwitchFailMode with
  | opened => exact guided_done () fun _ => rfl
  | closed =>
    refine guided_query_bind fun healthy => ⟨_, .health healthy, ?_⟩
    cases healthy with
    | true => exact guided_done () fun _ => rfl
    | false => exact deny_goes h c task tool g _ _ .closed (Or.inl rfl) fun e _ hx => by cases hx

theorem checkToken_goes (hg : g.tool = tool) :
    Goes h c task tool (checkToken h c task g : Call V X Unit) .checking
      fun x s => x = .ok () → s = .verified := by
  unfold checkToken checkVerified
  split
  · exact guided_fail _ fun he => by cases he
  · refine guided_query_bind fun now => ⟨_, .verify now, ?_⟩
    unfold verifiedStage
    rw [hg]
    cases verifyTask h c task.biscuitToken tool now with
    | error e => exact guided_fail _ fun he => by cases he
    | ok vr =>
      simp only [liftPy, Dialogue.done_bind]
      cases vr.ok with
      | true => exact guided_done () fun _ => rfl
      | false =>
        exact guided_query_bind fun _ =>
          ⟨.closed, .deny .closed (Or.inl rfl) _, guided_fail _ fun he => by cases he⟩

/-- How a step of preflight ends: an error of it is no `SigilTransportError` or `SigilAPIError`. -/
def Judges (tool : Tool) (x : Except (Exc X) (Bool × Option String)) (s : Stage) : Prop :=
  (∀ e, x = .error e → e.isUnreachable = false) ∧
    ∀ failOpen approvalId, x = .ok (failOpen, approvalId) → Cleared tool approvalId s

theorem deny_judges (reason : PyVal) (message : String) :
    Goes h c task tool (deny g reason message : Call V X (Bool × Option String)) .closed
      (Judges tool) := by
  refine deny_goes h c task tool g reason message .closed (Or.inl rfl) fun e he => ⟨?_, nofun⟩
  intro e' hx
  cases hx
  exact he

theorem done_judges (failOpen : Bool) (approvalId : Option String) (s : Stage)
    (hs : Cleared tool approvalId s) :
    Goes h c task tool (.done (failOpen, approvalId) : Call V X (Bool × Option String)) s
      (Judges tool) := by
  refine guided_done _ ⟨nofun, ?_⟩
  intro failOpen' approvalId' hx
  cases hx
  exact hs

theorem judgeVerdict_goes (kvs : List (PyKey × PyVal)) :
    Goes h c task tool (judgeVerdict h g (.dict kvs) : Call V X (Bool × Option String))
      (ruleVerdict h kvs).stage (Judges tool) := by
  unfold judgeVerdict ruleVerdict
  simp only [PyVal.get_dict, liftPy, Dialogue.done_bind]
  split
  · exact deny_judges h c task tool g _ _
  · split
    · split
      · exact done_judges h c task tool false _ _ rfl
      · exact deny_judges h c task tool g _ _
    · split
      · exact done_judges h c task tool false none _ (Or.inl rfl)
      · exact deny_judges h c task tool g _ _

theorem afterUnreachable_goes (answer : HttpAnswer) (hv : answer.json? 200 = none) :
    Goes h c task tool (afterUnreachable c g : Call V X (Bool × Option String))
      (rulePreflight h c answer).stage (Judges tool) := by
  unfold afterUnreachable handlePreflightUnreachable rulePreflight
  rw [hv]
  cases c.failMode with
  | opened => exact done_judges h c task tool true none _ (Or.inl rfl)
  | closed =>
    refine guided_query_bind fun _ => ⟨.closed, .spill _, guided_fail _ ⟨?_, nofun⟩⟩
    intro e he
    cases he
    rfl

theorem checkPreflight_goes (hg : g.tool = tool) :
    Goes h c task tool (checkPreflight h c task g : Call V X (Bool × Option String)) .verified
      (Judges tool) := by
  unfold checkPreflight
  rw [hg]
  by_cases htier : tool.riskTier.isHighRisk = true
  · rw [if_pos htier]
    refine guided_ask fun answer => ⟨_, .preflight _ answer rfl htier, ?_⟩
    show Goes h c task tool (Dialogue.handle
      (fun e => if e.isUnreachable then some (afterUnreachable c g) else none)
      (Dialogue.ofExcept (SigilClient.receive "preflight" 200 _ answer) >>= judgeVerdict h g)) _ _
    cases hv : answer.json? 200 with
    | none =>
      obtain ⟨e, hreceive, he⟩ := @receive_of_no_json X "preflight" 200 _ answer hv
      rw [hreceive]
      simp only [Dialogue.ofExcept, Dialogue.fail_bind, Dialogue.handle, if_pos he, Option.getD_some]
      exact afterUnreachable_goes h c task tool g answer hv
    | some v =>
      rw [receive_of_json "preflight" 200 _ answer v hv]
      simp only [Dialogue.ofExcept, Dialogue.done_bind]
      have hjudge : Goes h c task tool (judgeVerdict h g v : Call V X (Bool × Option String))
          (rulePreflight h c answer).stage (Judges tool) := by
        unfold rulePreflight
        rw [hv]
        cases v with
        | dict kvs => exact judgeVerdict_goes h c task tool g kvs
        | _ =>
          refine guided_fail _ ⟨?_, fun _ _ he => by cases he⟩
          intro e he
          cases he
          rfl
      refine hjudge.handle (fun _ _ hx => hx) ?_
      intro e s' hx
      rw [if_neg (by rw [hx.1 e rfl]; exact Bool.false_ne_true)]
      exact guided_fail e hx
  · rw [if_neg htier]
    exact done_judges h c task tool false none _ (Or.inr ⟨rfl, by simpa using htier⟩)

theorem governanceCheck_goes (hg : g.tool = tool) :
    Goes h c task tool (governanceCheck h c task g : Call V X (Bool × Option String)) .checking
      fun x s => ∀ failOpen approvalId, x = .ok (failOpen, approvalId) → Cleared tool approvalId s := by
  refine (checkRevoked_goes h c task tool g).bind (fun _ s hs => ?_) fun _ _ _ => nofun
  rw [hs rfl]
  refine (checkKillSwitch_goes h c task tool g).bind (fun _ s hs => ?_) fun _ _ _ => nofun
  rw [hs rfl]
  refine (checkToken_goes h c task tool g hg).bind (fun _ s hs => ?_) fun _ _ _ => nofun
  rw [hs rfl]
  exact (checkPreflight_goes h c task tool g hg).mono fun _ _ hx => hx.2

/-! ## The approval gate -/

/-- Where the outcome of a poll leaves the call: approved, or still to be denied. -/
def Settled (id outcome : String) (s : Stage) : Prop :=
  if outcome = "approved" then s = .approved id else s = .closed ∨ ∃ id, s = .waiting id

theorem settled_of_ne {id outcome : String} {s : Stage} (hne : outcome ≠ "approved")
    (hs : s = .closed ∨ ∃ id, s = .waiting id) : Settled id outcome s := by
  rwa [Settled, if_neg hne]

/-- One iteration of the poll ends it, or goes on waiting. -/
def PolledOnce (id : String) : Except (Exc X) (Option String × ℚ) → Stage → Prop
  | .ok (some outcome, _), s => Settled id outcome s
  | .ok (none, _), s => s = .waiting id
  | .error _, _ => True

theorem approvalPollOnce_goes (id : String) (deadline : ℚ) :
    Goes h c task tool (approvalPollOnce h c id deadline : Call V X (Option String × ℚ))
      (.waiting id) (PolledOnce id) := by
  unfold approvalPollOnce
  rw [← tryStatus, tryStatus_eq, Dialogue.ask_bind]
  refine guided_ask fun answer => ⟨_, .status id _ answer rfl, ?_⟩
  unfold statusStage settledAs
  cases answerText h "status" answer with
  | none => exact guided_done _ (settled_of_ne (by decide) (Or.inl rfl))
  | some status =>
    simp only [Dialogue.done_bind]
    by_cases hterm : status ∈ approvalTerminal
    · rw [if_pos hterm, if_pos hterm]
      simp only
      by_cases happroved : status = "approved"
      · rw [if_pos happroved]
        refine guided_done _ ?_
        rw [PolledOnce, Settled, if_pos happroved]
      · rw [if_neg happroved]
        exact guided_done _ (settled_of_ne happroved (Or.inl rfl))
    · rw [if_neg hterm, if_neg hterm]
      refine guided_query_bind fun now => ⟨_, .clock _ now, ?_⟩
      split
      · exact guided_done _ (settled_of_ne (by decide) (Or.inr ⟨id, rfl⟩))
      · exact guided_done _ rfl

theorem pollWith_goes (mode : Mode) (id : String) (fuel : ℕ) :
    Goes h c task tool (pollWith mode h c id fuel : Call V X String) (.waiting id)
      fun x s => ∀ outcome, x = .ok outcome → Settled id outcome s := by
  rw [pollWith_eq]
  refine guided_query_bind fun now => ⟨_, .clock _ now, ?_⟩
  induction fuel with
  | zero =>
    rw [pollLoop_zero]
    exact guided_spent
  | succ fuel ih =>
    rw [pollLoop_step]
    refine (approvalPollOnce_goes h c task tool id _).bind ?_ fun _ _ _ => nofun
    rintro ⟨result, sleepFor⟩ s hs
    cases result with
    | some result =>
      refine guided_done result ?_
      intro outcome hx
      cases hx
      exact hs
    | none =>
      rw [show s = .waiting id from hs]
      refine guided_ask fun slept => ⟨_, .sleep id mode sleepFor slept, ?_⟩
      cases slept with
      | ok _ => exact ih
      | error e => exact guided_fail _ nofun

theorem redeemApproval_goes (id : String) (token : PyVal) :
    Goes h c task tool (redeemApproval h c id token g : Call V X String) (.approved id)
      fun x s => ∀ grant, x = .ok grant → s = .permitted := by
  unfold redeemApproval
  rw [← tryRedeem, tryRedeem_eq, Dialogue.ask_bind]
  refine guided_ask fun answer => ⟨_, .redeem id _ answer rfl, ?_⟩
  unfold redeemStage
  rcases redeemResult_cases h answer with ⟨kvs, hg, hne, heq⟩ | ⟨hg, heq⟩
  · rw [heq, hg]
    simp only [Dialogue.done_bind, PyVal.get_dict, liftPy]
    rw [← fieldText, if_neg hne]
    exact guided_done _ fun _ _ => rfl
  · rw [heq, hg]
    exact deny_goes h c task tool g _ _ .closed (Or.inl rfl) fun e _ grant hx => by cases hx

theorem approvalGate_goes (mode : Mode) (id : String) (fuel : ℕ) :
    Goes h c task tool (approvalGate mode h c task g id fuel : Call V X String) (.waiting id)
      fun x s => ∀ grant, x = .ok grant → s = .permitted := by
  unfold approvalGate
  refine (pollWith_goes h c task tool mode id fuel).bind (fun outcome s hs => ?_) fun _ _ _ => nofun
  have hsettled := hs outcome rfl
  unfold Settled at hsettled
  unfold finalizeApproval
  by_cases happroved : outcome = "approved"
  · rw [if_pos happroved] at hsettled ⊢
    rw [hsettled]
    exact redeemApproval_goes h c task tool g id _
  · rw [if_neg happroved] at hsettled ⊢
    have hdeny (reason : PyVal) (message : String) :
        Goes h c task tool (deny g reason message : Call V X Unit) s fun x _ => x ≠ .ok () :=
      deny_goes h c task tool g reason message s hsettled fun e _ hx => by cases hx
    exact (hdeny _ _).bind (fun _ _ hx => absurd rfl hx) fun _ _ _ => nofun

/-! ## The whole call -/

theorem execute_goes (mode : Mode) (call : CallArgs) (failOpen : Bool) (grant : Option String)
    (promptEntropy : UInt64) (s : Stage) (hs : Cleared tool none s) :
    Goes h c task tool (execute mode call g failOpen grant promptEntropy : Call V X V) s
      fun _ _ => True := by
  rw [execute_eq]
  refine guided_query_bind fun t0 => ⟨_, .clock s t0, ?_⟩
  refine guided_query_bind fun result => ⟨_, .execute s hs mode call result, ?_⟩
  refine guided_query_bind fun t1 => ⟨_, .clock _ t1, ?_⟩
  refine guided_query_bind fun _ => ⟨_, .record _, ?_⟩
  cases result with
  | ok v => exact guided_done v trivial
  | error x => exact guided_fail _ trivial

/-- **Every conversation of a call goes by the protocol.** -/
theorem wrapper_goes (d : Decorator) (mode : Mode) (call : CallArgs) (fuel : ℕ) :
    Goes h c task tool (wrapper d mode h (some (c, task)) tool call fuel : Call V X V) .checking
      fun _ _ => True := by
  rw [wrapper_eq]
  cases hah : call.raw.argsHash h with
  | none =>
    rw [governedCall_unhashed h c task tool mode call _ _ fuel hah]
    exact guided_fail _ trivial
  | some ah =>
    rw [governedCall_eq h c task tool mode call _ _ fuel ah hah]
    refine (governanceCheck_goes h c task tool _ rfl).bind ?_ fun _ _ _ => trivial
    rintro ⟨failOpen, approvalId⟩ s hs
    have hcleared := hs failOpen approvalId rfl
    cases approvalId with
    | none => exact execute_goes h c task tool _ mode call failOpen none _ s hcleared
    | some id =>
      rw [show s = .waiting id from hcleared]
      refine (approvalGate_goes h c task tool _ mode id fuel).bind (fun grant s' hs' => ?_)
        fun _ _ _ => trivial
      exact execute_goes h c task tool _ mode call failOpen (some grant) _ s' (Or.inl (hs' grant rfl))

end Guidance

end Sigil.Gate
