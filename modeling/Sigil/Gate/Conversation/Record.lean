import Sigil.Gate.Conversation.Call
import Sigil.Library.Monitor

/-! # What a governed call records

`Records` reads a conversation for what it leaves in the audit trail: a call that has not executed
may record one denial, and one that has executed records how that went. `Concludes` says how a call
ends, given what it has recorded.
-/
set_option autoImplicit false

namespace Sigil.Gate

open Dialogue (Guided Only guided_ask guided_done guided_fail guided_query_bind guided_spent)

variable {V X α β : Type}

/-! ## The reading -/

/-- The denial codes of the SDK itself. -/
def denialCodes : List String :=
  ["agent_revoked", "kill_switch_degraded", "token_invalid", "task_expired", "tool_not_in_scope",
    "tenant_mismatch", "sigil_unreachable", "policy_deny", "unknown_verdict",
    "approval_service_unavailable", "approval_rejected", "approval_expired", "approval_timeout",
    "approval_replayed", "approval_token_unavailable"]

/-- A code of the SDK, or the reason the answer to preflight gives. -/
inductive Explains (preflight : Option HttpAnswer) : PyVal → Prop where
  | code (reason : String) (hr : reason ∈ denialCodes) : Explains preflight (.str reason)
  | server (answer : HttpAnswer) (kvs : List (PyKey × PyVal)) (reason : PyVal)
      (hp : preflight = some answer) (hv : answer.json? 200 = some (.dict kvs))
      (hr : kvs.lookup (.str "denied_reason") = some reason) (ht : reason.truthy = true) :
      Explains preflight reason

inductive Progress (V X : Type) where
  /-- Nothing is recorded or executed; with the answer to preflight, if it has been asked. -/
  | checking (preflight : Option HttpAnswer)
  | denied (preflight : Option HttpAnswer) (sink : Sink) (reason : PyVal)
  | ran (result : Except X V)
  | recorded (result : Except X V) (event : PyVal)

def preflightOf : CallEvent V X → Option HttpAnswer
  | ⟨.http r, answer⟩ => match r.route with
    | .preflight => some answer
    | _ => none
  | _ => none

/-- Neither recorded nor executed. -/
def Quiet (e : CallEvent V X) : Prop := auditOf e = none ∧ executionOf e = none

/-- The event of an execution. -/
structure Attests (g : Governed) (entropy : UInt64) (result : Except X V) (event : PyVal) : Prop where
  made : ∃ latencyMs failOpen grant,
    event = makeEvent g latencyMs (outcomeOf result) none failOpen grant entropy ∧
      (failOpen = true ∨ grant.isSome = true → g.tool.riskTier.isHighRisk = true)

inductive Records (g : Governed) (mode : Mode) (call : CallArgs) (entropy : UInt64) :
    Progress V X → CallEvent V X → Progress V X → Prop where
  | quiet (p : Option HttpAnswer) (e : CallEvent V X) (he : Quiet e) :
      Records g mode call entropy (.checking p) e (.checking ((preflightOf e).or p))
  | deny (p : Option HttpAnswer) (reason : PyVal) (hr : Explains p reason) :
      Records g mode call entropy (.checking p) ⟨.push (deniedEvent g (some reason)), ()⟩
        (.denied p .buffer reason)
  | spill (p : Option HttpAnswer) (reason : PyVal) (hr : reason = .str "sigil_unreachable") :
      Records g mode call entropy (.checking p) ⟨.overflowWrite (deniedEvent g (some reason)), ()⟩
        (.denied p .overflow reason)
  | execute (p : Option HttpAnswer) (result : Except X V) :
      Records g mode call entropy (.checking p) ⟨.execute mode call, result⟩ (.ran result)
  | clock (result : Except X V) (now : ℚ) :
      Records g mode call entropy (.ran result) ⟨.monotonic, now⟩ (.ran result)
  | record (result : Except X V) (event : PyVal) (he : Attests g entropy result event) :
      Records g mode call entropy (.ran result) ⟨.push event, ()⟩ (.recorded result event)

/-! ## Checks -/

/-- How a check ends: it passes, it raises a Python error or `unissued`, or it records a denial and
raises it. -/
inductive Screened (g : Governed) (unissued : Denied → Prop) (ok : α → Prop) :
    Except (Exc X) α → Progress V X → Prop where
  | passed (a : α) (p : Option HttpAnswer) (ha : ok a) :
      Screened g unissued ok (.ok a) (.checking p)
  | crashed (e : PyError) (p : Option HttpAnswer) :
      Screened g unissued ok (.error (.py e)) (.checking p)
  | unissued (d : Denied) (p : Option HttpAnswer) (hd : unissued d) :
      Screened g unissued ok (.error (.denied d)) (.checking p)
  | denied (d : Denied) (p : Option HttpAnswer) (sink : Sink) (htool : d.toolName = g.tool.fqn)
      (htask : d.taskId = g.taskId) (hsink : d.unreachable = true → sink = .overflow) :
      Screened g unissued ok (.error (.denied d)) (.denied p sink d.deniedReason)

section Checks

variable {g : Governed} {mode : Mode} {call : CallArgs} {entropy : UInt64}
  {unissued : Denied → Prop} {ok : α → Prop}

/-- A dialogue that may be read from any stage before the execution. -/
def Screens (g : Governed) (mode : Mode) (call : CallArgs) (entropy : UInt64)
    (unissued : Denied → Prop) (ok : α → Prop) (p : Call V X α) : Prop :=
  ∀ pre, Guided (Records g mode call entropy) p (.checking pre) (Screened g unissued ok)

theorem screens_done (a : α) (ha : ok a) :
    Screens g mode call entropy unissued ok (.done a : Call V X α) :=
  fun pre => guided_done a (.passed a pre ha)

theorem screens_query_bind {q : Question} {f : Answer V X q → Call V X α}
    (hq : ∀ a, Quiet (⟨q, a⟩ : CallEvent V X))
    (hf : ∀ a, Screens g mode call entropy unissued ok (f a)) :
    Screens g mode call entropy unissued ok (Dialogue.query q >>= f) := by
  intro pre
  exact guided_query_bind fun a => ⟨_, .quiet pre ⟨q, a⟩ (hq a), hf a _⟩

theorem Screens.bind {mid : β → Prop} {p : Call V X β} {f : β → Call V X α}
    (hp : Screens g mode call entropy unissued mid p)
    (hf : ∀ b, mid b → Screens g mode call entropy unissued ok (f b)) :
    Screens g mode call entropy unissued ok (p >>= f) := by
  intro pre
  refine (hp pre).bind ?_ ?_
  · intro b s hs
    cases hs with
    | passed _ p hb => exact hf b hb p
  · intro e s hs
    cases hs with
    | crashed e p => exact .crashed e p
    | unissued d p hd => exact .unissued d p hd
    | denied d p sink htool htask hsink => exact .denied d p sink htool htask hsink

theorem deny_guided (reason : PyVal) (message : String) (pre : Option HttpAnswer)
    (hr : Explains pre reason) :
    Guided (Records g mode call entropy) (deny g reason message : Call V X α) (.checking pre)
      (Screened g unissued ok) := by
  refine guided_query_bind fun _ => ⟨_, .deny pre reason hr, guided_fail _ ?_⟩
  exact .denied (g.denied reason message) pre .buffer rfl rfl (fun h => by cases h)

theorem deny_screens (reason message : String) (hr : reason ∈ denialCodes) :
    Screens g mode call entropy unissued ok (deny g (.str reason) message : Call V X α) :=
  fun pre => deny_guided _ message pre (.code reason hr)

/-! ## The governance check -/

theorem checkRevoked_screens :
    Screens g mode call entropy unissued (fun _ => True) (checkRevoked g : Call V X Unit) := by
  unfold checkRevoked
  refine screens_query_bind (fun _ => ⟨rfl, rfl⟩) fun revoked => ?_
  cases revoked with
  | true => exact deny_screens _ _ (by decide)
  | false => exact screens_done () trivial

theorem checkKillSwitch_screens (c : SigilClient) :
    Screens g mode call entropy unissued (fun _ => True) (checkKillSwitch c g : Call V X Unit) := by
  unfold checkKillSwitch
  cases c.killSwitchFailMode with
  | opened => exact screens_done () trivial
  | closed =>
    refine screens_query_bind (fun _ => ⟨rfl, rfl⟩) fun healthy => ?_
    cases healthy with
    | true => exact screens_done () trivial
    | false => exact deny_screens _ _ (by decide)

/-- Denied for want of a token. -/
def Unissued (task : SigilTaskContext) (g : Governed) (d : Denied) : Prop :=
  task.biscuitToken.isNone = true ∧ d = g.denied (.str "token_invalid")
    "Task context has no biscuit token (was __enter__ called?)"

theorem checkToken_screens (h : Host) (c : SigilClient) (task : SigilTaskContext) :
    Screens g mode call entropy (Unissued task g) (fun _ => True)
      (checkToken h c task g : Call V X Unit) := by
  unfold checkToken checkVerified
  by_cases hnone : task.biscuitToken.isNone = true
  · rw [if_pos hnone]
    exact fun pre => guided_fail _ (.unissued _ pre ⟨hnone, rfl⟩)
  · rw [if_neg hnone]
    refine screens_query_bind (fun _ => ⟨rfl, rfl⟩) fun now => ?_
    cases hvr : verifyTask h c task.biscuitToken g.tool now with
    | error e => exact fun pre => guided_fail _ (.crashed e pre)
    | ok vr =>
      simp only [liftPy, Dialogue.done_bind]
      cases hok : vr.ok with
      | true => exact screens_done () trivial
      | false =>
        obtain ⟨reason, hmem, hreason⟩ := verifyTask_explained h c _ _ _ vr hvr hok
        have hcode : reason ∈ denialCodes := by
          revert hmem
          simp only [Verify.deniedReasons, denialCodes, List.mem_cons, List.not_mem_nil, or_false]
          tauto
        have hne : reason ≠ "" := by
          intro hempty
          subst hempty
          exact absurd hmem (by decide)
        have hstr : strOr vr.reason "token_invalid" = reason := by
          rw [hreason]
          exact if_neg hne
        rw [hstr, hreason]
        intro pre
        refine guided_query_bind fun _ => ⟨_, .deny pre _ (.code reason hcode), guided_fail _ ?_⟩
        exact .denied (g.denied (.str reason) _) pre .buffer rfl rfl (fun h => by cases h)

/-- What preflight may decide: only a high-risk tool fails open or waits for an approval. -/
def Decides (tool : Tool) (x : Bool × Option String) : Prop :=
  x.1 = true ∨ x.2.isSome = true → tool.riskTier.isHighRisk = true

theorem judgeVerdict_guided (h : Host) (answer : HttpAnswer) (verdict : PyVal)
    (hv : answer.json? 200 = some verdict) (htier : g.tool.riskTier.isHighRisk = true) :
    Guided (Records g mode call entropy) (judgeVerdict h g verdict : Call V X (Bool × Option String))
      (.checking (some answer)) (Screened g unissued (Decides g.tool)) := by
  cases verdict with
  | dict kvs =>
    unfold judgeVerdict
    simp only [PyVal.get_dict, liftPy, Dialogue.done_bind]
    split
    · refine deny_guided _ _ _ ?_
      unfold PyVal.orElse
      cases hr : kvs.lookup (.str "denied_reason") with
      | none => exact .code "policy_deny" (by decide)
      | some reason =>
        rw [Option.getD_some]
        split
        · next ht => exact .server answer kvs reason rfl hv hr ht
        · exact .code "policy_deny" (by decide)
    · split
      · split
        · exact screens_done _ (fun _ => htier) _
        · exact deny_screens _ _ (by decide) _
      · split
        · exact screens_done _ (fun _ => htier) _
        · exact deny_screens _ _ (by decide) _
  | _ => exact guided_fail _ (.crashed _ _)

theorem afterUnreachable_screens (c : SigilClient) (htier : g.tool.riskTier.isHighRisk = true) :
    Screens g mode call entropy unissued (Decides g.tool)
      (afterUnreachable c g : Call V X (Bool × Option String)) := by
  intro pre
  unfold afterUnreachable handlePreflightUnreachable
  cases c.failMode with
  | opened => exact guided_done _ (.passed _ pre fun _ => htier)
  | closed =>
    refine guided_query_bind fun _ => ⟨_, .spill pre _ rfl, guided_fail _ ?_⟩
    exact .denied { g.denied (.str "sigil_unreachable") _ with unreachable := true } pre .overflow
      rfl rfl fun _ => rfl

theorem checkPreflight_screens (h : Host) (c : SigilClient) (task : SigilTaskContext) :
    Screens g mode call entropy unissued (Decides g.tool)
      (checkPreflight h c task g : Call V X (Bool × Option String)) := by
  unfold checkPreflight
  by_cases htier : g.tool.riskTier.isHighRisk = true
  · rw [if_pos htier]
    intro pre
    refine guided_ask fun answer => ⟨_, .quiet pre _ ⟨rfl, rfl⟩, ?_⟩
    show Guided (Records g mode call entropy) (Dialogue.handle
      (fun e => if e.isUnreachable then some (afterUnreachable c g) else none)
      (Dialogue.ofExcept (SigilClient.receive "preflight" 200 _ answer) >>= judgeVerdict h g))
        (Progress.checking (some answer)) _
    cases hv : answer.json? 200 with
    | none =>
      obtain ⟨e, hreceive, he⟩ := receive_of_no_json (X := X) "preflight" 200 _ answer hv
      rw [hreceive]
      simp only [Dialogue.ofExcept, Dialogue.fail_bind, Dialogue.handle, if_pos he, Option.getD_some]
      exact afterUnreachable_screens c htier _
    | some v =>
      rw [receive_of_json "preflight" 200 _ answer v hv]
      simp only [Dialogue.ofExcept, Dialogue.done_bind]
      refine (judgeVerdict_guided h answer v hv htier).handle (fun _ _ hs => hs) ?_
      intro e s hs
      cases hs with
      | crashed e p => exact guided_fail _ (.crashed e p)
      | unissued d p hd => exact guided_fail _ (.unissued d p hd)
      | denied d p sink htool htask hsink =>
        exact guided_fail _ (.denied d p sink htool htask hsink)
  · rw [if_neg htier]
    refine screens_done _ ?_
    intro hx
    exact absurd hx (by simp)

theorem governanceCheck_screens (h : Host) (c : SigilClient) (task : SigilTaskContext) :
    Screens g mode call entropy (Unissued task g) (Decides g.tool)
      (governanceCheck h c task g : Call V X (Bool × Option String)) :=
  checkRevoked_screens.bind fun _ _ => (checkKillSwitch_screens c).bind fun _ _ =>
    (checkToken_screens h c task).bind fun _ _ => checkPreflight_screens h c task

/-! ## The approval gate -/

theorem approvalPollOnce_screens (h : Host) (c : SigilClient) (id : String) (deadline : ℚ) :
    Screens g mode call entropy unissued (fun _ => True)
      (approvalPollOnce h c id deadline : Call V X (Option String × ℚ)) := by
  unfold approvalPollOnce
  rw [← tryStatus, tryStatus_eq, Dialogue.ask_bind]
  refine screens_query_bind (fun _ => ⟨rfl, rfl⟩) fun answer => ?_
  cases answerText h "status" answer with
  | none => exact screens_done _ trivial
  | some status =>
    simp only
    split
    · exact screens_done _ trivial
    · refine screens_query_bind (fun _ => ⟨rfl, rfl⟩) fun now => ?_
      split
      · exact screens_done _ trivial
      · exact screens_done _ trivial

theorem sleep_screens (m : Mode) (seconds : ℚ) :
    Screens g mode call entropy unissued (fun _ => True) (sleep m seconds : Call V X Unit) := by
  refine screens_query_bind (fun _ => ⟨rfl, rfl⟩) fun slept => ?_
  cases slept with
  | ok _ => exact screens_done () trivial
  | error e => exact fun pre => guided_fail _ (.crashed e pre)

theorem pollWith_screens (m : Mode) (h : Host) (c : SigilClient) (id : String) (fuel : ℕ) :
    Screens g mode call entropy unissued (fun _ => True)
      (pollWith m h c id fuel : Call V X String) := by
  rw [pollWith_eq]
  refine screens_query_bind (fun _ => ⟨rfl, rfl⟩) fun now => ?_
  induction fuel with
  | zero =>
    rw [pollLoop_zero]
    exact fun _ => guided_spent
  | succ fuel ih =>
    rw [pollLoop_step]
    refine (approvalPollOnce_screens h c id _).bind fun polled _ => ?_
    obtain ⟨result, sleepFor⟩ := polled
    cases result with
    | some result => exact screens_done result trivial
    | none => exact (sleep_screens m sleepFor).bind fun _ _ => ih

theorem finalizeReason_mem (outcome : String) : finalizeReason outcome ∈ denialCodes := by
  unfold finalizeReason
  simp only [List.lookup_cons, List.lookup_nil]
  repeat' split
  all_goals decide

theorem finalizeApproval_screens (outcome : String) :
    Screens g mode call entropy unissued (fun _ => True)
      (finalizeApproval g outcome : Call V X Unit) := by
  unfold finalizeApproval
  split
  · exact screens_done () trivial
  · exact deny_screens _ _ (finalizeReason_mem outcome)

theorem redeemReason_mem (answer : HttpAnswer) : redeemReason answer ∈ denialCodes := by
  cases answer with
  | raised => decide
  | response status body =>
    by_cases hs : status = 409
    · rw [redeemReason, if_pos hs]
      decide
    · rw [redeemReason, if_neg hs]
      decide

theorem redeemApproval_screens (h : Host) (c : SigilClient) (id : String) (token : PyVal) :
    Screens g mode call entropy unissued (fun _ => True)
      (redeemApproval h c id token g : Call V X String) := by
  unfold redeemApproval
  rw [← tryRedeem, tryRedeem_eq, Dialogue.ask_bind]
  refine screens_query_bind (fun _ => ⟨rfl, rfl⟩) fun answer => ?_
  rcases redeemResult_cases h answer with ⟨kvs, -, hne, heq⟩ | ⟨-, heq⟩
  · rw [heq]
    simp only [Dialogue.done_bind, PyVal.get_dict, liftPy]
    rw [← fieldText, if_neg hne]
    exact screens_done _ trivial
  · rw [heq]
    exact deny_screens _ _ (redeemReason_mem answer)

theorem approvalGate_screens (m : Mode) (h : Host) (c : SigilClient) (task : SigilTaskContext)
    (id : String) (fuel : ℕ) :
    Screens g mode call entropy unissued (fun _ => True)
      (approvalGate m h c task g id fuel : Call V X String) := by
  unfold approvalGate
  exact (pollWith_screens m h c id fuel).bind fun outcome _ =>
    (finalizeApproval_screens outcome).bind fun _ _ => redeemApproval_screens h c id _

end Checks

/-! ## The whole call -/

/-- How a call ends, and what it has recorded by then. -/
inductive Concludes (task : SigilTaskContext) (g : Governed) :
    Except (Exc X) V → Progress V X → Prop where
  | crashed (e : PyError) (p : Option HttpAnswer) : Concludes task g (.error (.py e)) (.checking p)
  | unissued (d : Denied) (p : Option HttpAnswer) (hd : Unissued task g d) :
      Concludes task g (.error (.denied d)) (.checking p)
  | denied (d : Denied) (p : Option HttpAnswer) (sink : Sink) (htool : d.toolName = g.tool.fqn)
      (htask : d.taskId = g.taskId) (hsink : d.unreachable = true → sink = .overflow) :
      Concludes task g (.error (.denied d)) (.denied p sink d.deniedReason)
  | executed (result : Except X V) (event : PyVal) :
      Concludes task g (result.mapError .raised) (.recorded result event)

section Whole

variable (task : SigilTaskContext) (g : Governed) (mode : Mode) (call : CallArgs) (entropy : UInt64)

theorem execute_guided (failOpen : Bool) (grant : Option String)
    (hhigh : Decides g.tool (failOpen, grant)) (pre : Option HttpAnswer) :
    Guided (Records g mode call entropy)
      (execute mode call g failOpen grant entropy : Call V X V) (.checking pre)
      (Concludes task g) := by
  rw [execute_eq]
  refine guided_query_bind fun t0 => ⟨_, .quiet pre _ ⟨rfl, rfl⟩, ?_⟩
  refine guided_query_bind fun result => ⟨_, .execute _ result, ?_⟩
  refine guided_query_bind fun t1 => ⟨_, .clock result t1, ?_⟩
  refine guided_query_bind fun _ => ⟨_, .record result _ ⟨_, failOpen, grant, rfl, hhigh⟩, ?_⟩
  cases result with
  | ok v => exact guided_done v (.executed (.ok v) _)
  | error x => exact guided_fail _ (.executed (.error x) _)

theorem Screened.concludes {ok : α → Prop} {e : Exc X} {s : Progress V X}
    (hs : Screened g (Unissued task g) ok (.error e : Except (Exc X) α) s) :
    Concludes task g (.error e) s := by
  cases hs with
  | crashed e p => exact .crashed e p
  | unissued d p hd => exact .unissued d p hd
  | denied d p sink htool htask hsink => exact .denied d p sink htool htask hsink

end Whole

/-- **What a call has recorded by the time it ends.** -/
theorem wrapper_guided (h : Host) (c : SigilClient) (task : SigilTaskContext) (d : Decorator)
    (mode : Mode) (tool : Tool) (call : CallArgs) (ah : String)
    (hah : call.raw.argsHash h = some ah) (fuel : ℕ) :
    Guided (Records (d.governed c task tool call ah) mode call (d.promptEntropy h call))
      (wrapper d mode h (some (c, task)) tool call fuel : Call V X V) (.checking none)
      (Concludes task (d.governed c task tool call ah)) := by
  rw [wrapper_eq, governedCall_eq h c task tool mode call _ _ fuel ah hah]
  refine (governanceCheck_screens h c task none).bind ?_ fun e s hs => hs.concludes
  intro decided s hs
  obtain ⟨failOpen, approvalId⟩ := decided
  cases hs with
  | passed _ p hhigh =>
    cases approvalId with
    | none => exact execute_guided task _ mode call _ failOpen none hhigh p
    | some id =>
      refine (approvalGate_screens mode h c task id fuel p).bind ?_ fun e s hs => hs.concludes
      intro grant s hs
      cases hs with
      | passed _ p' _ =>
        exact execute_guided task _ mode call _ failOpen (some grant)
          (fun _ => hhigh (Or.inr rfl)) p'

end Sigil.Gate
