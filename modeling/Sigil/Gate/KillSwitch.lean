import Sigil.Gate.Audit

/-! # The kill-switch, end to end

The subscriber thread applies payloads while calls are made; a `Schedule` says which it has applied
at every moment. A kill that reaches the client's own agent denies every later call. A kill the
subscriber takes for another agent's changes nothing, although the task's token may have been issued
for that agent, and a call that is past its revocation check does not look at the registry again.
-/
set_option autoImplicit false

namespace Sigil.Gate

open Revocation (Payload RevocationSubscriber)
open Dialogue (Run)

variable {V X : Type}

/-! ## Schedules -/

/-- The payloads applied once so many questions have been asked. -/
structure Schedule where
  applied : ℕ → List Payload
  grows : ∀ n, applied n <+: applied (n + 1)

theorem Schedule.applied_mono (P : Schedule) {n n' : ℕ} (hn : n ≤ n') :
    P.applied n <+: P.applied n' := by
  induction n', hn using Nat.le_induction with
  | base => exact List.prefix_rfl
  | succ k _ ih => exact ih.trans (P.grows k)

/-- The script, with its revocation questions answered from the registry so maintained. -/
def Schedule.drive (P : Schedule) (c : SigilClient) (S : Script V X) : Script V X :=
  S.withRegistry fun n agentId taskId =>
    c.isRevoked (c.subscriber.applyAll (P.applied n)) agentId taskId

/-! ## Kills -/

/-- The payload is a kill of our tenant, or of the agent the task's token is issued for. -/
def KillsTask (c : SigilClient) (task : SigilTaskContext) (p : Payload) : Prop :=
  p.tenantId.getD "" = c.tenantId ∧ (p.scope.getD "" = "tenant" ∨
    (p.scope.getD "" ∈ ["agent", "task", "single"] ∧ p.agentId.getD "" = task.issuedAgentId c))

/-- The client can notice the kill: it has an agent id of its own, and the kill is tenant-wide or
the task's token is issued for that very agent. -/
def Noticed (c : SigilClient) (task : SigilTaskContext) (p : Payload) : Prop :=
  c.agentId ≠ "" ∧ (p.scope.getD "" = "tenant" ∨ task.issuedAgentId c = c.agentId)

theorem accepted_of_noticed {c : SigilClient} {task : SigilTaskContext} {p : Payload}
    (hkill : KillsTask c task p) (hnoticed : Noticed c task p) : c.subscriber.Accepted p := by
  obtain ⟨htenant, hscope | ⟨hscope, hagent⟩⟩ := hkill
  · exact Or.inl ⟨hscope, htenant⟩
  · rcases hnoticed.2 with htenantwide | hissued
    · exact Or.inl ⟨htenantwide, htenant⟩
    · exact Or.inr ⟨hscope, hagent.trans hissued, Or.inr htenant⟩

theorem apply_of_not_noticed {c : SigilClient} {task : SigilTaskContext} {p : Payload}
    (s : RevocationSubscriber) (hagent : s.agentId = c.agentId) (hissued : task.issuedAgentId c ≠ "")
    (hkill : KillsTask c task p) (hnoticed : ¬ Noticed c task p) : s.apply p = s := by
  obtain ⟨-, hscope | ⟨hscope, hkilled⟩⟩ := hkill
  · have hempty : s.agentId = "" := by
      rw [hagent]
      by_contra hne
      exact hnoticed ⟨hne, Or.inl hscope⟩
    simp [RevocationSubscriber.apply, hscope, hempty]
  · have hother : task.issuedAgentId c ≠ c.agentId := by
      intro hsame
      exact hnoticed ⟨hsame ▸ hissued, Or.inr hsame⟩
    refine RevocationSubscriber.apply_rejected s p ?_
    rintro (⟨htenantwide, -⟩ | ⟨-, hours, -⟩)
    · rw [htenantwide] at hscope
      exact absurd hscope (by decide)
    · exact hother (hkilled.symm.trans (hours.trans hagent))

theorem revoked_call_denied (S : Script V X) (h : Host) (c : SigilClient) (task : SigilTaskContext)
    (d : Decorator) (mode : Mode) (tool : Tool) (call : CallArgs) (ah : String)
    (hah : call.raw.argsHash h = some ah) (fuel : ℕ) (m : Moment)
    (hrevoked : S.isRevoked m.asked c.agentId (strOr task.taskId "") = true) :
    DeniedWith (.str "agent_revoked")
      [(.buffer, deniedEvent (d.governed c task tool call ah) (some (.str "agent_revoked")))]
      (S.play (wrapper d mode h (some (c, task)) tool call fuel) m) := by
  rw [wrapper_eq, governedCall_eq h c task tool mode call _ _ fuel ah hah]
  have hcheck := governanceCheck_play S h c task (d.governed c task tool call ah) m
  have hrule : rule h c task (d.governed c task tool call ah).tool
      (S.hearing (d.governed c task tool call ah) m) = .refused .buffer (.str "agent_revoked") :=
    if_pos hrevoked
  rw [hrule] at hcheck
  exact DeniedWith.bind hcheck

theorem isRevoked_of_accepted {c : SigilClient} (hsub : c.subscribed = true) (hagent : c.agentId ≠ "")
    {ps : List Payload} {p : Payload} (hp : p ∈ ps) (haccepted : c.subscriber.Accepted p)
    (taskId : String) : c.isRevoked (c.subscriber.applyAll ps) c.agentId taskId = true := by
  unfold SigilClient.isRevoked
  rw [hsub, Bool.true_and]
  exact (RevocationSubscriber.init_isRevoked_iff c.tenantId c.agentId hagent ps (some taskId)).mpr
    ⟨p, hp, haccepted⟩

/-- **The kill-switch, end to end.** Once a noticed kill of the task has been applied, every later
call in it, from any state, is denied, and the wrapped function is not executed. (A call whose
arguments have no hash is refused before the governance check.) -/
theorem killed_task_denied (h : Host) (S : Script V X) (P : Schedule) (c : SigilClient)
    (hsub : c.subscribed = true) (task : SigilTaskContext) (p : Payload)
    (hkill : KillsTask c task p) (hnoticed : Noticed c task p) (n : ℕ) (hp : p ∈ P.applied n)
    (m : Moment) (hlater : n ≤ m.asked) (d : Decorator) (mode : Mode) (tool : Tool)
    (call : CallArgs) (fuel : ℕ) :
    executions ((P.drive c S).play (wrapper d mode h (some (c, task)) tool call fuel) m).events =
        [] ∧
      ((call.raw.argsHash h).isSome = true → ∃ den : Denied,
        ((P.drive c S).play (wrapper d mode h (some (c, task)) tool call fuel) m).result =
          .raised (.denied den) ∧ den.deniedReason = .str "agent_revoked") := by
  have hrevoked : (P.drive c S).isRevoked m.asked c.agentId (strOr task.taskId "") = true :=
    isRevoked_of_accepted hsub hnoticed.1 ((P.applied_mono hlater).subset hp)
      (accepted_of_noticed hkill hnoticed) _
  constructor
  · by_contra hexec
    obtain ⟨ah, hah⟩ := argsHash_of_execution h _ c task d mode tool call fuel m hexec
    exact hexec (revoked_call_denied _ h c task d mode tool call ah hah fuel m hrevoked).executions
  · intro hargs
    obtain ⟨ah, hah⟩ := Option.isSome_iff_exists.mp hargs
    exact (revoked_call_denied _ h c task d mode tool call ah hah fuel m hrevoked).raised

/-- A kill that is not noticed stops no call that was permitted without it. -/
theorem unnoticed_kill_ignored (h : Host) (S : Script V X) (P : Schedule) (c : SigilClient)
    (task : SigilTaskContext) (hissued : task.issuedAgentId c ≠ "") (m : Moment)
    (hkills : ∀ p ∈ P.applied m.asked, KillsTask c task p ∧ ¬ Noticed c task p) (d : Decorator)
    (mode : Mode) (tool : Tool) (call : CallArgs) (hargs : (call.raw.argsHash h).isSome = true)
    (fuel : ℕ) (hfuel : pollFuel c ≤ fuel) (hpermitted : Permitted h S c task tool m) :
    executions ((P.drive c S).play (wrapper d mode h (some (c, task)) tool call fuel) m).events =
      [(mode, call)] := by
  have hregistry : c.subscriber.applyAll (P.applied m.asked) = c.subscriber := by
    generalize P.applied m.asked = ps at hkills
    induction ps with
    | nil => rfl
    | cons p ps ih =>
      have hp := hkills p List.mem_cons_self
      have happly := apply_of_not_noticed c.subscriber rfl hissued hp.1 hp.2
      rw [RevocationSubscriber.applyAll, List.foldl_cons, happly]
      exact ih fun q hq => hkills q (List.mem_cons_of_mem p hq)
  have hanswer : c.isRevoked (c.subscriber.applyAll (P.applied m.asked)) c.agentId
      (strOr task.taskId "") = false := by
    rw [hregistry]
    simp [SigilClient.isRevoked, SigilClient.subscriber, RevocationSubscriber.isRevoked,
      RevocationSubscriber.init, OrderedDict.empty, OrderedDict.keys]
  rcases wrapper_executions h (P.drive c S) c task d mode tool call hargs fuel hfuel m with
    ⟨-, hexec⟩ | ⟨hother, -⟩
  · exact hexec
  · exact absurd (hpermitted.withRegistry _ hanswer) hother

/-! ### A task opened for another agent -/

section Sample

open Verify (sampleHost)

def Schedule.always (ps : List Payload) : Schedule := ⟨fun _ => ps, fun _ => List.prefix_rfl⟩

def tenantKill : Payload := ⟨some "tenant", none, none, none, some "t"⟩

theorem killed_task_denied_tenant :
    executions (sampleCall ((Schedule.always [tenantKill]).drive sampleClient
      sampleScript)).events = [] :=
  (killed_task_denied sampleHost sampleScript (.always [tenantKill]) sampleClient rfl sampleTask
    tenantKill ⟨rfl, Or.inl rfl⟩ ⟨by decide, Or.inl rfl⟩ 0 (List.mem_singleton_self _) .start le_rfl
    .instrumentedTool .sync sampleTool noArgs (pollFuel sampleClient)).1

/-- The client of agent `a1` opens the task for agent `a2`. -/
def overrideTask : SigilTaskContext := { sampleTask with agentIdOverride := some "a2" }

def overrideKill : Payload := ⟨some "agent", none, some "a2", none, some "t"⟩

theorem overrideKill_not_noticed : ¬ Noticed sampleClient overrideTask overrideKill := by
  rintro ⟨-, hscope | hsame⟩
  · exact absurd hscope (by decide)
  · exact absurd hsame (by decide)

/-- The task is entered for `a2`, the kill of `a2` has been applied, and the call executes. -/
theorem overridden_agent_survives_kill :
    sampleClient.subscribed = true ∧
    (((Schedule.always [overrideKill]).drive sampleClient sampleScript).play
      ({ openedTask with agentIdOverride := some "a2" }.enter sampleHost sampleClient)
      .start).result = .returned overrideTask ∧
    KillsTask sampleClient overrideTask overrideKill ∧
    executions (((Schedule.always [overrideKill]).drive sampleClient sampleScript).play
      (wrapper .instrumentedTool .sync sampleHost (some (sampleClient, overrideTask)) sampleTool
        noArgs (pollFuel sampleClient)) .start).events = [(.sync, noArgs)] := by
  have hkill : KillsTask sampleClient overrideTask overrideKill := ⟨rfl, Or.inr ⟨by decide, rfl⟩⟩
  refine ⟨rfl, ?_, hkill, ?_⟩
  · exact (openedTask_enters ((Schedule.always [overrideKill]).drive sampleClient sampleScript) rfl
      rfl rfl (some "a2")).returned
  · refine unnoticed_kill_ignored sampleHost sampleScript (.always [overrideKill]) sampleClient
      overrideTask (by decide) .start ?_ .instrumentedTool .sync sampleTool noArgs rfl
      (pollFuel sampleClient) le_rfl (sampleScript_permitted (some "a2"))
    intro p hp
    rw [List.mem_singleton.mp hp]
    exact ⟨hkill, overrideKill_not_noticed⟩

end Sample

/-! ## A kill during an approval wait -/

theorem asked_le {α : Type} (S : Script V X) (p : Call V X α) (m : Moment) :
    m.asked ≤ (S.play p m).final.asked := by
  induction p generalizing m with
  | done => exact le_rfl
  | fail => exact le_rfl
  | spent => exact le_rfl
  | ask q k ih =>
    have hstep : (S.answer q m).2.asked = m.asked + 1 := by
      cases q with
      | http r => cases hr : r.route <;> simp [Script.answer, hr, Moment.tick, Moment.polled]
      | _ => rfl
    have hrest := ih (S.answer q m).1 (S.answer q m).2
    rw [hstep] at hrest
    exact (Nat.le_succ _).trans hrest

section Wait

variable (S : Script V X) (h : Host) (c : SigilClient) (task : SigilTaskContext) (g : Governed)
  (mode : Mode) (id : String) (fuel : ℕ) (m : Moment)

def afterCheck : Moment := (S.play (governanceCheck h c task g) m).final

def afterPoll : Moment := (S.play (pollWith mode h c id fuel) (afterCheck S h c task g m)).final

theorem afterCheck_lt_afterPoll :
    (afterCheck S h c task g m).asked < (afterPoll S h c task g mode id fuel m).asked := by
  unfold afterPoll
  rw [pollWith_eq, play_monotonic]
  exact asked_le S _ (afterCheck S h c task g m).tick

/-- The payloads applied in between. -/
def Schedule.duringPoll (P : Schedule) : List Payload :=
  (P.applied (afterPoll S h c task g mode id fuel m).asked).drop
    (P.applied (afterCheck S h c task g m).asked).length

end Wait

/-- A gated call executes exactly when it is approved and redeemed. -/
theorem gated_executions (h : Host) (S : Script V X) (c : SigilClient) (task : SigilTaskContext)
    (d : Decorator) (mode : Mode) (tool : Tool) (call : CallArgs) (ah : String)
    (hah : call.raw.argsHash h = some ah) (fuel : ℕ) (hfuel : pollFuel c ≤ fuel) (m : Moment)
    (id : String) (hpending : ruling h S c task (d.governed c task tool call ah) m = .pending id) :
    executions (S.play (wrapper d mode h (some (c, task)) tool call fuel) m).events = [] ↔
      ¬ (Polled h S c m "approved" ∧ (grantOf h S.redeem).isSome = true) := by
  obtain ⟨fate, hfated, hmeets⟩ := wrapper_play S h c task d mode tool call ah hah fuel hfuel m
  rcases meets_executions hmeets with ⟨⟨failOpen, grant, rfl⟩, hexec⟩ | ⟨hother, hexec⟩
  · rw [hexec]
    refine ⟨fun hnil => absurd hnil (List.cons_ne_nil _ _), fun hno => absurd ?_ hno⟩
    rcases (fated_executed_iff h S c task _ m failOpen grant).mp hfated with
      ⟨hcleared, -⟩ | ⟨-, -, -, hpolled, hsome, hgrant⟩
    · cases hcleared.symm.trans hpending
    · exact ⟨hpolled, hgrant ▸ hsome⟩
  · rw [hexec]
    refine ⟨fun _ hboth => hother ?_, fun _ => rfl⟩
    obtain ⟨grant, hgrant⟩ := Option.isSome_iff_exists.mp hboth.2
    exact ⟨false, some grant, hfated.unique (.redeemed id grant hpending hboth.1 hgrant)⟩

/-- **When a kill during an approval wait is honoured.** Of a call that waits for an approval: a kill
of the client's agent applied before the poll returns keeps the function from being executed exactly
when there is none, or the poll does not end in an approval, or the redemption yields no grant. -/
theorem kill_during_wait_iff (h : Host) (S : Script V X) (P : Schedule) (c : SigilClient)
    (task : SigilTaskContext) (d : Decorator) (mode : Mode) (tool : Tool) (call : CallArgs)
    (ah : String) (hah : call.raw.argsHash h = some ah) (fuel : ℕ) (hfuel : pollFuel c ≤ fuel)
    (m : Moment) (id : String) (hpending : ruling h (P.drive c S) c task
      (d.governed c task tool call ah) m = .pending id) :
    ((∃ p ∈ P.duringPoll (P.drive c S) h c task (d.governed c task tool call ah) mode id fuel m,
        c.subscriber.Accepted p) →
      executions ((P.drive c S).play (wrapper d mode h (some (c, task)) tool call fuel) m).events =
        []) ↔
    ((∀ p ∈ P.duringPoll (P.drive c S) h c task (d.governed c task tool call ah) mode id fuel m,
        ¬ c.subscriber.Accepted p) ∨
      ¬ Polled h (P.drive c S) c m "approved" ∨ grantOf h S.redeem = none) := by
  have hexec := gated_executions h (P.drive c S) c task d mode tool call ah hah fuel hfuel m id
    hpending
  have hredeem : (P.drive c S).redeem = S.redeem := rfl
  rw [hexec, hredeem, ← Option.not_isSome_iff_eq_none, ← not_and_or]
  constructor
  · intro hkept
    by_cases hkill : ∃ p ∈ P.duringPoll (P.drive c S) h c task (d.governed c task tool call ah) mode
        id fuel m, c.subscriber.Accepted p
    · exact Or.inr (hkept hkill)
    · exact Or.inl fun p hp haccepted => hkill ⟨p, hp, haccepted⟩
  · rintro (hnone | hno) ⟨p, hp, haccepted⟩
    · exact absurd haccepted (hnone p hp)
    · exact hno

/-! ### A tenant killed while its call waits -/

section WaitSample

open Verify (sampleHost)

/-- The step returns `a`, at the moment `m`. -/
def Lands {α : Type} (a : α) (m : Moment) (R : Run Question (Answer V X) (Exc X) α Moment) : Prop :=
  R.result = .returned a ∧ R.final = m

theorem Lands.bind {α β : Type} {S : Script V X} {p : Call V X α} {f : α → Call V X β}
    {m m' m'' : Moment} {a : α} {b : β} (hp : Lands a m' (S.play p m))
    (hf : Lands b m'' (S.play (f a) m')) : Lands b m'' (S.play (p >>= f) m) := by
  obtain ⟨hres, -, hfin⟩ := play_bind_events (f := f) hp.1
  rw [hp.2] at hres hfin
  exact ⟨hres.trans hf.1, hfin.trans hf.2⟩

/-- The tenant is killed after the fourth question. -/
def waitSchedule : Schedule where
  applied := fun n => if n < 4 then [] else [tenantKill]
  grows := by
    intro n
    by_cases hn : n < 4
    · rw [if_pos hn]
      exact List.nil_prefix
    · rw [if_neg hn, if_neg (by omega)]

theorem waitSchedule_applied (n : ℕ) (hn : 4 ≤ n) : waitSchedule.applied n = [tenantKill] :=
  if_neg (not_lt.mpr hn)

/-- The sample call on this schedule, with this answer to its redemption. -/
def waitScript (redeem : HttpAnswer) : Script ℕ String :=
  waitSchedule.drive sampleClient { sampleScript with redeem := redeem }

theorem waitScript_check (redeem : HttpAnswer) : Lands (false, some "ap1") ⟨3, 0, 0⟩
    ((waitScript redeem).play (governanceCheck sampleHost sampleClient sampleTask sampleGoverned)
      .start) := by
  have hrevoked : Lands () ⟨1, 0, 0⟩
      ((waitScript redeem).play (checkRevoked sampleGoverned) .start) := by
    have hask : Lands false ⟨1, 0, 0⟩ ((waitScript redeem).play
      (isRevoked sampleGoverned.agentId sampleGoverned.taskId) .start) := ⟨rfl, rfl⟩
    exact hask.bind ⟨rfl, rfl⟩
  have hkill : Lands () ⟨1, 0, 0⟩
      ((waitScript redeem).play (checkKillSwitch sampleClient sampleGoverned) ⟨1, 0, 0⟩) :=
    ⟨rfl, rfl⟩
  have htoken : Lands () ⟨2, 0, 0⟩ ((waitScript redeem).play
      (checkVerified sampleHost sampleClient sampleTask.biscuitToken sampleGoverned)
      ⟨1, 0, 0⟩) := by
    have hask : Lands sampleScript.utcNow ⟨2, 0, 0⟩ ((waitScript redeem).play utcNow ⟨1, 0, 0⟩) :=
      ⟨rfl, rfl⟩
    refine hask.bind ?_
    rw [show sampleGoverned.tool = sampleTool from rfl, sampleTask_verified]
    exact ⟨rfl, rfl⟩
  refine hrevoked.bind (hkill.bind (htoken.bind ?_))
  exact ⟨rfl, rfl⟩

theorem tenantKill_duringPoll (redeem : HttpAnswer) : tenantKill ∈ waitSchedule.duringPoll
    (waitScript redeem) sampleHost sampleClient sampleTask sampleGoverned .sync "ap1"
    (pollFuel sampleClient) .start := by
  have hcheck : afterCheck (waitScript redeem) sampleHost sampleClient sampleTask sampleGoverned
      .start = ⟨3, 0, 0⟩ := by
    rw [afterCheck]
    exact (waitScript_check redeem).2
  have hpoll := afterCheck_lt_afterPoll (waitScript redeem) sampleHost sampleClient sampleTask
    sampleGoverned .sync "ap1" (pollFuel sampleClient) .start
  rw [hcheck] at hpoll
  have happlied : waitSchedule.applied (afterPoll (waitScript redeem) sampleHost sampleClient
      sampleTask sampleGoverned .sync "ap1" (pollFuel sampleClient) .start).asked = [tenantKill] :=
    waitSchedule_applied _ hpoll
  have hbefore : waitSchedule.applied (⟨3, 0, 0⟩ : Moment).asked = [] := rfl
  rw [Schedule.duringPoll, happlied, hcheck, hbefore]
  exact List.mem_singleton_self tenantKill

theorem tenantKill_accepted : sampleClient.subscriber.Accepted tenantKill := Or.inl ⟨rfl, rfl⟩

/-- The tenant is killed while the call waits, and the call executes. -/
theorem killed_while_waiting_executes :
    sampleClient.subscribed = true ∧ sampleClient.subscriber.Accepted tenantKill ∧
    tenantKill ∈ waitSchedule.duringPoll (waitScript sampleScript.redeem) sampleHost sampleClient
      sampleTask sampleGoverned .sync "ap1" (pollFuel sampleClient) .start ∧
    executions (sampleCall (waitScript sampleScript.redeem)).events = [(.sync, noArgs)] :=
  ⟨rfl, tenantKill_accepted, tenantKill_duringPoll sampleScript.redeem,
    sampleCall_executions (waitScript sampleScript.redeem)
      ((sampleScript_permitted none).withRegistry _ rfl)⟩

theorem kill_during_wait_iff_unredeemed :
    executions (sampleCall (waitScript .raised)).events = [] := by
  have hadm : Admitted sampleHost (waitScript .raised) sampleClient sampleTask sampleTool .start :=
    ⟨⟨rfl, Or.inl rfl⟩, rfl, _, sampleTask_verified, rfl⟩
  exact (kill_during_wait_iff sampleHost { sampleScript with redeem := .raised } waitSchedule
    sampleClient sampleTask .instrumentedTool .sync sampleTool noArgs _ rfl (pollFuel sampleClient)
    le_rfl .start "ap1" ((ruling_of_admitted rfl rfl hadm rfl).trans rfl)).mpr
    (Or.inr (Or.inr rfl)) ⟨tenantKill, tenantKill_duringPoll .raised, tenantKill_accepted⟩

end WaitSample

end Sigil.Gate
