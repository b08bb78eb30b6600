import Sigil.Gate.Approval

/-! # How a governed call ends

`Fated` gives the fate of a governed call as the ruling of its governance check, the end of its
approval poll and the answer to its redemption decide it, and `wrapper_play` says that every
decorated function, blocking or a coroutine, meets that fate: what it returns or raises, what it
records, and whether it calls the wrapped function.
-/
set_option autoImplicit false

namespace Sigil.Gate

open Dialogue (Run)

variable {V X : Type}

/-! ## Fates -/

inductive Fate where
  /-- Denied, and recorded. -/
  | refused (sink : Sink) (reason : PyVal)
  /-- Denied, and not recorded. -/
  | unaudited (reason : PyVal)
  | crashed (e : PyError)
  | executed (failOpen : Bool) (grant : Option String)

def governed (c : SigilClient) (task : SigilTaskContext) (tool : Tool) (ah : String)
    (argsRedacted : Option PyVal) : Governed :=
  ⟨c.agentId, strOr task.taskId "", tool, ah, argsRedacted⟩

section Fated

variable (h : Host) (S : Script V X) (c : SigilClient) (task : SigilTaskContext) (g : Governed)
  (m : Moment)

def ruling : Ruling := rule h c task g.tool (S.hearing g m)

abbrev Polled (outcome : String) : Prop :=
  PollEnds h S c.approvalPollInterval m.polls c.approvalTimeout outcome

inductive Fated : Fate → Prop
  | refused (sink : Sink) (reason : PyVal) (hr : ruling h S c task g m = .refused sink reason) :
      Fated (.refused sink reason)
  | unaudited (reason : PyVal) (hr : ruling h S c task g m = .unaudited reason) :
      Fated (.unaudited reason)
  | crashed (e : PyError) (hr : ruling h S c task g m = .crashed e) : Fated (.crashed e)
  | cleared (failOpen : Bool) (hr : ruling h S c task g m = .cleared failOpen) :
      Fated (.executed failOpen none)
  | unapproved (id outcome : String) (hr : ruling h S c task g m = .pending id)
      (hp : Polled h S c m outcome) (ho : outcome ≠ "approved") :
      Fated (.refused .buffer (.str (finalizeReason outcome)))
  | unredeemed (id : String) (hr : ruling h S c task g m = .pending id)
      (hp : Polled h S c m "approved") (hg : grantOf h S.redeem = none) :
      Fated (.refused .buffer (.str (redeemReason S.redeem)))
  | redeemed (id grant : String) (hr : ruling h S c task g m = .pending id)
      (hp : Polled h S c m "approved") (hg : grantOf h S.redeem = some grant) :
      Fated (.executed false (some grant))

end Fated

theorem fated_executed_iff (h : Host) (S : Script V X) (c : SigilClient) (task : SigilTaskContext)
    (g : Governed) (m : Moment) (failOpen : Bool) (grant : Option String) :
    Fated h S c task g m (.executed failOpen grant) ↔
      (ruling h S c task g m = .cleared failOpen ∧ grant = none) ∨
      (failOpen = false ∧ ∃ id, ruling h S c task g m = .pending id ∧
        Polled h S c m "approved" ∧ grant.isSome ∧ grantOf h S.redeem = grant) := by
  constructor
  · intro hf
    cases hf with
    | cleared _ hr => exact Or.inl ⟨hr, rfl⟩
    | redeemed id grant hr hp hg => exact Or.inr ⟨rfl, id, hr, hp, rfl, hg⟩
  · rintro (⟨hr, rfl⟩ | ⟨rfl, id, hr, hp, hsome, hg⟩)
    · exact .cleared failOpen hr
    · obtain ⟨grant, rfl⟩ := Option.isSome_iff_exists.mp hsome
      exact .redeemed id grant hr hp hg

theorem Fated.unique {h : Host} {S : Script V X} {c : SigilClient} {task : SigilTaskContext}
    {g : Governed} {m : Moment} {f f' : Fate} (hf : Fated h S c task g m f)
    (hf' : Fated h S c task g m f') : f = f' := by
  cases hf with
  | refused sink reason hr => cases hf' <;> simp_all
  | unaudited reason hr => cases hf' <;> simp_all
  | crashed e hr => cases hf' <;> simp_all
  | cleared failOpen hr => cases hf' <;> simp_all
  | unapproved id outcome hr hp ho =>
    cases hf' with
    | unapproved _ outcome' _ hp' => rw [hp.unique hp']
    | unredeemed _ _ hp' => exact absurd (hp.unique hp') ho
    | redeemed _ _ _ hp' => exact absurd (hp.unique hp') ho
    | _ => simp_all
  | unredeemed id hr hp hg =>
    cases hf' with
    | unapproved _ _ _ hp' ho' => exact absurd (hp'.unique hp) ho'
    | _ => simp_all
  | redeemed id grant hr hp hg =>
    cases hf' with
    | unapproved _ _ _ hp' ho' => exact absurd (hp'.unique hp) ho'
    | _ => simp_all

/-! ## Meeting a fate -/

def outcomeResult : Except X V → Dialogue.Result (Exc X) V
  | .ok v => .returned v
  | .error x => .raised (.raised x)

def executionEvent (S : Script V X) (g : Governed) (failOpen : Bool) (grant : Option String)
    (promptEntropy : UInt64) : PyVal :=
  makeEvent g (truncate (S.duration * 1000)) (outcomeOf S.outcome) none failOpen grant promptEntropy

/-- The wrapped function was called once, and its outcome was recorded and handed on. -/
structure ExecutedWith (S : Script V X) (mode : Mode) (call : CallArgs) (event : PyVal)
    (R : Run Question (Answer V X) (Exc X) V Moment) : Prop where
  result : R.result = outcomeResult S.outcome
  audits : audits R.events = [(.buffer, event)]
  executions : executions R.events = [(mode, call)]

/-- A call played from `m` ended in this fate. -/
def Meets (S : Script V X) (g : Governed) (mode : Mode) (call : CallArgs) (promptEntropy : UInt64)
    (m : Moment) (R : Run Question (Answer V X) (Exc X) V Moment) : Fate → Prop
  | .refused sink reason => DeniedWith reason [(sink, deniedEvent g (some reason))] R
  | .unaudited reason => DeniedWith reason [] R
  | .crashed e => Raises m (.py e) R
  | .executed failOpen grant =>
    ExecutedWith S mode call (executionEvent S g failOpen grant promptEntropy) R

theorem execute_play (S : Script V X) (mode : Mode) (call : CallArgs) (g : Governed)
    (failOpen : Bool) (grant : Option String) (promptEntropy : UInt64) (m : Moment) :
    ExecutedWith S mode call (executionEvent S g failOpen grant promptEntropy)
      (S.play (execute mode call g failOpen grant promptEntropy) m) := by
  have hduration : m.now + S.duration - m.now = S.duration := add_sub_cancel_left m.now S.duration
  -- the answers to the two clock readings, to the call, and to the recording
  have hrun : S.play (execute mode call g failOpen grant promptEntropy) m =
      let finish : Call V X V := match S.outcome with
        | .ok v => pure v
        | .error x => .fail (.raised x)
      let R := S.play finish (((m.tick.after S.duration).tick).tick)
      { R with events := ⟨.monotonic, m.now⟩ :: ⟨.execute mode call, S.outcome⟩ ::
          ⟨.monotonic, m.now + S.duration⟩ ::
          ⟨.push (makeEvent g (truncate ((m.now + S.duration - m.now) * 1000))
            (outcomeOf S.outcome) none failOpen grant promptEntropy), ()⟩ :: R.events } := by
    rw [execute_eq]
    rfl
  rw [hrun, hduration]
  cases ho : S.outcome with
  | ok v =>
    refine ⟨?_, ?_, rfl⟩
    · rw [ho]
      rfl
    · rw [executionEvent, ho]
      rfl
  | error x =>
    refine ⟨?_, ?_, rfl⟩
    · rw [ho]
      rfl
    · rw [executionEvent, ho]
      rfl

theorem Returns.bind_executed {α : Type} {S : Script V X} {p : Call V X α} {f : α → Call V X V}
    {m : Moment} {a : α} {mode : Mode} {call : CallArgs} {event : PyVal}
    (hp : Returns a (S.play p m))
    (hf : ExecutedWith S mode call event (S.play (f a) (S.play p m).final)) :
    ExecutedWith S mode call event (S.play (p >>= f) m) := by
  obtain ⟨hres, hev, -⟩ := play_bind_events hp.returned
  refine ⟨hres.trans hf.result, ?_, ?_⟩
  · rw [hev, audits_append, hp.audits, hf.audits, List.nil_append]
  · rw [hev, executions_append, hp.executions, hf.executions, List.nil_append]

/-! ## The approval gate -/

theorem approvalGate_play (S : Script V X) (mode : Mode) (h : Host) (c : SigilClient)
    (task : SigilTaskContext) (g : Governed) (id : String) (fuel : ℕ) (hfuel : pollFuel c ≤ fuel)
    (m : Moment) :
    (∃ outcome, Polled h S c m outcome ∧ outcome ≠ "approved" ∧
      DeniedWith (.str (finalizeReason outcome))
        [(.buffer, deniedEvent g (some (.str (finalizeReason outcome))))]
        (S.play (approvalGate mode h c task g id fuel) m)) ∨
    (Polled h S c m "approved" ∧
      ((∃ grant, grantOf h S.redeem = some grant ∧
          Returns grant (S.play (approvalGate mode h c task g id fuel) m)) ∨
        (grantOf h S.redeem = none ∧ DeniedWith (.str (redeemReason S.redeem))
          [(.buffer, deniedEvent g (some (.str (redeemReason S.redeem))))]
          (S.play (approvalGate mode h c task g id fuel) m)))) := by
  unfold approvalGate
  obtain ⟨outcome, hpoll, hret⟩ := pollWith_play S h c id mode fuel hfuel m
  by_cases ho : outcome = "approved"
  · subst ho
    have hfinal := finalizeApproval_approved S g (S.play (pollWith mode h c id fuel) m).final
    refine Or.inr ⟨hpoll, ?_⟩
    rcases redeemApproval_play S h c id (task.biscuitToken.orElse (.str "")) g
      (S.play (finalizeApproval g "approved") (S.play (pollWith mode h c id fuel) m).final).final
      with ⟨grant, hg, hgrant⟩ | ⟨hg, hdeny⟩
    · exact Or.inl ⟨grant, hg, hret.bind (hfinal.returns.bind hgrant)⟩
    · exact Or.inr ⟨hg, hret.bind_denied (hfinal.bind_denied hdeny)⟩
  · refine Or.inl ⟨outcome, hpoll, ho, hret.bind_denied ?_⟩
    exact (finalizeApproval_denied S g outcome ho _).bind

/-! ## The whole call -/

section Call

variable (S : Script V X) (h : Host) (c : SigilClient) (task : SigilTaskContext) (tool : Tool)
  (mode : Mode) (call : CallArgs) (argsRedacted : Option PyVal) (promptEntropy : UInt64)
  (fuel : ℕ) (ah : String) (hah : call.raw.argsHash h = some ah) (m : Moment)

/-- Arguments without a hash end the call at once. -/
theorem governedCall_unhashed (hah : call.raw.argsHash h = none) :
    (governedCall mode h (some (c, task)) tool call argsRedacted promptEntropy fuel : Call V X V) =
      .fail (.py .typeError) := by
  unfold governedCall
  simp only [requireTask, Dialogue.pure_eq, Dialogue.done_bind, hah]

theorem governedCall_eq (hah : call.raw.argsHash h = some ah) :
    (governedCall mode h (some (c, task)) tool call argsRedacted promptEntropy fuel : Call V X V) =
      (do
        let (failOpen, approvalId) ←
          governanceCheck h c task (governed c task tool ah argsRedacted)
        match approvalId with
        | none =>
          execute mode call (governed c task tool ah argsRedacted) failOpen none promptEntropy
        | some id => do
          let grant ← approvalGate mode h c task (governed c task tool ah argsRedacted) id fuel
          execute mode call (governed c task tool ah argsRedacted) failOpen (some grant)
            promptEntropy) := by
  unfold governedCall
  simp only [requireTask, Dialogue.pure_eq, Dialogue.done_bind, hah]
  refine congrArg (governanceCheck h c task (governed c task tool ah argsRedacted) >>= ·)
    (funext ?_)
  rintro ⟨failOpen, approvalId⟩
  cases approvalId with
  | none => rfl
  | some id =>
    simp only [approvalGate, Dialogue.bind_assoc]
    rfl

/-- **Every governed call meets its fate.** -/
theorem governedCall_play (hah : call.raw.argsHash h = some ah) (hfuel : pollFuel c ≤ fuel) :
    ∃ fate, Fated h S c task (governed c task tool ah argsRedacted) m fate ∧
      Meets S (governed c task tool ah argsRedacted) mode call promptEntropy m
        (S.play (governedCall mode h (some (c, task)) tool call argsRedacted promptEntropy fuel) m)
        fate := by
  rw [governedCall_eq h c task tool mode call argsRedacted promptEntropy fuel ah hah]
  have hcheck := governanceCheck_play S h c task (governed c task tool ah argsRedacted) m
  have hruling : rule h c task (governed c task tool ah argsRedacted).tool
      (S.hearing (governed c task tool ah argsRedacted) m) =
      ruling h S c task (governed c task tool ah argsRedacted) m := rfl
  rw [hruling] at hcheck
  cases hr : ruling h S c task (governed c task tool ah argsRedacted) m with
  | refused sink reason =>
    rw [hr] at hcheck
    exact ⟨.refused sink reason, .refused sink reason hr, DeniedWith.bind hcheck⟩
  | unaudited reason =>
    rw [hr] at hcheck
    exact ⟨.unaudited reason, .unaudited reason hr, DeniedWith.bind hcheck⟩
  | crashed e =>
    rw [hr] at hcheck
    exact ⟨.crashed e, .crashed e hr, Raises.bind hcheck⟩
  | cleared failOpen =>
    rw [hr] at hcheck
    exact ⟨.executed failOpen none, .cleared failOpen hr,
      hcheck.returns.bind_executed (execute_play S mode call _ failOpen none promptEntropy _)⟩
  | pending id =>
    rw [hr] at hcheck
    -- the check makes no status request, so the poll hears the answers from the start
    have hpolls : ∀ outcome, Polled h S c
        (S.play (governanceCheck h c task (governed c task tool ah argsRedacted)) m).final outcome →
        Polled h S c m outcome := by
      intro outcome hp
      rwa [Polled, hcheck.polls] at hp
    rcases approvalGate_play S mode h c task (governed c task tool ah argsRedacted) id fuel hfuel
      (S.play (governanceCheck h c task (governed c task tool ah argsRedacted)) m).final with
      ⟨outcome, hp, ho, hdeny⟩ | ⟨hp, ⟨grant, hg, hret⟩ | ⟨hg, hdeny⟩⟩
    · exact ⟨_, .unapproved id outcome hr (hpolls _ hp) ho,
        hcheck.returns.bind_denied hdeny.bind⟩
    · exact ⟨_, .redeemed id grant hr (hpolls _ hp) hg, hcheck.returns.bind_executed
        (hret.bind_executed (execute_play S mode call _ false (some grant) promptEntropy _))⟩
    · exact ⟨_, .unredeemed id hr (hpolls _ hp) hg, hcheck.returns.bind_denied hdeny.bind⟩

end Call

/-! ## The decorators -/

namespace Decorator

def governed (d : Decorator) (c : SigilClient) (task : SigilTaskContext) (tool : Tool)
    (call : CallArgs) (ah : String) : Governed :=
  Gate.governed c task tool ah (d.argsRedacted call)

end Decorator

/-- **Every call of a decorated function meets its fate.** -/
theorem wrapper_play (S : Script V X) (h : Host) (c : SigilClient) (task : SigilTaskContext)
    (d : Decorator) (mode : Mode) (tool : Tool) (call : CallArgs) (ah : String)
    (hah : call.raw.argsHash h = some ah) (fuel : ℕ) (hfuel : pollFuel c ≤ fuel) (m : Moment) :
    ∃ fate, Fated h S c task (d.governed c task tool call ah) m fate ∧
      Meets S (d.governed c task tool call ah) mode call (d.promptEntropy h call) m
        (S.play (wrapper d mode h (some (c, task)) tool call fuel) m) fate := by
  rw [wrapper_eq]
  exact governedCall_play S h c task tool mode call (d.argsRedacted call) (d.promptEntropy h call)
    fuel ah m hah hfuel

end Sigil.Gate
