import Sigil.Gate.Script

/-! # What the governance check decides

`rule` is the governance check as a pure function of what it can hear: whether the agent is
revoked, whether the kill-switch is healthy, the time, and the answer to the preflight request.
`governanceCheck_play` says that a check played against a script ends as `rule` decides, with what
it records on the way.
-/
set_option autoImplicit false

namespace Sigil.Gate

open Verify (VerifyResult verifyLocal_explained)

variable {V X α : Type}

/-! ## The decision -/

inductive Ruling where
  /-- Denied, and recorded. -/
  | refused (sink : Sink) (reason : PyVal)
  /-- Denied, and not recorded. -/
  | unaudited (reason : PyVal)
  | crashed (e : PyError)
  | cleared (failOpen : Bool)
  | pending (approvalId : String)

structure Hearing where
  isRevoked : Bool
  isKillSwitchHealthy : Bool
  utcNow : DateTime
  preflight : HttpAnswer

/-- The meaning of a verdict object. -/
def ruleVerdict (h : Host) (kvs : List (PyKey × PyVal)) : Ruling :=
  let field (k : String) : PyVal := (kvs.lookup (.str k)).getD .none
  let v := (field "verdict").orElse (.str "deny")
  if v.isStr "deny" then .refused .buffer ((field "denied_reason").orElse (.str "policy_deny"))
  else if v.isStr "approve" then
    if (field "approval_id").truthy then .pending ((field "approval_id").toStr h)
    else .refused .buffer (.str "approval_service_unavailable")
  else if v.isStr "allow" then .cleared false
  else .refused .buffer (.str "unknown_verdict")

def rulePreflight (h : Host) (c : SigilClient) (answer : HttpAnswer) : Ruling :=
  match answer.json? 200 with
  | some (.dict kvs) => ruleVerdict h kvs
  | some _ => .crashed .attributeError
  | none => match c.failMode with
    | .closed => .refused .overflow (.str "sigil_unreachable")
    | .opened => .cleared true

def ruleToken (h : Host) (c : SigilClient) (task : SigilTaskContext) (tool : Tool) (x : Hearing) :
    Ruling :=
  if task.biscuitToken.isNone then .unaudited (.str "token_invalid")
  else match verifyTask h c task.biscuitToken tool x.utcNow with
    | .error e => .crashed e
    | .ok vr =>
      if vr.ok then
        if tool.riskTier.isHighRisk then rulePreflight h c x.preflight else .cleared false
      else .refused .buffer (.str (vr.reason.getD ""))

def rule (h : Host) (c : SigilClient) (task : SigilTaskContext) (tool : Tool) (x : Hearing) :
    Ruling :=
  if x.isRevoked then .refused .buffer (.str "agent_revoked")
  else if c.killSwitchFailMode = .closed ∧ x.isKillSwitchHealthy = false then
    .refused .buffer (.str "kill_switch_degraded")
  else ruleToken h c task tool x

/-! ## The check decides so -/

def EndsAs (g : Governed) (m : Moment)
    (R : Dialogue.Run Question (Answer V X) (Exc X) (Bool × Option String) Moment) : Ruling → Prop
  | .refused sink reason => DeniedWith reason [(sink, deniedEvent g (some reason))] R
  | .unaudited reason => DeniedWith reason [] R
  | .crashed e => Raises m (.py e) R
  | .cleared failOpen => Passes m (failOpen, none) R
  | .pending approvalId => Passes m (false, some approvalId) R

theorem EndsAs.after {S : Script V X} {p : Call V X α} {a : α}
    {f : α → Call V X (Bool × Option String)} {g : Governed} {m : Moment} {r : Ruling}
    (hp : Passes m a (S.play p m)) (hf : EndsAs g (S.play p m).final (S.play (f a) (S.play p m).final) r) :
    EndsAs g m (S.play (p >>= f) m) r := by
  cases r with
  | refused => exact hp.bind_denied hf
  | unaudited => exact hp.bind_denied hf
  | crashed => exact hp.bind_raises hf
  | cleared => exact hp.bind hf
  | pending => exact hp.bind hf

theorem checkRevoked_play (S : Script V X) (g : Governed) (m : Moment) :
    (S.isRevoked m.asked g.agentId g.taskId = true ∧
      DeniedWith (.str "agent_revoked") [(.buffer, deniedEvent g (some (.str "agent_revoked")))]
        (S.play (checkRevoked g) m)) ∨
    (S.isRevoked m.asked g.agentId g.taskId = false ∧ Passes m () (S.play (checkRevoked g) m)) := by
  have hp : Passes m (S.isRevoked m.asked g.agentId g.taskId)
      (S.play (isRevoked g.agentId g.taskId) m) := ⟨rfl, rfl, rfl, rfl⟩
  unfold checkRevoked
  cases hr : S.isRevoked m.asked g.agentId g.taskId with
  | true =>
    rw [hr] at hp
    exact Or.inl ⟨rfl, hp.bind_denied (deny_deniedWith S g _ _ _)⟩
  | false =>
    rw [hr] at hp
    exact Or.inr ⟨rfl, hp.bind (passes_done S () _)⟩

theorem checkKillSwitch_play (S : Script V X) (c : SigilClient) (g : Governed) (m : Moment) :
    ((c.killSwitchFailMode = .closed ∧ S.isKillSwitchHealthy = false) ∧
      DeniedWith (.str "kill_switch_degraded")
        [(.buffer, deniedEvent g (some (.str "kill_switch_degraded")))]
        (S.play (checkKillSwitch c g) m)) ∨
    (¬ (c.killSwitchFailMode = .closed ∧ S.isKillSwitchHealthy = false) ∧
      Passes m () (S.play (checkKillSwitch c g) m)) := by
  have hp : Passes m S.isKillSwitchHealthy (S.play isKillSwitchHealthy m) := ⟨rfl, rfl, rfl, rfl⟩
  unfold checkKillSwitch
  cases hmode : c.killSwitchFailMode with
  | opened => exact Or.inr ⟨by simp, passes_done S () m⟩
  | closed =>
    cases hh : S.isKillSwitchHealthy with
    | true =>
      rw [hh] at hp
      exact Or.inr ⟨by simp, hp.bind (passes_done S () _)⟩
    | false =>
      rw [hh] at hp
      exact Or.inl ⟨⟨rfl, rfl⟩, hp.bind_denied (deny_deniedWith S g _ _ _)⟩

theorem verifyTask_explained (h : Host) (c : SigilClient) (token : PyVal) (tool : Tool)
    (now : DateTime) (vr : VerifyResult) (hvr : verifyTask h c token tool now = .ok vr) :
    vr.Explained := by
  unfold verifyTask verifyToken at hvr
  cases token with
  | str t => exact verifyLocal_explained h t _ _ _ _ _ _ vr hvr
  | _ => cases hvr

theorem liftPy_passes (S : Script V X) (r : Except PyError α) (a : α) (hr : r = .ok a) (m : Moment) :
    Passes m a (S.play (liftPy r : Call V X α) m) := by
  rw [hr]
  exact passes_done S a m

theorem liftPy_raises (S : Script V X) (r : Except PyError α) (e : PyError) (hr : r = .error e)
    (m : Moment) : Raises m (.py e) (S.play (liftPy r : Call V X α) m) := by
  rw [hr]
  exact ⟨rfl, rfl, rfl, rfl⟩

theorem checkVerified_play (S : Script V X) (h : Host) (c : SigilClient) (token : PyVal)
    (g : Governed) (m : Moment) :
    (∃ e, verifyTask h c token g.tool S.utcNow = .error e ∧
      Raises m (.py e) (S.play (checkVerified h c token g) m)) ∨
    ∃ vr, verifyTask h c token g.tool S.utcNow = .ok vr ∧
      ((vr.ok = true ∧ Passes m () (S.play (checkVerified h c token g) m)) ∨
        (vr.ok = false ∧ DeniedWith (.str (vr.reason.getD ""))
          [(.buffer, deniedEvent g (some (.str (vr.reason.getD ""))))]
          (S.play (checkVerified h c token g) m))) := by
  have hp : Passes m S.utcNow (S.play utcNow m) := ⟨rfl, rfl, rfl, rfl⟩
  unfold checkVerified
  cases hv : verifyTask h c token g.tool S.utcNow with
  | error e =>
    refine Or.inl ⟨e, rfl, hp.bind_raises ?_⟩
    exact (liftPy_raises S _ e hv _).bind
  | ok vr =>
    have hlift := liftPy_passes S _ vr hv (S.play utcNow m).final
    refine Or.inr ⟨vr, rfl, ?_⟩
    cases hok : vr.ok with
    | true =>
      refine Or.inl ⟨rfl, hp.bind ?_⟩
      refine hlift.bind ?_
      rw [hok]
      exact passes_done S () _
    | false =>
      obtain ⟨r, hr, hreason⟩ := verifyTask_explained h c token g.tool S.utcNow vr hv hok
      have hne : r ≠ "" := by
        rintro rfl
        exact absurd hr (by decide)
      refine Or.inr ⟨rfl, hp.bind_denied ?_⟩
      refine hlift.bind_denied ?_
      rw [hok, hreason]
      exact ⟨⟨_, rfl, by simp [Governed.denied, strOr, hne]⟩, rfl, rfl⟩

/-! ## Preflight -/

theorem receive_of_json (name : String) (expected : ℤ) (r : Request) (answer : HttpAnswer)
    (v : PyVal) (hv : answer.json? expected = some v) :
    SigilClient.receive name expected r answer = (.ok v : Except (Exc X) PyVal) := by
  unfold HttpAnswer.json? at hv
  split at hv
  · next status w =>
    split_ifs at hv with hs
    cases hv
    simp [SigilClient.receive, hs]
  · cases hv

theorem receive_of_no_json (name : String) (expected : ℤ) (r : Request) (answer : HttpAnswer)
    (hv : answer.json? expected = none) :
    ∃ e : Exc X, SigilClient.receive name expected r answer = .error e ∧ e.isUnreachable = true := by
  unfold SigilClient.receive
  split
  · exact ⟨_, rfl, rfl⟩
  · next status body =>
    split_ifs with hs
    · exact ⟨_, rfl, rfl⟩
    · cases body with
      | none => exact ⟨_, rfl, rfl⟩
      | some v =>
        rw [ne_eq, not_not] at hs
        rw [HttpAnswer.json?, if_pos hs] at hv
        cases hv

section Preflight

variable (S : Script V X) (c : SigilClient) (token : PyVal)
  (toolNamespace toolName argsHash agentId taskId : String) (m : Moment)

theorem preflight_request_passes : Passes m S.preflight (S.play (request
    (c.preflightRequest token toolNamespace toolName argsHash agentId taskId)) m) :=
  ⟨rfl, rfl, rfl, rfl⟩

theorem preflight_play (v : PyVal) (hv : S.preflight.json? 200 = some v) : Passes m v
    (S.play (c.preflight token toolNamespace toolName argsHash agentId taskId) m) := by
  unfold SigilClient.preflight SigilClient.send
  refine (preflight_request_passes S c token toolNamespace toolName argsHash agentId taskId m).bind ?_
  rw [receive_of_json _ _ _ _ v hv]
  exact passes_done S v _

theorem preflight_unreachable_play (hv : S.preflight.json? 200 = none) :
    ∃ e : Exc X, e.isUnreachable = true ∧ Raises m e
      (S.play (c.preflight token toolNamespace toolName argsHash agentId taskId) m) := by
  obtain ⟨e, he, hkind⟩ := receive_of_no_json "preflight" 200
    (c.preflightRequest token toolNamespace toolName argsHash agentId taskId) S.preflight hv
  refine ⟨e, hkind, ?_⟩
  unfold SigilClient.preflight SigilClient.send
  refine (preflight_request_passes S c token toolNamespace toolName argsHash agentId
    taskId m).bind_raises ?_
  rw [he]
  exact ⟨rfl, rfl, rfl, rfl⟩

end Preflight

theorem judgeVerdict_play (S : Script V X) (h : Host) (g : Governed) (m : Moment)
    (kvs : List (PyKey × PyVal)) :
    EndsAs g m (S.play (judgeVerdict h g (.dict kvs)) m) (ruleVerdict h kvs) := by
  unfold judgeVerdict ruleVerdict
  simp only [PyVal.get_dict, liftPy, Dialogue.done_bind]
  split
  · exact deny_deniedWith S g _ _ m
  · split
    · split
      · exact passes_done S _ m
      · exact deny_deniedWith S g _ _ m
    · split
      · exact passes_done S _ m
      · exact deny_deniedWith S g _ _ m

/-- A verdict that is no object has no `get`. -/
theorem judgeVerdict_raises (S : Script V X) (h : Host) (g : Governed) (m : Moment) (v : PyVal)
    (hv : v.isDict = false) :
    Raises m (.py .attributeError) (S.play (judgeVerdict h g v) m) := by
  unfold judgeVerdict
  refine (liftPy_raises S _ .attributeError ?_ m).bind
  exact (PyVal.get_eq_error_iff v "verdict" _).mpr ⟨hv, rfl⟩

section Unreachable

variable {S : Script V X} {c : SigilClient} {g : Governed} {m : Moment}
  {p : Call V X (Bool × Option String)}

theorem EndsAs.handle {r : Ruling} (hp : EndsAs g m (S.play p m) r) :
    EndsAs g m (S.play (p.handle fun e =>
      if e.isUnreachable then some (afterUnreachable c g) else none) m) r := by
  have hkind : ∀ e, (S.play p m).result = .raised e → e.isUnreachable = false := by
    intro e he
    cases r with
    | refused =>
      obtain ⟨d, hd, -⟩ := hp.raised
      cases he.symm.trans hd
      rfl
    | unaudited =>
      obtain ⟨d, hd, -⟩ := hp.raised
      cases he.symm.trans hd
      rfl
    | crashed =>
      cases he.symm.trans hp.raised
      rfl
    | cleared => cases he.symm.trans hp.returned
    | pending => cases he.symm.trans hp.returned
  rw [Script.play, Dialogue.run_handle_declined S.env fun e he => by rw [hkind e he]; rfl]
  exact hp

theorem unreachable_play {e : Exc X} (hp : Raises m e (S.play p m)) (he : e.isUnreachable = true) :
    EndsAs g m (S.play (p.handle fun e =>
      if e.isUnreachable then some (afterUnreachable c g) else none) m) (match c.failMode with
        | .closed => .refused .overflow (.str "sigil_unreachable")
        | .opened => .cleared true) := by
  rw [Script.play, Dialogue.run_handle_caught S.env hp.raised (by rw [he]; rfl)]
  unfold afterUnreachable handlePreflightUnreachable
  cases c.failMode with
  | closed =>
    refine ⟨⟨_, rfl, rfl⟩, ?_, ?_⟩
    · rw [audits_append, hp.audits]
      rfl
    · rw [executions_append, hp.executions]
      rfl
  | opened =>
    refine ⟨rfl, ?_, ?_, hp.polls⟩
    · rw [audits_append, hp.audits]
      rfl
    · rw [executions_append, hp.executions]
      rfl

end Unreachable

theorem checkPreflight_play (S : Script V X) (h : Host) (c : SigilClient)
    (task : SigilTaskContext) (g : Governed) (m : Moment) :
    EndsAs g m (S.play (checkPreflight h c task g) m)
      (if g.tool.riskTier.isHighRisk then rulePreflight h c S.preflight else .cleared false) := by
  unfold checkPreflight
  split
  · unfold rulePreflight
    cases hv : S.preflight.json? 200 with
    | none =>
      obtain ⟨e, hkind, he⟩ := preflight_unreachable_play S c task.biscuitToken
        g.tool.toolNamespace g.tool.name g.ah g.agentId g.taskId m hv
      exact unreachable_play he.bind hkind
    | some v =>
      have hp := preflight_play S c task.biscuitToken g.tool.toolNamespace g.tool.name g.ah
        g.agentId g.taskId m v hv
      cases hd : v.isDict with
      | true =>
        cases v with
        | dict kvs => exact (EndsAs.after hp (judgeVerdict_play S h g _ kvs)).handle
        | _ => cases hd
      | false =>
        have hcrash : EndsAs g m (S.play (c.preflight task.biscuitToken g.tool.toolNamespace
            g.tool.name g.ah g.agentId g.taskId >>= judgeVerdict h g) m)
            (.crashed .attributeError) := hp.bind_raises (judgeVerdict_raises S h g _ v hd)
        cases v with
        | dict kvs => cases hd
        | _ => exact hcrash.handle
  · exact passes_done S _ m

/-- What a check played from `m` can hear. -/
def Script.hearing (S : Script V X) (g : Governed) (m : Moment) : Hearing where
  isRevoked := S.isRevoked m.asked g.agentId g.taskId
  isKillSwitchHealthy := S.isKillSwitchHealthy
  utcNow := S.utcNow
  preflight := S.preflight

theorem checkToken_then_play (S : Script V X) (h : Host) (c : SigilClient)
    (task : SigilTaskContext) (g : Governed) (m m₀ : Moment) :
    EndsAs g m (S.play (do checkToken h c task g; checkPreflight h c task g) m)
      (ruleToken h c task g.tool (S.hearing g m₀)) := by
  unfold ruleToken checkToken
  split
  · refine DeniedWith.bind ?_
    exact ⟨⟨_, rfl, rfl⟩, rfl, rfl⟩
  · rcases checkVerified_play S h c task.biscuitToken g m with ⟨e, hv, hr⟩ | ⟨vr, hv, hr⟩
    · simp only [Script.hearing, hv]
      exact hr.bind
    · simp only [Script.hearing, hv]
      rcases hr with ⟨hok, hp⟩ | ⟨hok, hd⟩
      · rw [if_pos hok]
        exact EndsAs.after hp (checkPreflight_play S h c task g _)
      · rw [hok]
        exact hd.bind

/-- **The check ends as ruled.** -/
theorem governanceCheck_play (S : Script V X) (h : Host) (c : SigilClient)
    (task : SigilTaskContext) (g : Governed) (m : Moment) :
    EndsAs g m (S.play (governanceCheck h c task g) m) (rule h c task g.tool (S.hearing g m)) := by
  unfold governanceCheck rule
  have hearing : (S.hearing g m).isRevoked = S.isRevoked m.asked g.agentId g.taskId ∧
      (S.hearing g m).isKillSwitchHealthy = S.isKillSwitchHealthy := ⟨rfl, rfl⟩
  rcases checkRevoked_play S g m with ⟨hr, hd⟩ | ⟨hr, hp⟩
  · rw [hearing.1, hr, if_pos rfl]
    exact hd.bind
  · rw [hearing.1, hr, if_neg (by simp), hearing.2]
    refine EndsAs.after hp ?_
    rcases checkKillSwitch_play S c g (S.play (checkRevoked g) m).final with ⟨hk, hd⟩ | ⟨hk, hp'⟩
    · rw [if_pos hk]
      exact hd.bind
    · rw [if_neg hk]
      exact EndsAs.after hp' (checkToken_then_play S h c task g _ m)

end Sigil.Gate
