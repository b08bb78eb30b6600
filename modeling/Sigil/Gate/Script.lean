import Sigil.Audit.Store
import Sigil.Gate.Decorators

/-! # Scripts

A `Script` fixes everything the world answers in the course of one task: what the registry says at
every moment, the health of the kill-switch, the time, the outcome of each kind of request (for the
status requests, of each in turn), and what the wrapped function does. Time passes while a status
request is under way and while the call sleeps, which may take longer than asked. Sleeps return: any
other behaviour of the world a single call can meet is that of some script.
-/
set_option autoImplicit false

namespace Sigil.Gate

open Dialogue (Run Environment run)

structure Script (V X : Type) where
  /-- `client.is_revoked`, once so many questions have been asked. -/
  isRevoked : ℕ → String → String → Bool
  isKillSwitchHealthy : Bool
  utcNow : DateTime
  uuid4 : String
  issue : HttpAnswer
  preflight : HttpAnswer
  status : ℕ → HttpAnswer
  redeem : HttpAnswer
  outcome : Except X V
  duration : ℚ
  latency : ℕ → ℚ
  latency_nonneg : ∀ n, 0 ≤ latency n
  overshoot : ℕ → ℚ
  overshoot_nonneg : ∀ n, 0 ≤ overshoot n

def Script.withRegistry {V X : Type} (S : Script V X) (isRevoked : ℕ → String → String → Bool) :
    Script V X :=
  { S with isRevoked := isRevoked }

/-- How far a script has been played: questions asked, status requests among them, the time. -/
structure Moment where
  asked : ℕ
  polls : ℕ
  now : ℚ

namespace Moment

def start : Moment := ⟨0, 0, 0⟩

def tick (m : Moment) : Moment := { m with asked := m.asked + 1 }

def after (m : Moment) (d : ℚ) : Moment := { m with asked := m.asked + 1, now := m.now + d }

def polled (m : Moment) (d : ℚ) : Moment := ⟨m.asked + 1, m.polls + 1, m.now + d⟩

end Moment

variable {V X : Type}

def Script.answer (S : Script V X) : (q : Question) → Moment → Answer V X q × Moment
  | .isRevoked agentId taskId, m => (S.isRevoked m.asked agentId taskId, m.tick)
  | .isKillSwitchHealthy, m => (S.isKillSwitchHealthy, m.tick)
  | .utcNow, m => (S.utcNow, m.tick)
  | .monotonic, m => (m.now, m.tick)
  | .uuid4, m => (S.uuid4, m.tick)
  | .http r, m => match r.route with
    | .issueToken => (S.issue, m.tick)
    | .preflight => (S.preflight, m.tick)
    | .approval _ => (S.status m.polls, m.polled (S.latency m.polls))
    | .redeem _ => (S.redeem, m.tick)
    -- the flusher's, which no call sends
    | .logBatch => (.raised, m.tick)
  | .sleep _ seconds, m => (.ok (), m.after (seconds + S.overshoot m.polls))
  | .push _, m => ((), m.tick)
  | .overflowWrite _, m => ((), m.tick)
  | .execute _ _, m => (S.outcome, m.after S.duration)

def Script.env (S : Script V X) : Environment Question (Answer V X) Moment := ⟨S.answer⟩

abbrev Script.play {α : Type} (S : Script V X) (p : Call V X α) (m : Moment) :
    Run Question (Answer V X) (Exc X) α Moment := run S.env p m

/-! ## What a conversation leaves behind -/

inductive Sink where
  | buffer
  | overflow
  deriving DecidableEq, Repr

def auditOf : CallEvent V X → Option (Sink × PyVal)
  | ⟨.push event, _⟩ => some (.buffer, event)
  | ⟨.overflowWrite event, _⟩ => some (.overflow, event)
  | _ => none

def audits (tr : List (CallEvent V X)) : List (Sink × PyVal) := tr.filterMap auditOf

def executionOf : CallEvent V X → Option (Mode × CallArgs)
  | ⟨.execute mode call, _⟩ => some (mode, call)
  | _ => none

def executions (tr : List (CallEvent V X)) : List (Mode × CallArgs) := tr.filterMap executionOf

@[simp] theorem audits_append (tr tr' : List (CallEvent V X)) :
    audits (tr ++ tr') = audits tr ++ audits tr' := List.filterMap_append

@[simp] theorem executions_append (tr tr' : List (CallEvent V X)) :
    executions (tr ++ tr') = executions tr ++ executions tr' := List.filterMap_append

open Audit (Store)

def Sink.record (h : Host) (s : Store) (a : Sink × PyVal) : Store :=
  match a.1 with
  | .buffer => s.push a.2
  | .overflow => s.overflowWrite h a.2

variable {α β : Type}

/-- The step returns `a`; it recorded nothing, called nothing, and asked for no status. -/
structure Passes (m : Moment) (a : α) (R : Run Question (Answer V X) (Exc X) α Moment) : Prop where
  returned : R.result = .returned a
  audits : audits R.events = []
  executions : executions R.events = []
  polls : R.final.polls = m.polls

/-- The step returns `a`; it recorded nothing and called nothing. -/
structure Returns (a : α) (R : Run Question (Answer V X) (Exc X) α Moment) : Prop where
  returned : R.result = .returned a
  audits : audits R.events = []
  executions : executions R.events = []

theorem Passes.returns {m : Moment} {a : α} {R : Run Question (Answer V X) (Exc X) α Moment}
    (hp : Passes m a R) : Returns a R := ⟨hp.returned, hp.audits, hp.executions⟩

/-- The call is denied with `reason`, after these audit events. -/
structure DeniedWith (reason : PyVal) (recorded : List (Sink × PyVal))
    (R : Run Question (Answer V X) (Exc X) α Moment) : Prop where
  raised : ∃ d : Denied, R.result = .raised (.denied d) ∧ d.deniedReason = reason
  audits : audits R.events = recorded
  executions : executions R.events = []

/-- An exception escapes, and nothing was recorded. -/
structure Raises (m : Moment) (e : Exc X) (R : Run Question (Answer V X) (Exc X) α Moment) :
    Prop where
  raised : R.result = .raised e
  audits : audits R.events = []
  executions : executions R.events = []
  polls : R.final.polls = m.polls

theorem passes_done (S : Script V X) (a : α) (m : Moment) :
    Passes m a (S.play (.done a) m) := ⟨rfl, rfl, rfl, rfl⟩

theorem deny_deniedWith (S : Script V X) (g : Governed) (reason : PyVal) (message : String)
    (m : Moment) : DeniedWith reason [(.buffer, deniedEvent g (some reason))]
      (S.play (deny g reason message : Call V X α) m) :=
  ⟨⟨_, rfl, rfl⟩, rfl, rfl⟩

section Sequence

variable {S : Script V X} {p : Call V X α} {f : α → Call V X β} {m : Moment}

theorem play_bind_events {a : α} (hp : (S.play p m).result = .returned a) :
    (S.play (p >>= f) m).result = (S.play (f a) (S.play p m).final).result ∧
      (S.play (p >>= f) m).events =
        (S.play p m).events ++ (S.play (f a) (S.play p m).final).events ∧
      (S.play (p >>= f) m).final = (S.play (f a) (S.play p m).final).final := by
  rw [Script.play, Dialogue.run_bind_returned S.env p f m a hp]
  exact ⟨rfl, rfl, rfl⟩

theorem Passes.bind {a : α} {b : β} (hp : Passes m a (S.play p m))
    (hf : Passes (S.play p m).final b (S.play (f a) (S.play p m).final)) :
    Passes m b (S.play (p >>= f) m) := by
  obtain ⟨hres, hev, hfin⟩ := play_bind_events hp.returned
  refine ⟨hres.trans hf.returned, ?_, ?_, ?_⟩
  · rw [hev, audits_append, hp.audits, hf.audits, List.nil_append]
  · rw [hev, executions_append, hp.executions, hf.executions, List.nil_append]
  · rw [hfin, hf.polls, hp.polls]

theorem Returns.bind {a : α} {b : β} (hp : Returns a (S.play p m))
    (hf : Returns b (S.play (f a) (S.play p m).final)) : Returns b (S.play (p >>= f) m) := by
  obtain ⟨hres, hev, -⟩ := play_bind_events hp.returned
  refine ⟨hres.trans hf.returned, ?_, ?_⟩
  · rw [hev, audits_append, hp.audits, hf.audits, List.nil_append]
  · rw [hev, executions_append, hp.executions, hf.executions, List.nil_append]

theorem Returns.bind_denied {a : α} {reason : PyVal} {recorded : List (Sink × PyVal)}
    (hp : Returns a (S.play p m))
    (hf : DeniedWith reason recorded (S.play (f a) (S.play p m).final)) :
    DeniedWith reason recorded (S.play (p >>= f) m) := by
  obtain ⟨hres, hev, -⟩ := play_bind_events hp.returned
  refine ⟨?_, ?_, ?_⟩
  · rw [hres]
    exact hf.raised
  · rw [hev, audits_append, hp.audits, hf.audits, List.nil_append]
  · rw [hev, executions_append, hp.executions, hf.executions, List.nil_append]

theorem Passes.bind_denied {a : α} {reason : PyVal} {recorded : List (Sink × PyVal)}
    (hp : Passes m a (S.play p m))
    (hf : DeniedWith reason recorded (S.play (f a) (S.play p m).final)) :
    DeniedWith reason recorded (S.play (p >>= f) m) :=
  hp.returns.bind_denied hf

theorem Passes.bind_raises {a : α} {e : Exc X} (hp : Passes m a (S.play p m))
    (hf : Raises (S.play p m).final e (S.play (f a) (S.play p m).final)) :
    Raises m e (S.play (p >>= f) m) := by
  obtain ⟨hres, hev, hfin⟩ := play_bind_events hp.returned
  refine ⟨hres.trans hf.raised, ?_, ?_, ?_⟩
  · rw [hev, audits_append, hp.audits, hf.audits, List.nil_append]
  · rw [hev, executions_append, hp.executions, hf.executions, List.nil_append]
  · rw [hfin, hf.polls, hp.polls]

theorem DeniedWith.bind {reason : PyVal} {recorded : List (Sink × PyVal)}
    (hp : DeniedWith reason recorded (S.play p m)) :
    DeniedWith reason recorded (S.play (p >>= f) m) := by
  obtain ⟨⟨d, hd, hreason⟩, haudits, hexec⟩ := hp
  rw [Script.play, Dialogue.run_bind_raised S.env p f m _ hd]
  exact ⟨⟨d, rfl, hreason⟩, haudits, hexec⟩

theorem Raises.bind {e : Exc X} (hp : Raises m e (S.play p m)) :
    Raises m e (S.play (p >>= f) m) := by
  obtain ⟨he, haudits, hexec, hpolls⟩ := hp
  rw [Script.play, Dialogue.run_bind_raised S.env p f m _ he]
  exact ⟨rfl, haudits, hexec, hpolls⟩

end Sequence

end Sigil.Gate
