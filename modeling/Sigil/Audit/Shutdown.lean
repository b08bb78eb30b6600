import Sigil.Audit.WakeUp
import Sigil.Library.Monitor

/-! # Stopping the flusher thread

`_Flusher.stop` is two steps, `_stop.set()` and `_buffer.wake()`, and the thread and the others may
take any steps between and after them. `Closing` watches the thread until a `stop()` returns, and from
then on. `Stage` is where the thread stands in its loop, and `LastTurn` is what is left of the loop
when every further look at the stop event finds it set: at most one wait, one clear, one flush and one
look. The wait is over at once, as `stop()` sets the flush event after the stop event
(`stop_ends_flusher`).
-/
set_option autoImplicit false

namespace Sigil.Audit

open Dialogue (query Runs Asks Plays Guided Follows Result guided_done guided_fail guided_spent
  guided_ask guided_query_bind)
open Json (Limits)

abbrev FlusherEvent : Type := Dialogue.Event FlusherQuestion FlusherAnswer

/-! ## The loop -/

namespace FlusherThread

/-- Where the thread stands in its loop. -/
inductive Stage where
  /-- about to wait -/
  | ready
  /-- about to clear the flush event -/
  | triggered
  /-- flushing, or about to look at the stop event -/
  | flushing
  | ended

inductive Step : Stage → FlusherEvent → Stage → Prop where
  | goOn : Step .flushing ⟨.stopIsSet, false⟩ .ready
  | stopped : Step .flushing ⟨.stopIsSet, true⟩ .ended
  | timedOut (clean : Bool) : Step .ready ⟨.wait clean, false⟩ .flushing
  | triggered (clean : Bool) : Step .ready ⟨.wait clean, true⟩ .triggered
  | clear : Step .triggered ⟨.clear, ()⟩ .flushing
  | flush (q : FlushQuestion) (a : FlushAnswer q) : Step .flushing ⟨.flush q, a⟩ .flushing

theorem flushing_guided {α : Type} (p : Flush α) :
    Guided Step (flushing p) .flushing fun _ s => s = .flushing := by
  induction p with
  | done a => exact guided_done a rfl
  | fail e => exact guided_fail e rfl
  | spent => exact guided_spent
  | ask q k ih => exact guided_ask fun a => ⟨_, .flush q a, ih a⟩

theorem flusherTurn_guided (h : Host) (L : Limits) (w : OverflowWriter) (fuel : ℕ)
    (clean : Bool) :
    Guided Step (flusherTurn h L w fuel clean) .ready fun _ s => s = .flushing := by
  apply guided_query_bind
  intro triggered
  cases triggered with
  | true => exact ⟨_, .triggered clean, guided_query_bind fun _ => ⟨_, .clear, flushing_guided _⟩⟩
  | false => exact ⟨_, .timedOut clean, flushing_guided _⟩

/-- The loop is left by seeing the stop event set. -/
theorem flusherLoop_guided (h : Host) (L : Limits) (w : OverflowWriter) (fuel turns : ℕ)
    (clean : Bool) : Guided Step (flusherLoop h L w fuel turns clean) .flushing fun x s =>
      x = .ok () → s = .ended := by
  induction turns generalizing clean with
  | zero => exact guided_spent
  | succ turns ih =>
    apply guided_query_bind
    intro stopped
    cases stopped with
    | true => exact ⟨_, .stopped, guided_done () fun _ => rfl⟩
    | false =>
      refine ⟨_, .goOn, (flusherTurn_guided h L w fuel clean).bind ?_ ?_⟩
      · rintro clean _ rfl
        exact ih clean
      · intro e s _ hok
        cases hok

/-! ## What is left of the loop -/

def isWait : FlusherQuestion → Bool
  | .wait _ => true
  | _ => false

def isFlush : FlusherQuestion → Bool
  | .flush _ => true
  | _ => false

/-- At most one wait, one clear, flushing, and at most one look at the stop event, which is set. -/
structure Rest (waits clears flushes checks : List FlusherEvent) : Prop where
  waits : waits.length ≤ 1 ∧ ∀ e ∈ waits, isWait e.1 = true
  clears : clears.length ≤ 1 ∧ ∀ e ∈ clears, e = ⟨.clear, ()⟩
  flushes : ∀ e ∈ flushes, isFlush e.1 = true
  checks : checks = [] ∨ checks = [⟨.stopIsSet, true⟩]

def LastTurn (tr : List FlusherEvent) : Prop :=
  ∃ waits clears flushes checks, Rest waits clears flushes checks ∧
    tr = waits ++ (clears ++ (flushes ++ checks))

/-- Every look at the stop event finds it set. -/
def Told (tr : List FlusherEvent) : Prop := ⟨.stopIsSet, false⟩ ∉ tr

theorem follows_ended {tr : List FlusherEvent} {s : Stage} (h : Follows Step .ended tr s) :
    tr = [] := by
  cases h with
  | nil => rfl
  | cons _ _ _ _ _ he => cases he

theorem rest_of_flushing {tr : List FlusherEvent} {s : Stage} (h : Follows Step .flushing tr s)
    (htold : Told tr) : ∃ flushes checks, Rest [] [] flushes checks ∧ tr = flushes ++ checks := by
  induction tr with
  | nil => exact ⟨[], [], ⟨by simp, by simp, by simp, .inl rfl⟩, rfl⟩
  | cons e tr ih =>
    cases h with
    | cons _ s₁ _ _ _ he htr =>
      cases he with
      | goOn => exact absurd List.mem_cons_self htold
      | stopped =>
        rw [follows_ended htr]
        exact ⟨[], [⟨.stopIsSet, true⟩], ⟨by simp, by simp, by simp, .inr rfl⟩, rfl⟩
      | flush q a =>
        obtain ⟨flushes, checks, hrest, hsplit⟩ := ih htr fun hmem => htold (.tail _ hmem)
        refine ⟨⟨.flush q, a⟩ :: flushes, checks, { hrest with flushes := ?_ }, ?_⟩
        · intro e he
          obtain rfl | he := List.mem_cons.mp he
          · rfl
          · exact hrest.flushes e he
        · rw [hsplit, List.cons_append]

theorem rest_of_triggered {tr : List FlusherEvent} {s : Stage} (h : Follows Step .triggered tr s)
    (htold : Told tr) : ∃ clears flushes checks, Rest [] clears flushes checks ∧
      tr = clears ++ (flushes ++ checks) := by
  cases h with
  | nil => exact ⟨[], [], [], ⟨by simp, by simp, by simp, .inl rfl⟩, rfl⟩
  | cons _ _ _ _ tr he htr =>
    cases he with
    | clear =>
      obtain ⟨flushes, checks, hrest, hsplit⟩ :=
        rest_of_flushing htr fun hmem => htold (.tail _ hmem)
      refine ⟨[⟨.clear, ()⟩], flushes, checks, { hrest with clears := ⟨by simp, by simp⟩ }, ?_⟩
      rw [hsplit, List.singleton_append]

theorem lastTurn_of_follows {tr : List FlusherEvent} {s s' : Stage} (h : Follows Step s tr s')
    (htold : Told tr) : LastTurn tr := by
  cases s with
  | ended =>
    rw [follows_ended h]
    exact ⟨[], [], [], [], ⟨by simp, by simp, by simp, .inl rfl⟩, rfl⟩
  | flushing =>
    obtain ⟨flushes, checks, hrest, hsplit⟩ := rest_of_flushing h htold
    exact ⟨[], [], flushes, checks, hrest, hsplit⟩
  | triggered =>
    obtain ⟨clears, flushes, checks, hrest, hsplit⟩ := rest_of_triggered h htold
    exact ⟨[], clears, flushes, checks, hrest, hsplit⟩
  | ready =>
    cases h with
    | nil => exact ⟨[], [], [], [], ⟨by simp, by simp, by simp, .inl rfl⟩, rfl⟩
    | cons _ _ _ e tr he htr =>
      have hrest : ∃ clears flushes checks, Rest [] clears flushes checks ∧
          tr = clears ++ (flushes ++ checks) := by
        have hlater : Told tr := fun hmem => htold (.tail _ hmem)
        cases he with
        | timedOut clean =>
          obtain ⟨flushes, checks, hrest, hsplit⟩ := rest_of_flushing htr hlater
          exact ⟨[], flushes, checks, hrest, hsplit⟩
        | triggered clean => exact rest_of_triggered htr hlater
      have hwait : isWait e.1 = true := by cases he <;> rfl
      obtain ⟨clears, flushes, checks, hrest, hsplit⟩ := hrest
      refine ⟨[e], clears, flushes, checks, { hrest with waits := ⟨by simp, ?_⟩ }, ?_⟩
      · simpa using hwait
      · rw [hsplit, List.singleton_append]

/-- Only a look that finds the stop event unset leads to a wait. -/
theorem ready_of_told {tr : List FlusherEvent} {s : Stage} (h : Follows Step s tr .ready)
    (htold : Told tr) : tr = [] := by
  obtain rfl | ⟨before, e, rfl⟩ := List.eq_nil_or_concat tr
  · rfl
  · rw [List.concat_eq_append] at h htold
    obtain ⟨s₁, s₂, -, he, hend⟩ := h.at
    cases hend
    cases he
    exact absurd (List.mem_append_right before List.mem_cons_self) htold

end FlusherThread

open FlusherThread

/-! ## The thread and the others -/

/-- The buffer, the stop event, what the thread asks until a `stop()` returns, and what it asks from
then on. -/
structure Closing where
  buffer : LogBuffer
  stopped : Bool
  before : List FlusherEvent
  after : Option (List FlusherEvent)

namespace Closing

def start (b : LogBuffer) : Closing := ⟨b, false, [], none⟩

def heard (s : Closing) : List FlusherEvent := s.before ++ s.after.getD []

def hear (s : Closing) (e : FlusherEvent) : Closing :=
  match s.after with
  | none => { s with before := s.before ++ [e] }
  | some tr => { s with after := some (tr ++ [e]) }

/-- Any number of threads may be within `stop()`. -/
inductive Moves : Closing → Closing → Prop where
  | buffer (s : Closing) (b : LogBuffer) (hb : LogBuffer.Moves s.buffer b) :
      Moves s { s with buffer := b }
  | set (s : Closing) : Moves s { s with stopped := true }
  /-- `wake()`, with which `stop()` returns -/
  | wake (s : Closing) (hs : s.stopped = true) :
      Moves s { s with buffer := s.buffer.setEvent true, after := some (s.after.getD []) }

def isLook : FlusherQuestion → Bool
  | .stopIsSet => true
  | _ => false

inductive Answers : Closing → FlusherEvent → Closing → Prop where
  | stopIsSet (s : Closing) : Answers s ⟨.stopIsSet, s.stopped⟩ (s.hear ⟨.stopIsSet, s.stopped⟩)
  | buffer (s : Closing) (e : FlusherEvent) (b : LogBuffer) (he : isLook e.1 = false)
      (hb : LogBuffer.Answers s.buffer e b) : Answers s e { s.hear e with buffer := b }

theorem heard_hear (s : Closing) (e : FlusherEvent) : (s.hear e).heard = s.heard ++ [e] := by
  unfold hear heard
  split
  · next hafter => simp [hafter]
  · next tr hafter => simp [hafter]

theorem moves_heard (s s' : Closing) (h : Moves s s') : s'.heard = s.heard := by
  cases h <;> rfl

theorem answers_heard (s : Closing) (e : FlusherEvent) (s' : Closing) (h : Answers s e s') :
    s'.heard = s.heard ++ [e] := by
  cases h with
  | stopIsSet => exact heard_hear s _
  | buffer _ b he hb => exact heard_hear s e

/-- Once a `stop()` has returned the stop event stays set, and the flush event until the thread clears
it. -/
structure Stopping (s : Closing) (tr : List FlusherEvent) : Prop where
  stopped : s.stopped = true
  told : Told tr
  woken : ⟨.clear, ()⟩ ∉ tr → s.buffer.flushNow = true

def Sound (s : Closing) : Prop := ∀ tr, s.after = some tr → s.Stopping tr

theorem moves_flushNow (b b' : LogBuffer) (h : LogBuffer.Moves b b') (hb : b.flushNow = true) :
    b'.flushNow = true := by
  cases h with
  | push event =>
    show (b.flushNow || _) = true
    rw [hb, Bool.true_or]
  | drain n => exact hb
  | wake => rfl

theorem move_sound (s s' : Closing) (hs : s.Sound) (h : Moves s s') : s'.Sound := by
  intro tr htr
  cases h with
  | buffer b hb =>
    have hstop := hs tr htr
    exact ⟨hstop.stopped, hstop.told, fun hclear => moves_flushNow _ _ hb (hstop.woken hclear)⟩
  | set =>
    have hstop := hs tr htr
    exact ⟨rfl, hstop.told, hstop.woken⟩
  | wake hset =>
    refine ⟨hset, ?_, fun _ => rfl⟩
    cases hafter : s.after with
    | none =>
      rw [hafter] at htr
      cases htr
      exact List.not_mem_nil
    | some tr' =>
      rw [hafter] at htr
      cases htr
      exact (hs tr' hafter).told

theorem hear_after (s : Closing) (e : FlusherEvent) (tr : List FlusherEvent)
    (h : (s.hear e).after = some tr) : ∃ tr', s.after = some tr' ∧ tr = tr' ++ [e] := by
  unfold hear at h
  split at h
  · next hafter =>
    rw [hafter] at h
    cases h
  · next tr' hafter => exact ⟨tr', hafter, (Option.some.inj h).symm⟩

@[simp] theorem hear_stopped (s : Closing) (e : FlusherEvent) : (s.hear e).stopped = s.stopped := by
  unfold hear
  split <;> rfl

@[simp] theorem hear_buffer (s : Closing) (e : FlusherEvent) : (s.hear e).buffer = s.buffer := by
  unfold hear
  split <;> rfl

theorem answers_flushNow (b b' : LogBuffer) (e : FlusherEvent) (h : LogBuffer.Answers b e b')
    (hclear : e ≠ ⟨.clear, ()⟩) : b'.flushNow = b.flushNow := by
  cases h with
  | clear => exact absurd rfl hclear
  | _ => rfl

theorem answer_sound (s : Closing) (e : FlusherEvent) (s' : Closing) (hs : s.Sound)
    (h : Answers s e s') : s'.Sound := by
  intro tr htr
  cases h with
  | stopIsSet =>
    obtain ⟨tr', hafter, rfl⟩ := hear_after s _ tr htr
    have hstop := hs tr' hafter
    refine ⟨by simpa using hstop.stopped, ?_, ?_⟩
    · intro hmem
      rw [hstop.stopped] at hmem
      simp only [List.mem_append, List.mem_singleton] at hmem
      obtain hmem | hmem := hmem
      · exact hstop.told hmem
      · cases hmem
    · intro hclear
      rw [hear_buffer]
      exact hstop.woken fun hmem => hclear (List.mem_append_left _ hmem)
  | buffer _ b he hb =>
    obtain ⟨tr', hafter, rfl⟩ := hear_after s e tr htr
    have hstop := hs tr' hafter
    refine ⟨(hear_stopped s e).trans hstop.stopped, ?_, ?_⟩
    · intro hmem
      obtain hmem | hmem := List.mem_append.mp hmem
      · exact hstop.told hmem
      · rw [← List.mem_singleton.mp hmem] at he
        cases he
    · intro hclear
      have hne : e ≠ ⟨.clear, ()⟩ := by
        rintro rfl
        exact hclear (List.mem_append_right _ List.mem_cons_self)
      refine (answers_flushNow _ _ e hb hne).trans ?_
      exact hstop.woken fun hmem => hclear (List.mem_append_left _ hmem)

theorem start_sound (b : LogBuffer) : (start b).Sound := by
  intro tr htr
  cases htr

section Theorem

variable (h : Host) (L : Limits) (w : OverflowWriter) (fuel : ℕ) (b : LogBuffer)

theorem run_follows (r : Result (Exc Empty) Unit) (s : Closing)
    (hrun : Runs Moves Answers (flusherRun h L w fuel) (start b) r s) :
    ∃ stage, Follows Step .flushing s.heard stage ∧ (r = .returned () → stage = .ended) := by
  obtain ⟨tr, hplays, hheard⟩ := hrun.heard moves_heard answers_heard
  obtain ⟨stage, htr, hend⟩ := flusherLoop_guided h L w fuel fuel true tr r hplays
  rw [hheard]
  exact ⟨stage, htr, fun hr => hend (.ok ()) hr rfl⟩

theorem lastTurn_of_run (r : Result (Exc Empty) Unit) (s : Closing)
    (hrun : Runs Moves Answers (flusherRun h L w fuel) (start b) r s) (tr : List FlusherEvent)
    (hafter : s.after = some tr) : LastTurn tr := by
  have hsound : s.Sound := hrun.invariant move_sound answer_sound (start_sound b)
  obtain ⟨stage, htr, -⟩ := run_follows h L w fuel b r s hrun
  rw [heard, hafter] at htr
  obtain ⟨s₁, -, hlast⟩ := htr.split
  exact lastTurn_of_follows hlast (hsound tr hafter).told

theorem woken_of_asks (clean : Bool) (s : Closing)
    (hask : Asks Moves Answers (flusherRun h L w fuel) (start b) (.wait clean) s)
    (tr : List FlusherEvent) (hafter : s.after = some tr) : s.buffer.flushNow = true := by
  have hsound : s.Sound := hask.runs.invariant move_sound answer_sound (start_sound b)
  have hstop := hsound tr hafter
  obtain ⟨heard, hplays, hheard⟩ := hask.heard moves_heard answers_heard
  obtain ⟨last, htr, -⟩ := flusherLoop_guided h L w fuel fuel true _ _ (hplays false)
  obtain ⟨s₁, s₂, hbefore, hstep, -⟩ := htr.at
  cases hstep
  have hsplit : s.before ++ tr = heard := by
    rw [Closing.heard, hafter] at hheard
    exact hheard
  rw [← hsplit] at hbefore
  obtain ⟨s₃, -, hlast⟩ := hbefore.split
  apply hstop.woken
  rw [ready_of_told hlast hstop.told]
  exact List.not_mem_nil

theorem stopped_of_run (s : Closing)
    (hrun : Runs Moves Answers (flusherRun h L w fuel) (start b) (.returned ()) s) :
    ∃ tr, s.heard = tr ++ [⟨.stopIsSet, true⟩] := by
  obtain ⟨stage, htr, hend⟩ := run_follows h L w fuel b _ s hrun
  rw [hend rfl] at htr
  obtain hnil | ⟨tr, e, htail⟩ := List.eq_nil_or_concat s.heard
  · rw [hnil] at htr
    cases htr
  · rw [List.concat_eq_append] at htail
    rw [htail] at htr
    obtain ⟨s₁, s₂, -, he, hlast⟩ := htr.at
    cases hlast
    cases he
    exact ⟨tr, htail⟩

/-- **`stop()` ends the flusher.** Whatever the threads do in whatever order: of what the thread does
after a `stop()` has returned there is at most one wait, one flush and one look at the stop event, after
which it is over; if it has still to wait, the flush event is set, so that it does not sit out the
interval. And it ends its loop for no other reason. -/
theorem stop_ends_flusher :
    (∀ r s tr, Runs Moves Answers (flusherRun h L w fuel) (start b) r s → s.after = some tr →
      LastTurn tr) ∧
    (∀ clean s tr, Asks Moves Answers (flusherRun h L w fuel) (start b) (.wait clean) s →
      s.after = some tr → s.buffer.flushNow = true) ∧
    ∀ s, Runs Moves Answers (flusherRun h L w fuel) (start b) (.returned ()) s →
      ∃ tr, s.heard = tr ++ [⟨.stopIsSet, true⟩] :=
  ⟨fun r s tr hrun hafter => lastTurn_of_run h L w fuel b r s hrun tr hafter,
    fun clean s tr hask hafter => woken_of_asks h L w fuel b clean s hask tr hafter,
    stopped_of_run h L w fuel b⟩

end Theorem

/-- A `stop()` while the thread is about to wait. -/
def stopAtWait : Closing :=
  ⟨LogBuffer.init.setEvent true, true, [⟨.stopIsSet, false⟩], some []⟩

def lastTurn : List FlusherEvent :=
  [⟨.wait true, true⟩, ⟨.clear, ()⟩, ⟨.flush (.drain 100), []⟩, ⟨.stopIsSet, true⟩]

theorem drifts_stopAtWait : Dialogue.Drifts Moves
    ((start LogBuffer.init).hear ⟨.stopIsSet, false⟩) stopAtWait :=
  (Relation.ReflTransGen.single (.set _)).tail (.wake _ rfl)

theorem runs_lastTurn : Runs Moves Answers
    (flusherRun plainHost plainLimits (emptyStore "a1").overflow 2) (start LogBuffer.init)
    (.returned ())
    { stopAtWait with buffer := LogBuffer.init, after := some lastTurn } := by
  refine .ask _ _ false _ _ _ _ (.stopIsSet _) ?_
  refine .move _ _ _ _ _ (.set _) (.move _ _ _ _ _ (.wake _ rfl) ?_)
  refine .ask _ _ true _ _ _ _ (.buffer _ _ _ rfl (.triggered _ true rfl)) ?_
  refine .ask _ _ () _ _ _ _ (.buffer _ _ _ rfl (.clear _)) ?_
  refine .ask _ _ [] _ _ _ _ (.buffer _ _ _ rfl (.drain _ 100)) ?_
  refine .ask _ _ true _ _ _ _ (.stopIsSet _) ?_
  exact .done () _

theorem stop_ends_flusher_atWait : LastTurn lastTurn ∧ stopAtWait.buffer.flushNow = true ∧
    ∃ tr, [⟨.stopIsSet, false⟩] ++ lastTurn = tr ++ [⟨.stopIsSet, true⟩] := by
  obtain ⟨hlast, hwoken, hended⟩ :=
    stop_ends_flusher plainHost plainLimits (emptyStore "a1").overflow 2 LogBuffer.init
  refine ⟨hlast _ _ _ runs_lastTurn rfl, hwoken true stopAtWait [] ?_ rfl, hended _ runs_lastTurn⟩
  exact .ask _ _ false _ _ _ _ (.stopIsSet _) ((Asks.here _ _ _).drift drifts_stopAtWait)

end Closing

end Sigil.Audit
