import Sigil.Audit.Flusher
import Sigil.Library.Agreement

/-! # The flusher thread

`flusherRun` is `_Flusher.run`: it waits for the flush event or the interval, clears the event if it
was set, and flushes. The other threads push, and drain by `flush_all`, between any two of its steps.
The event is cleared before the buffer is drained, so a buffer that fills up again sets it again: when
the thread is about to wait and its last flush has emptied the buffer, a buffer that has reached the
threshold has the event set (`no_lost_wakeup`).
-/
set_option autoImplicit false

namespace Sigil.Audit

open Dialogue (query attempt Runs Asks Drifts Stable Triple wp Result)
open Json (Limits)

/-! ## The thread -/

/-- `_do_flush` with how it ended: `true` if the buffer was empty, `false` after an error. -/
def doFlushEnd (h : Host) (L : Limits) (w : OverflowWriter) : ℕ → Flush Bool
  | 0 => .spent
  | rounds + 1 => do
    let events ← drain maxSendBatch
    if events.isEmpty then pure true
    else do
      match ← attempt (deliverWithin h L w events) with
      | .ok _ => doFlushEnd h L w rounds
      | .error (.transport _ _ _) => do
        writeAll events
        pure false
      | .error _ => pure false

inductive FlusherQuestion where
  /-- `self._stop.is_set()` -/
  | stopIsSet
  /-- `flush_event.wait(timeout=_FLUSH_INTERVAL)`; `clean` is how the last flush ended, which the
  thread does not look at -/
  | wait (clean : Bool)
  /-- `flush_event.clear()` -/
  | clear
  | flush (q : FlushQuestion)

abbrev FlusherAnswer : FlusherQuestion → Type
  | .stopIsSet => Bool
  | .wait _ => Bool
  | .clear => Unit
  | .flush q => FlushAnswer q

abbrev FlusherThread (α : Type) : Type := Dialogue FlusherQuestion FlusherAnswer (Exc Empty) α

def flushing {α : Type} (p : Flush α) : FlusherThread α :=
  p.interpret fun q => query (FlusherQuestion.flush q)

/-- The body of the loop. -/
def flusherTurn (h : Host) (L : Limits) (w : OverflowWriter) (fuel : ℕ) (clean : Bool) :
    FlusherThread Bool := do
  let triggered ← query (FlusherQuestion.wait clean)
  if triggered then query FlusherQuestion.clear else pure ()
  flushing (doFlushEnd h L w fuel)

/-- `while not self._stop.is_set()`, at most `turns` times round. -/
def flusherLoop (h : Host) (L : Limits) (w : OverflowWriter) (fuel : ℕ) : ℕ → Bool → FlusherThread Unit
  | 0, _ => .spent
  | turns + 1, clean => do
    if ← query FlusherQuestion.stopIsSet then pure ()
    else do
      let clean ← flusherTurn h L w fuel clean
      flusherLoop h L w fuel turns clean

/-- Nothing has been flushed yet, so no flush has ended in an error. -/
def flusherRun (h : Host) (L : Limits) (w : OverflowWriter) (fuel : ℕ) : FlusherThread Unit :=
  flusherLoop h L w fuel fuel true

theorem bind_unit (p : Flush Unit) : (p >>= fun _ => pure ()) = p := by
  induction p with
  | done a => rfl
  | fail e => rfl
  | spent => rfl
  | ask q k ih => exact congrArg (Dialogue.ask q) (funext ih)

/-- It is `_do_flush`, if one does not look at how it ended. -/
theorem doFlushEnd_eq (h : Host) (L : Limits) (w : OverflowWriter) (rounds : ℕ) :
    (doFlushEnd h L w rounds >>= fun _ => pure ()) = doFlushWithin h L w rounds := by
  induction rounds with
  | zero => rfl
  | succ rounds ih =>
    refine congrArg (Dialogue.ask (FlushQuestion.drain maxSendBatch)) (funext fun events => ?_)
    show (if events.isEmpty = true then _ else _ : Flush Bool) >>= _ =
      (if events.isEmpty = true then _ else _ : Flush Unit)
    by_cases hempty : events.isEmpty = true
    · rw [if_pos hempty, if_pos hempty]
      rfl
    · rw [if_neg hempty, if_neg hempty]
      refine (Dialogue.bind_assoc (attempt (deliverWithin h L w events)) _ _).trans ?_
      refine congrArg (attempt (deliverWithin h L w events) >>= ·) (funext fun r => ?_)
      cases r with
      | ok _ => exact ih
      | error e =>
        cases e with
        | transport _ _ _ =>
          refine (Dialogue.bind_assoc (writeAll events) _ _).trans ?_
          exact bind_unit (writeAll events)
        | _ => rfl

/-! ## The buffer between the threads -/

namespace LogBuffer

def setEvent (b : LogBuffer) (v : Bool) : LogBuffer := { b with flushNow := v }

/-- What the other threads do: `push` and `drain` hold the lock, and `wake` sets the event. -/
inductive Moves : LogBuffer → LogBuffer → Prop where
  | push (b : LogBuffer) (event : PyVal) : Moves b (b.push event)
  | drain (b : LogBuffer) (n : ℕ) : Moves b (b.drain n).2
  | wake (b : LogBuffer) : Moves b (b.setEvent true)

def isDrain : FlushQuestion → Bool
  | .drain _ => true
  | _ => false

/-- How the buffer answers the thread. A wait may time out at any time, and returns true only while
the event is set; what is sent, written and read elsewhere may go any way. -/
inductive Answers : LogBuffer → Dialogue.Event FlusherQuestion FlusherAnswer → LogBuffer → Prop where
  | stopIsSet (b : LogBuffer) (v : Bool) : Answers b ⟨.stopIsSet, v⟩ b
  | timedOut (b : LogBuffer) (clean : Bool) : Answers b ⟨.wait clean, false⟩ b
  | triggered (b : LogBuffer) (clean : Bool) (hb : b.flushNow = true) :
      Answers b ⟨.wait clean, true⟩ b
  | clear (b : LogBuffer) : Answers b ⟨.clear, ()⟩ (b.setEvent false)
  | drain (b : LogBuffer) (n : ℕ) : Answers b ⟨.flush (.drain n), (b.drain n).1⟩ (b.drain n).2
  | other (b : LogBuffer) (q : FlushQuestion) (a : FlushAnswer q) (hq : isDrain q = false) :
      Answers b ⟨.flush q, a⟩ b

/-- A buffer that has reached the threshold has the event set. -/
def Signalled (b : LogBuffer) : Prop := flushThreshold ≤ b.buf.length → b.flushNow = true

theorem signalled_of_empty (b : LogBuffer) (hb : b.buf = []) : b.Signalled := by
  intro hfull
  rw [hb] at hfull
  exact absurd hfull (by decide)

/-- A push sets the event itself if it fills the buffer up to the threshold. -/
theorem push_signalled (b : LogBuffer) (event : PyVal) : (b.push event).Signalled := by
  intro hfull
  have hbound := b.bounded
  have hlen : (b.push event).buf.length = min ringCap (b.buf.length + 1) := by
    show ((if b.buf.length < ringCap then b.buf else b.buf.tail) ++ [event]).length = _
    rw [List.length_append, List.length_singleton]
    split
    · omega
    · rw [List.length_tail]
      have hpos : 0 < ringCap := by decide
      omega
  rw [hlen] at hfull
  show (b.flushNow || decide _) = true
  rw [decide_eq_true hfull, Bool.or_true]

theorem drain_signalled (b : LogBuffer) (n : ℕ) (hb : b.Signalled) : (b.drain n).2.Signalled := by
  intro hfull
  have hlen : (b.drain n).2.buf.length = b.buf.length - n := List.length_drop
  exact hb (by omega)

theorem signalled_stable : Stable Moves Signalled := by
  intro b b' hb hm
  cases hm with
  | push event => exact push_signalled b event
  | drain n => exact drain_signalled b n hb
  | wake => exact fun _ => rfl

/-! ## A turn of the thread -/

section Turn

variable {h : Host} {L : Limits} {w : OverflowWriter} {fuel : ℕ}

/-- How the buffer answers the questions of a flush. -/
def FlushAnswers (b : LogBuffer) (e : Dialogue.Event FlushQuestion FlushAnswer) (b' : LogBuffer) :
    Prop := Answers b ⟨.flush e.1, e.2⟩ b'

theorem wp_flushing {α : Type} (p : Flush α) (post : Result (Exc Empty) α → LogBuffer → Prop)
    (b : LogBuffer) (hp : wp Moves FlushAnswers p post b) :
    wp Moves Answers (flushing p) post b := by
  induction p generalizing b with
  | done a => exact hp
  | fail e => exact hp
  | spent => exact hp
  | ask q k ih =>
    intro b' hdrift
    exact ⟨(hp b' hdrift).1, fun a b'' ha => ih a b'' ((hp b' hdrift).2 a b'' ha)⟩

/-- A flush that empties the buffer leaves it signalled. -/
def Cleared (r : Result (Exc Empty) Bool) (b : LogBuffer) : Prop := r = .returned true → b.Signalled

theorem triple_unclean :
    Triple Moves FlushAnswers (fun _ => True) (pure false : Flush Bool) Cleared :=
  Dialogue.triple_done (fun _ _ _ _ => trivial) (fun _ _ hr => by cases hr) fun _ _ hr => by cases hr

theorem doFlushEnd_triple (rounds : ℕ) :
    Triple Moves FlushAnswers (fun _ => True) (doFlushEnd h L w rounds) Cleared := by
  induction rounds with
  | zero => exact Dialogue.triple_spent (fun _ _ _ _ => trivial) fun _ _ hr => by cases hr
  | succ rounds ih =>
    refine Dialogue.triple_query_bind (fun events b => events = [] → b.Signalled)
      (fun _ _ _ _ => trivial) (fun _ _ hr => by cases hr) ?_ ?_
    · intro b events b' _ ha hnil
      cases ha with
      | drain =>
        -- nothing is taken from an empty buffer only
        apply signalled_of_empty
        have hlen : min maxSendBatch b.buf.length = 0 := by
          rw [← List.length_take]
          exact congrArg List.length hnil
        have hpos : 0 < maxSendBatch := by decide
        have hbuf : b.buf.length = 0 := by omega
        show b.buf.drop maxSendBatch = []
        rw [List.length_eq_zero_iff.mp hbuf, List.drop_nil]
      | other _ _ hq => cases hq
    · intro events
      by_cases hempty : events.isEmpty = true
      · rw [if_pos hempty]
        have hnil : events = [] := List.isEmpty_iff.mp hempty
        refine Dialogue.triple_done ?_ ?_ ?_
        · exact fun b b' hb hm _ => signalled_stable b b' (hb hnil) hm
        · exact fun _ _ hr => by cases hr
        · exact fun b hb _ => hb hnil
      · rw [if_neg hempty]
        have htry : Triple Moves FlushAnswers (fun b => events = [] → b.Signalled)
            (attempt (deliverWithin h L w events) : Flush (Except (Exc Empty) Unit)) fun _ _ => True :=
          fun b _ => Dialogue.wp_true _ b
        refine htry.bind ?_ (fun _ _ _ hr => by cases hr) fun _ _ hr => by cases hr
        intro r
        cases r with
        | ok _ => exact ih
        | error e =>
          cases e with
          | transport _ _ _ =>
            have hwrite : Triple Moves FlushAnswers (fun _ => True) (writeAll events) fun _ _ => True :=
              fun b _ => Dialogue.wp_true _ b
            refine hwrite.bind ?_ (fun _ _ _ hr => by cases hr) fun _ _ hr => by cases hr
            intro _
            exact triple_unclean
          | _ => exact triple_unclean

theorem flushing_triple (rounds : ℕ) :
    Triple Moves Answers (fun _ => True) (flushing (doFlushEnd h L w rounds)) Cleared :=
  fun b hb => wp_flushing _ _ b (doFlushEnd_triple rounds b hb)

theorem flusherTurn_triple (clean : Bool) :
    Triple Moves Answers (fun _ => True) (flusherTurn h L w fuel clean) Cleared := by
  refine Dialogue.triple_query_bind (fun _ _ => True) (fun _ _ _ _ => trivial)
    (fun _ _ hr => by cases hr) (fun _ _ _ _ _ => trivial) ?_
  intro triggered
  cases triggered with
  | true =>
    exact Dialogue.triple_query_bind (fun _ _ => True) (fun _ _ _ _ => trivial)
      (fun _ _ hr => by cases hr) (fun _ _ _ _ _ => trivial) fun _ => flushing_triple fuel
  | false => exact flushing_triple fuel

theorem not_flushing_asks (rounds : ℕ) (c : Bool) (b b' : LogBuffer) :
    ¬ Asks Moves Answers (flushing (doFlushEnd h L w rounds)) b (.wait c) b' := by
  intro hask
  obtain ⟨q₀, b₁, hq₀⟩ := hask.interpret_inv
  obtain ⟨hq, -⟩ := hq₀.query_inv
  cases hq

/-- The thread waits at the beginning of a turn only. -/
theorem flusherTurn_asks (clean c : Bool) (b b' : LogBuffer)
    (hask : Asks Moves Answers (flusherTurn h L w fuel clean) b (.wait c) b') :
    c = clean ∧ Drifts Moves b b' := by
  rcases hask.bind_cases with hwait | ⟨triggered, b₁, -, hrest⟩
  · obtain ⟨hq, hdrift⟩ := hwait.query_inv
    cases hq
    exact ⟨rfl, hdrift⟩
  · cases triggered with
    | true =>
      have hclear : Asks Moves Answers (query FlusherQuestion.clear >>= fun _ =>
          flushing (doFlushEnd h L w fuel)) b₁ (.wait c) b' := hrest
      rcases hclear.bind_cases with hleft | ⟨_, b₂, -, hflush⟩
      · obtain ⟨hq, -⟩ := hleft.query_inv
        cases hq
      · exact absurd hflush (not_flushing_asks fuel c b₂ b')
    | false => exact absurd hrest (not_flushing_asks fuel c b₁ b')

theorem stopIsSet_triple :
    Triple Moves Answers Signalled (query FlusherQuestion.stopIsSet : FlusherThread Bool)
      fun _ b => b.Signalled := by
  refine Dialogue.triple_ask (fun _ b => b.Signalled) signalled_stable (fun _ hb => hb) ?_ ?_
  · intro b v b' hb ha
    cases ha
    exact hb
  · exact fun v => Dialogue.triple_done signalled_stable (fun _ hb => hb) fun _ hb => hb

/-- What one turn keeps: the buffer is signalled whenever the thread waits after a flush that emptied
it. -/
theorem flusherLoop_asks (turns : ℕ) (clean : Bool) (b b' : LogBuffer)
    (hb : clean = true → b.Signalled)
    (hask : Asks Moves Answers (flusherLoop h L w fuel turns clean) b (.wait true) b') :
    b'.Signalled := by
  induction turns generalizing clean b with
  | zero => exact absurd hask Dialogue.not_asks_spent
  | succ turns ih =>
    rcases hask.bind_cases with hstop | ⟨stopped, b₁, hstop, hrest⟩
    · obtain ⟨hq, -⟩ := hstop.query_inv
      cases hq
    · have hb₁ : clean = true → b₁.Signalled :=
        fun hc => hstop.of_wp (stopIsSet_triple b (hb hc))
      cases stopped with
      | true => exact absurd hrest Dialogue.not_asks_done
      | false =>
        rcases hrest.bind_cases with hturn | ⟨c, b₂, hturn, hloop⟩
        · obtain ⟨hclean, hdrift⟩ := flusherTurn_asks clean true b₁ b' hturn
          exact signalled_stable.drifts (hb₁ hclean.symm) hdrift
        · refine ih c b₂ ?_ hloop
          intro hc
          have hcleared := hturn.of_wp (flusherTurn_triple clean b₁ trivial)
          rw [hc] at hcleared
          exact hcleared rfl

end Turn

/-- **No wake-up is lost.** Whatever the threads do in whatever order, when the flusher is about to
wait and its last flush has not ended in an error, a buffer that holds fifty events or more has the
event set. -/
theorem no_lost_wakeup (h : Host) (L : Limits) (w : OverflowWriter) (fuel : ℕ) (b b' : LogBuffer)
    (hempty : b.buf = [])
    (hask : Asks Moves Answers (flusherRun h L w fuel) b (.wait true) b')
    (hfull : 50 ≤ b'.buf.length) : b'.flushNow = true :=
  flusherLoop_asks fuel true b b' (fun _ => signalled_of_empty b hempty) hask hfull

/-- The buffer after so many pushes onto an empty one. -/
def pushes : ℕ → LogBuffer
  | 0 => .init
  | n + 1 => (pushes n).push .none

theorem drifts_pushes (n : ℕ) : Drifts Moves .init (pushes n) := by
  induction n with
  | zero => exact .refl
  | succ n ih => exact ih.tail (.push (pushes n) .none)

theorem no_lost_wakeup_pushes : (pushes 50).flushNow = true :=
  no_lost_wakeup plainHost plainLimits (emptyStore "a1").overflow 1 .init (pushes 50) rfl
    (.ask _ _ false _ _ _ _ (.stopIsSet _ false) ((Asks.here _ _ _).drift (drifts_pushes 50)))
    (by decide +kernel)

end LogBuffer

end Sigil.Audit
