import Sigil.Audit.Pipeline
import Sigil.Library.Shared
import Mathlib.Algebra.Order.Group.Multiset

/-! # Several flushes at once

The background thread flushes, and so does every `flush_all` of an exit or a close, while other
threads push and write. Every flush answers for the batches it has drained (`Handles`), so that no
event goes to two of them and none is forgotten, in whatever order they take turns.
-/
set_option autoImplicit false

namespace Sigil.Audit

open Dialogue (Shared Guided Deterministic attempt ofExcept guided_done guided_fail guided_spent
  guided_query_bind heardBy)
open Json (FloatTexts asJson)

abbrev FlushEvent : Type := Dialogue.Event FlushQuestion FlushAnswer

def isTransport : Except (Exc Empty) PyVal → Bool
  | .error (.transport _ _ _) => true
  | _ => false

/-! ## What is asked for an event -/

/-- The events a question took out of the buffer. -/
def drainedBy : FlushEvent → List PyVal
  | ⟨.drain _, events⟩ => events
  | _ => []

/-- The events of a batch of the buffer that was accepted. -/
def deliveredBy : FlushEvent → List PyVal
  | ⟨.logBatch .buffer events, r⟩ => if r.isOk then events else []
  | _ => []

/-- The events of a batch of the buffer that is not tried again. -/
def refusedBy : FlushEvent → List PyVal
  | ⟨.logBatch .buffer events, r⟩ => if r.isOk || isTransport r then [] else events
  | _ => []

/-- The event that was handed to the overflow writer. -/
def spilledBy : FlushEvent → List PyVal
  | ⟨.overflowWrite event, _⟩ => [event]
  | _ => []

/-! ## The hand of a flush -/

/-- What a flush has in hand. Between two rounds that may be a file, with what it held when it was
read and the events of it that have been accepted since. -/
inductive Hand where
  | free (file : Option (String × List UInt8 × List PyVal))
  | drained (events : List PyVal)
  | spilling (events : List PyVal)

/-- The events that are in no other place. -/
def Hand.held : Hand → List PyVal
  | free _ => []
  | drained events => events
  | spilling events => events

inductive Handles (h : Host) : Hand → FlushEvent → Hand → Prop where
  | drain (file : Option (String × List UInt8 × List PyVal)) (events : List PyVal) :
      Handles h (.free file) ⟨.drain maxSendBatch, events⟩ (.drained events)
  | deliver (events : List PyVal) (r : Except (Exc Empty) PyVal) (hne : events ≠ []) :
      Handles h (.drained events) ⟨.logBatch .buffer events, r⟩
        (if isTransport r then .spilling events else .free none)
  | spill (event : PyVal) (events : List PyVal) :
      Handles h (.spilling (event :: events)) ⟨.overflowWrite event, ()⟩ (.spilling events)
  | list (file : Option (String × List UInt8 × List PyVal)) (listing : Option (List String)) :
      Handles h (.free file) ⟨.listDir, listing⟩ (.free none)
  | read (file : Option (String × List UInt8 × List PyVal)) (path : String)
      (bytes : Option (List UInt8)) : Handles h (.free file) ⟨.readFile path, bytes⟩
        (.free (bytes.map fun bytes => (path, bytes, [])))
  | replay (path : String) (bytes : List UInt8) (accepted events : List PyVal)
      (r : Except (Exc Empty) PyVal) (hfrom : ∀ v ∈ events, v ∈ eventsOf h bytes)
      (hsize : 1 ≤ events.length ∧ events.length ≤ 100) :
      Handles h (.free (some (path, bytes, accepted))) ⟨.logBatch (.file path) events, r⟩
        (.free (some (path, bytes, accepted ++ if r.isOk then events else [])))
  | unlink (path : String) (bytes : List UInt8) (accepted : List PyVal)
      (htext : ∃ text, decodeUtf8 bytes = some text)
      (hall : ∀ v ∈ eventsOf h bytes, v ∈ accepted) :
      Handles h (.free (some (path, bytes, accepted))) ⟨.unlink path, ()⟩ (.free none)

theorem handles_deterministic (h : Host) : Deterministic (Handles h) := by
  intro g e g₁ g₂ h₁ h₂
  cases h₁ <;> cases h₂ <;> rfl

/-- **What a flush drains it holds until it has settled it.** -/
theorem handles_balance (h : Host) {g g' : Hand} {e : FlushEvent} (hs : Handles h g e g') :
    (g.held ++ drainedBy e).Perm (g'.held ++ (deliveredBy e ++ (refusedBy e ++ spilledBy e))) := by
  cases hs with
  | deliver events r hne =>
    cases r with
    | ok v => simp [drainedBy, deliveredBy, refusedBy, spilledBy, isTransport, Hand.held, Except.isOk,
        Except.toBool]
    | error e =>
      cases e <;> simp [drainedBy, deliveredBy, refusedBy, spilledBy, isTransport, Hand.held,
        Except.isOk, Except.toBool]
  | spill event events =>
    simp only [drainedBy, deliveredBy, refusedBy, spilledBy, Hand.held, List.append_nil,
      List.nil_append]
    exact List.perm_append_singleton event events |>.symm
  | _ => simp [drainedBy, deliveredBy, refusedBy, spilledBy, Hand.held]

/-! ## A flush keeps to it -/

section Guided

variable {h : Host} {L : Json.Limits}

/-- A replay leaves the hand free, and no transport error leaves it. -/
def Replayed {α : Type} (x : Except (Exc Empty) α) (g : Hand) : Prop :=
  (∃ file, g = .free file) ∧ ∀ e, x = .error e → e.isUnreachable = false

theorem sendBatches_guided (path : String) (bytes : List UInt8) (batches : List (List PyVal))
    (hsize : ∀ batch ∈ batches, 1 ≤ batch.length ∧ batch.length ≤ 100)
    (hfrom : ∀ batch ∈ batches, ∀ v ∈ batch, v ∈ eventsOf h bytes) (accepted : List PyVal) :
    Guided (Handles h) (sendBatches path batches) (.free (some (path, bytes, accepted)))
      fun x g => Replayed x g ∧
        (x = .ok true → g = .free (some (path, bytes, accepted ++ batches.flatten))) := by
  induction batches generalizing accepted with
  | nil =>
    apply guided_done
    refine ⟨⟨⟨_, rfl⟩, fun e he => by cases he⟩, fun _ => ?_⟩
    rw [List.flatten_nil, List.append_nil]
  | cons batch batches ih =>
    have hrest := ih (fun b hb => hsize b (List.mem_cons_of_mem _ hb))
      fun b hb => hfrom b (List.mem_cons_of_mem _ hb)
    apply guided_query_bind
    intro r
    refine ⟨_, .replay path bytes accepted batch r (hfrom batch List.mem_cons_self)
      (hsize batch List.mem_cons_self), ?_⟩
    cases r with
    | ok v =>
      have htail := hrest (accepted ++ batch)
      rw [List.append_assoc] at htail
      exact htail
    | error e =>
      -- the other batches are not tried
      cases hu : e.isUnreachable with
      | true =>
        simp only [hu, if_true]
        apply guided_done
        exact ⟨⟨⟨_, rfl⟩, fun e he => by cases he⟩, fun hx => by cases hx⟩
      | false =>
        simp only [hu, if_neg Bool.false_ne_true]
        apply guided_fail
        refine ⟨⟨⟨_, rfl⟩, fun e' he => ?_⟩, fun hx => by cases hx⟩
        cases he
        exact hu

theorem unlink_guided (path : String) (bytes : List UInt8) (accepted : List PyVal)
    (htext : ∃ text, decodeUtf8 bytes = some text)
    (hall : ∀ v ∈ eventsOf h bytes, v ∈ accepted) :
    Guided (Handles h) (unlink path) (.free (some (path, bytes, accepted))) Replayed := by
  apply Dialogue.guided_ask
  intro _
  refine ⟨_, .unlink path bytes accepted htext hall, ?_⟩
  apply guided_done
  exact ⟨⟨none, rfl⟩, fun e he => by cases he⟩

theorem replayText_guided (path : String) (bytes : List UInt8) (text : String)
    (htext : decodeUtf8 bytes = some text) :
    Guided (Handles h) (replayText h path text) (.free (some (path, bytes, []))) Replayed := by
  have hevents : eventsOf h bytes = lineEvents h (strippedLines text.toList) := by
    rw [eventsOf, htext]
  simp only [replayText]
  split
  · next hempty =>
    apply unlink_guided path bytes [] ⟨text, htext⟩
    rw [hevents, List.isEmpty_iff.mp hempty]
    exact fun v hv => absurd hv List.not_mem_nil
  · have hfrom : ∀ batch ∈ slices 100 (lineEvents h (strippedLines text.toList)),
        ∀ v ∈ batch, v ∈ eventsOf h bytes := by
      rw [hevents]
      exact fun batch hb v hv => slices_sub 100 _ batch hb v hv
    refine (sendBatches_guided path bytes _ (slices_size 100 (by decide) _) hfrom []).bind
      ?_ fun e g hg => ⟨hg.1.1, fun e' he => hg.1.2 e' (by cases he; rfl)⟩
    intro allOk g hg
    obtain ⟨⟨⟨file, rfl⟩, -⟩, hall⟩ := hg
    cases allOk with
    | true =>
      rw [hall rfl]
      apply unlink_guided path bytes _ ⟨text, htext⟩
      rw [hevents]
      exact fun v hv => mem_slices 100 (by decide) _ v hv
    | false =>
      apply guided_done
      exact ⟨⟨file, rfl⟩, fun e he => by cases he⟩

theorem replayFile_guided (path : String) (file : Option (String × List UInt8 × List PyVal)) :
    Guided (Handles h) (replayFileWithin h L path) (.free file) Replayed := by
  apply guided_query_bind
  intro r
  refine ⟨_, .read file path r, ?_⟩
  cases r with
  | none =>
    apply guided_done
    exact ⟨⟨none, rfl⟩, fun e he => by cases he⟩
  | some bytes =>
    rcases replayRead_cases h L path bytes with ⟨e, -, hfail⟩ | ⟨-, text, htext, hread⟩
    · rw [hfail]
      apply guided_fail
      refine ⟨⟨_, rfl⟩, fun e he => ?_⟩
      cases he
      rfl
    · rw [hread]
      exact replayText_guided path bytes text htext

theorem replayFiles_guided (paths : List String)
    (file : Option (String × List UInt8 × List PyVal)) :
    Guided (Handles h) (replayFilesWithin h L paths) (.free file) Replayed := by
  induction paths generalizing file with
  | nil =>
    apply guided_done
    exact ⟨⟨file, rfl⟩, fun e he => by cases he⟩
  | cons path paths ih =>
    refine (replayFile_guided path file).bind ?_ fun e g hg => hg
    intro _ g hg
    obtain ⟨⟨file', rfl⟩, -⟩ := hg
    exact ih file'

theorem replay_guided (w : OverflowWriter) (file : Option (String × List UInt8 × List PyVal)) :
    Guided (Handles h) (replayWithin h L w) (.free file) Replayed := by
  have hdone : ∀ file, Guided (Handles h) (pure () : Flush Unit) (.free file) Replayed :=
    fun file => guided_done () ⟨⟨file, rfl⟩, fun e he => by cases he⟩
  unfold replayWithin
  split
  · exact hdone file
  · apply guided_query_bind
    intro r
    refine ⟨_, .list file r, ?_⟩
    cases r with
    | none => exact hdone none
    | some listing => exact replayFiles_guided _ none

theorem writeAll_guided (events : List PyVal) :
    Guided (Handles h) (writeAll events) (.spilling events) fun _ g => g.held = [] := by
  induction events with
  | nil => exact guided_done () rfl
  | cons event events ih => exact guided_query_bind fun _ => ⟨_, .spill event events, ih⟩

/-- Only after a transport error there is something left to do. -/
theorem deliver_guided (w : OverflowWriter) (events : List PyVal) (hne : events ≠ []) :
    Guided (Handles h) (deliverWithin h L w events) (.drained events) fun x g => match x with
      | .error (.transport _ _ _) => g = .spilling events
      | _ => ∃ file, g = .free file := by
  apply guided_query_bind
  intro r
  refine ⟨_, .deliver events r hne, ?_⟩
  cases r with
  | ok v =>
    refine (replay_guided w none).mono ?_
    intro x g hx
    obtain ⟨hfree, herror⟩ := hx
    cases x with
    | ok _ => exact hfree
    | error e =>
      cases e with
      | transport m method url => exact Bool.noConfusion (herror _ rfl)
      | _ => exact hfree
  | error e =>
    apply guided_fail
    cases e with
    | transport m method url => rfl
    | _ => exact ⟨none, rfl⟩

theorem doFlush_guided (w : OverflowWriter) (rounds : ℕ)
    (file : Option (String × List UInt8 × List PyVal)) :
    Guided (Handles h) (doFlushWithin h L w rounds) (.free file) fun _ g => g.held = [] := by
  induction rounds generalizing file with
  | zero => exact guided_spent
  | succ rounds ih =>
    apply guided_query_bind
    intro events
    refine ⟨_, .drain file events, ?_⟩
    cases events with
    | nil => exact guided_done () rfl
    | cons event events =>
      refine (deliver_guided w (event :: events) (List.cons_ne_nil _ _)).attempt_bind ?_
      intro x g hx
      cases x with
      | ok _ =>
        obtain ⟨file', rfl⟩ := hx
        exact ih file'
      | error e =>
        cases e with
        | transport m method url =>
          obtain rfl := hx
          exact writeAll_guided (event :: events)
        | _ =>
          obtain ⟨file', rfl⟩ := hx
          exact guided_done () rfl

end Guided

/-! ## Flushes and other threads -/

/-- Between two steps of the flushes, other threads push and write. -/
inductive Elsewhere (h : Host) : Trail → Trail → Prop where
  | push (t : Trail) (event : PyVal) : Elsewhere h t (t.push event)
  | write (t : Trail) (day : String) (event : PyVal) : Elsewhere h t (t.write h day event)

def Takes (h : Host) (c : SigilClient) (t : Trail) (e : FlushEvent) (t' : Trail) : Prop :=
  ∃ now, Trail.answer h c now e.1 t = (e.2, t')

/-! ### What leaves the buffer -/

inductive Departure where
  | evicted (event : PyVal)
  | drained (batch : List PyVal)

namespace Departure

def events : Departure → List PyVal
  | evicted event => [event]
  | drained batch => batch

def evicted? : Departure → Option PyVal
  | evicted event => some event
  | drained _ => none

def drained? : Departure → Option (List PyVal)
  | evicted _ => none
  | drained batch => some batch

end Departure

def drain? : FlushEvent → Option (List PyVal)
  | ⟨.drain _, events⟩ => some events
  | _ => none

section Departures

variable {h : Host} {L : Json.Limits} {c : SigilClient} {ι : Type}

/-- The events that were pushed are those that have left the buffer, in the order in which they
left, and those in it. -/
def Departed (t : Trail) (tr : List (ι × FlushEvent)) (departures : List Departure) : Prop :=
  t.pushed = departures.flatMap Departure.events ++ t.store.buffer.buf ∧
    t.evicted = departures.filterMap Departure.evicted? ∧
    (tr.filterMap fun e => drain? e.2) = departures.filterMap Departure.drained?

theorem push_departed {t : Trail} {tr : List (ι × FlushEvent)} {departures : List Departure}
    (ht : Departed t tr departures) (event : PyVal) :
    ∃ departures', Departed (t.push event) tr departures' := by
  obtain ⟨hpushed, hevicted, hdrained⟩ := ht
  by_cases hroom : t.store.buffer.buf.length < ringCap
  · refine ⟨departures, ?_, ?_, hdrained⟩
    · simp only [Trail.push, Store.push, LogBuffer.push, if_pos hroom]
      rw [hpushed, List.append_assoc]
    · simp only [Trail.push, if_pos hroom, List.append_nil]
      exact hevicted
  · cases hbuf : t.store.buffer.buf with
    | nil =>
      have hpos : 0 < ringCap := by decide
      rw [hbuf, List.length_nil] at hroom
      omega
    | cons oldest rest =>
      rw [hbuf] at hroom hpushed
      refine ⟨departures ++ [.evicted oldest], ?_, ?_, ?_⟩
      · simp only [Trail.push, Store.push, LogBuffer.push, hbuf, if_neg hroom, List.tail_cons]
        simp [hpushed, Departure.events]
      · simp only [Trail.push, hbuf, if_neg hroom]
        simp [hevicted, Departure.evicted?]
      · simp [hdrained, Departure.drained?]

/-- Nothing else than a push and a drain changes the buffer. -/
theorem takes_buffer {t t' : Trail} {e : FlushEvent} (ht : Takes h c t e t') :
    t'.pushed = t.pushed ∧ t'.evicted = t.evicted ∧
      t.store.buffer.buf = drainedBy e ++ t'.store.buffer.buf := by
  obtain ⟨q, a⟩ := e
  obtain ⟨now, heq⟩ := ht
  have hanswer : Trail.answer h c now q t = (a, t') := heq
  obtain ⟨rfl, rfl⟩ := Prod.mk.inj hanswer
  cases q with
  | drain n => exact ⟨rfl, rfl, (List.take_append_drop n _).symm⟩
  | unlink path =>
    simp only [Trail.unlink]
    split <;> exact ⟨rfl, rfl, rfl⟩
  | logBatch source events => cases source <;> exact ⟨rfl, rfl, rfl⟩
  | _ => exact ⟨rfl, rfl, rfl⟩

theorem takes_departed {t t' : Trail} {e : FlushEvent} {tr : List (ι × FlushEvent)}
    {departures : List Departure} (ht : Departed t tr departures) (hstep : Takes h c t e t')
    (i : ι) : ∃ departures', Departed t' (tr ++ [(i, e)]) departures' := by
  obtain ⟨hpushed, hevicted, hdrained⟩ := ht
  obtain ⟨hpushed', hevicted', hbuf⟩ := takes_buffer hstep
  cases hdrain : drain? e with
  | none =>
    have hnone : drainedBy e = [] := by
      obtain ⟨q, a⟩ := e
      cases q <;> first | rfl | cases hdrain
    rw [hnone, List.nil_append] at hbuf
    refine ⟨departures, ?_, hevicted'.trans hevicted, ?_⟩
    · rw [hpushed', hpushed, hbuf]
    · simp [hdrained, hdrain]
  | some batch =>
    have hbatch : drainedBy e = batch := by
      obtain ⟨q, a⟩ := e
      cases q <;> first | exact Option.some.inj hdrain | cases hdrain
    rw [hbatch] at hbuf
    refine ⟨departures ++ [.drained batch], ?_, ?_, ?_⟩
    · rw [hpushed', hpushed, hbuf]
      simp [Departure.events]
    · rw [hevicted', hevicted]
      simp [Departure.evicted?]
    · simp [hdrained, hdrain, Departure.drained?]

/-- **The buffer is a queue that drops its oldest events.** However many threads drain it while
others push, every pushed event leaves it once, evicted or in one drained batch, and they leave it
in the order in which they came; the rest is in it, in that order. -/
theorem buffer_is_queue {α : Type} [DecidableEq ι] (pool pool' : ι → Flush α) (store : Store)
    (tr : List (ι × FlushEvent)) (t : Trail)
    (hrun : Shared (Elsewhere h) (fun _ => Takes h c) pool (Trail.start store) tr pool' t) :
    ∃ departures : List Departure,
      t.pushed = departures.flatMap Departure.events ++ t.store.buffer.buf ∧
      t.evicted = departures.filterMap Departure.evicted? ∧
      (tr.filterMap fun e => drain? e.2) = departures.filterMap Departure.drained? := by
  have hall := hrun.invariant (I := fun t tr => ∃ departures, Departed t tr departures) ?_ ?_ []
    ⟨[], rfl, rfl, rfl⟩
  · rwa [List.nil_append] at hall
  · intro t t' tr ht hm
    obtain ⟨departures, ht⟩ := ht
    cases hm with
    | push event => exact push_departed ht event
    | write day event => exact ⟨departures, ht⟩
  · intro i t e t' tr ht hstep
    obtain ⟨departures, ht⟩ := ht
    exact takes_departed ht hstep i

end Departures

/-! ### Two flushes to try -/

def twoFlushes : Bool → Flush Unit :=
  fun _ => doFlushWithin plainHost plainLimits (emptyStore "a1").overflow 1

/-- An event is pushed; one of the flushes drains it, and the other finds the buffer empty. -/
def twoDrains : List (Bool × FlushEvent) :=
  [(false, ⟨.drain maxSendBatch, [.str "x"]⟩), (true, ⟨.drain maxSendBatch, []⟩)]

def drainedTwice : Trail :=
  (((Trail.start (emptyStore "a1")).push (.str "x")).drain maxSendBatch).drain maxSendBatch

/-- What is left of a flush that has drained `events`. -/
def afterDrain (events : List PyVal) : Flush Unit :=
  if events.isEmpty then pure ()
  else attempt (deliverWithin plainHost plainLimits (emptyStore "a1").overflow events) >>=
    Trail.sequel plainHost plainLimits (emptyStore "a1").overflow 0 events

def twoLeft : Bool → Flush Unit
  | false => afterDrain [.str "x"]
  | true => afterDrain []

theorem twoLeft_eq : Function.update (Function.update twoFlushes false (afterDrain [.str "x"])) true
    (afterDrain []) = twoLeft := by
  funext i
  cases i <;> rfl

theorem twoDrains_run : Shared (Elsewhere plainHost) (fun _ => Takes plainHost plainClient)
    twoFlushes ((Trail.start (emptyStore "a1")).push (.str "x")) twoDrains twoLeft drainedTwice := by
  rw [← twoLeft_eq, twoDrains]
  have hdrain : ∀ t : Trail, Takes plainHost plainClient t
      ⟨.drain maxSendBatch, t.store.buffer.buf.take maxSendBatch⟩ (t.drain maxSendBatch) :=
    fun t => ⟨⟨acceptedAnswer, none, ""⟩, rfl⟩
  apply Shared.step
  · exact rfl
  · exact hdrain _
  apply Shared.step
  · exact rfl
  · exact hdrain _
  exact .refl _ _

theorem twoFlushes_run : Shared (Elsewhere plainHost) (fun _ => Takes plainHost plainClient)
    twoFlushes (Trail.start (emptyStore "a1")) twoDrains twoLeft drainedTwice :=
  .move _ _ _ _ _ _ (.push _ (.str "x")) twoDrains_run

theorem buffer_is_queue_twoDrains : ∃ departures : List Departure,
    [PyVal.str "x"] = departures.flatMap Departure.events ∧
      [[PyVal.str "x"], []] = departures.filterMap Departure.drained? := by
  obtain ⟨departures, hpushed, -, hdrained⟩ :=
    buffer_is_queue twoFlushes twoLeft _ _ _ twoFlushes_run
  exact ⟨departures, hpushed.trans (List.append_nil _), hdrained⟩

/-! ### What becomes of it -/

section Books

variable {h : Host} {L : Json.Limits} {c : SigilClient} {ι : Type} [Fintype ι]

/-- The events that were pushed, counted where they are. -/
def Balanced (t : Trail) (tr : List (ι × FlushEvent)) (g : ι → Hand) : Prop :=
  (t.pushed : Multiset PyVal) = t.store.buffer.buf + t.evicted +
    (tr.flatMap fun e => deliveredBy e.2) + (tr.flatMap fun e => refusedBy e.2) +
    (tr.flatMap fun e => spilledBy e.2) + ∑ i, ((g i).held : Multiset PyVal)

theorem push_balanced {t : Trail} {tr : List (ι × FlushEvent)} {g : ι → Hand}
    (ht : Balanced t tr g) (event : PyVal) : Balanced (t.push event) tr g := by
  have hbuffer : ((t.push event).store.buffer.buf : Multiset PyVal) + (t.push event).evicted =
      t.store.buffer.buf + t.evicted + [event] := by
    by_cases hroom : t.store.buffer.buf.length < ringCap
    · simp only [Trail.push, Store.push, LogBuffer.push, if_pos hroom, List.append_nil]
      rw [← Multiset.coe_add]
      abel
    · have hsplit : t.store.buffer.buf.take 1 ++ t.store.buffer.buf.tail = t.store.buffer.buf := by
        rw [← List.drop_one, List.take_append_drop]
      simp only [Trail.push, Store.push, LogBuffer.push, if_neg hroom]
      conv_rhs => rw [← hsplit]
      simp only [← Multiset.coe_add]
      abel
  have hpushed : ((t.push event).pushed : Multiset PyVal) = t.pushed + [event] :=
    (Multiset.coe_add _ _).symm
  unfold Balanced at ht ⊢
  rw [hpushed, ht, hbuffer]
  abel

/-- A batch has at most 100 events. -/
theorem takes_length {t t' : Trail} {e : FlushEvent} {g γ : Hand} (hstep : Takes h c t e t')
    (hlength : g.held.length ≤ 100) (hhand : Handles h g e γ) : γ.held.length ≤ 100 := by
  cases hhand with
  | drain file events =>
    obtain ⟨now, heq⟩ := hstep
    have hevents : events = t.store.buffer.buf.take 100 := (congrArg Prod.fst heq).symm
    rw [hevents]
    exact List.length_take_le 100 _
  | deliver events r hne =>
    split
    · exact hlength
    · exact Nat.zero_le 100
  | spill event events => exact Nat.le_of_succ_le hlength
  | _ => exact Nat.zero_le 100

variable [DecidableEq ι]

theorem takes_balanced {t t' : Trail} {tr : List (ι × FlushEvent)} {g : ι → Hand}
    (ht : Balanced t tr g) {i : ι} {e : FlushEvent} {γ : Hand} (hstep : Takes h c t e t')
    (hhand : Handles h (g i) e γ) :
    Balanced t' (tr ++ [(i, e)]) (Function.update g i γ) := by
  obtain ⟨hpushed, hevicted, hbuf⟩ := takes_buffer hstep
  have hbuf : (t.store.buffer.buf : Multiset PyVal) = drainedBy e + t'.store.buffer.buf := by
    rw [hbuf, Multiset.coe_add]
  have hhand : ((g i).held : Multiset PyVal) + drainedBy e =
      γ.held + (deliveredBy e + (refusedBy e + spilledBy e)) := by
    simp only [Multiset.coe_add]
    exact Multiset.coe_eq_coe.mpr (handles_balance h hhand)
  have hsum := Dialogue.sum_update_add (fun g : Hand => (g.held : Multiset PyVal)) g i γ
  unfold Balanced at ht ⊢
  rw [hpushed, hevicted, ht, hbuf]
  simp only [List.flatMap_append, List.flatMap_singleton, ← Multiset.coe_add]
  classical
  refine Multiset.ext.mpr fun v => ?_
  have hhand := congrArg (Multiset.count v) hhand
  have hsum := congrArg (Multiset.count v) hsum
  simp only [Multiset.count_add] at hhand hsum ⊢
  omega

/-- Whatever else moves the trail, if it keeps the books. -/
theorem settled_beside {moves : Trail → Trail → Prop}
    (hmoves : ∀ t t' (tr : List (ι × FlushEvent)) g, Balanced t tr g → moves t t' → Balanced t' tr g)
    (w : ι → OverflowWriter) (rounds : ι → ℕ) (store : Store) (tr : List (ι × FlushEvent))
    (pool' : ι → Flush Unit) (t : Trail)
    (hrun : Shared moves (fun _ => Takes h c) (fun i => doFlushWithin h L (w i) (rounds i))
      (Trail.start store) tr pool' t) :
    ∃ held : ι → List PyVal,
      (t.pushed : Multiset PyVal) = t.store.buffer.buf + t.evicted +
        (tr.flatMap fun e => deliveredBy e.2) + (tr.flatMap fun e => refusedBy e.2) +
        (tr.flatMap fun e => spilledBy e.2) + ∑ i, (held i : Multiset PyVal) ∧
      (∀ i, (held i).length ≤ 100) ∧ ∀ i x, pool' i = ofExcept x → held i = [] := by
  have hguided := hrun.guided (handles_deterministic h)
    (J := fun t tr g => Balanced t tr g ∧ ∀ i, (g i).held.length ≤ 100)
    (P := fun _ _ g => g.held = []) ?_ ?_ [] (fun _ => .free none)
    (fun i => doFlush_guided (w i) (rounds i) none) ?_
  · obtain ⟨g, ⟨hbalanced, hlength⟩, hends⟩ := hguided
    rw [List.nil_append] at hbalanced
    refine ⟨fun i => (g i).held, hbalanced, hlength, fun i x hx => ?_⟩
    have hend := hends i
    rw [hx] at hend
    exact hend.ended
  · exact fun t t' tr g ht hm => ⟨hmoves t t' tr g ht.1 hm, ht.2⟩
  · intro i t e t' tr g γ ht hstep hhand
    refine ⟨takes_balanced ht.1 hstep hhand, fun j => ?_⟩
    by_cases hj : j = i
    · rw [hj, Function.update_self]
      exact takes_length hstep (ht.2 i) hhand
    · rw [Function.update_of_ne hj]
      exact ht.2 j
  · refine ⟨?_, fun _ => Nat.zero_le 100⟩
    simp [Balanced, Trail.start, Hand.held]

/-- **Every event is settled once.** However many flushes run at once, beside threads that push and
write: an event that was pushed is in exactly one place. It is in the buffer or was evicted; or one
flush has drained it and holds it, or has settled it, by an accepted batch, by a batch that was
refused for good, or by handing it to the overflow writer. A flush that has ended holds nothing. -/
theorem flushes_settle (w : ι → OverflowWriter) (rounds : ι → ℕ) (store : Store)
    (tr : List (ι × FlushEvent)) (pool' : ι → Flush Unit) (t : Trail)
    (hrun : Shared (Elsewhere h) (fun _ => Takes h c)
      (fun i => doFlushWithin h L (w i) (rounds i)) (Trail.start store) tr pool' t) :
    ∃ held : ι → List PyVal,
      (t.pushed : Multiset PyVal) = t.store.buffer.buf + t.evicted +
        (tr.flatMap fun e => deliveredBy e.2) + (tr.flatMap fun e => refusedBy e.2) +
        (tr.flatMap fun e => spilledBy e.2) + ∑ i, (held i : Multiset PyVal) ∧
      (∀ i, (held i).length ≤ 100) ∧ ∀ i x, pool' i = ofExcept x → held i = [] := by
  refine settled_beside (fun t t' tr g ht hm => ?_) w rounds store tr pool' t hrun
  cases hm with
  | push event => exact push_balanced ht event
  | write day event => exact ht

end Books

theorem flushes_settle_twoDrains : ∃ held : Bool → List PyVal,
    ({.str "x"} : Multiset PyVal) = ∑ i, (held i : Multiset PyVal) := by
  obtain ⟨held, hbalanced, -⟩ := flushes_settle (fun _ => (emptyStore "a1").overflow) (fun _ => 1)
    (emptyStore "a1") twoDrains twoLeft drainedTwice twoFlushes_run
  have hpushed : drainedTwice.pushed = [.str "x"] := rfl
  have hbuffer : drainedTwice.store.buffer.buf = [] := rfl
  have hevicted : drainedTwice.evicted = [] := rfl
  rw [hpushed, hbuffer, hevicted] at hbalanced
  refine ⟨held, ?_⟩
  simpa [twoDrains, deliveredBy, refusedBy, spilledBy] using hbalanced

end Sigil.Audit
