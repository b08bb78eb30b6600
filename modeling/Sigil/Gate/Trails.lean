import Sigil.Audit.Concurrency
import Sigil.Gate.CallTree
import Sigil.Library.Beside

/-! # The trails of all threads

Any number of threads run instrumented code, with calls within calls, and share the buffer and the
overflow writer of their client with any number of flushes. `trails_settled` follows each event from
the call that it is about to the place where it ends.
-/
set_option autoImplicit false

namespace Sigil.Gate

open Audit (Trail FlushEvent Flush Takes doFlushWithin push_balanced settled_beside takes_buffer
  deliveredBy refusedBy spilledBy)
open Dialogue (Beside Follows Plays heardBy ofExcept)

variable {h : Host} {L : Json.Limits} {c : SigilClient} {V X ι κ : Type}

/-! ## What code does to the trail -/

/-- The trail before and after one event of a thread's code. -/
inductive Enters (h : Host) : Trail → CallEvent V X → Trail → Prop where
  | push (t : Trail) (event : PyVal) : Enters h t ⟨.push event, ()⟩ (t.push event)
  | write (t : Trail) (day : String) (event : PyVal) :
      Enters h t ⟨.overflowWrite event, ()⟩ (t.write h day event)
  | other (t : Trail) (e : CallEvent V X) (he : auditOf e = none) : Enters h t e t

/-- The events that were recorded in a place, in the order of the interleaving. -/
def recordedIn (sink : Sink) (tr : List (κ × CallEvent V X)) : List PyVal :=
  (tr.filterMap fun e => auditOf e.2).filterMap fun a => if a.1 = sink then some a.2 else none

theorem recordedIn_append (sink : Sink) (tr tr' : List (κ × CallEvent V X)) :
    recordedIn sink (tr ++ tr') = recordedIn sink tr ++ recordedIn sink tr' := by
  simp [recordedIn]

/-- Every conversation is possible in some trail. -/
theorem follows_enters (tr : List (CallEvent V X)) (t : Trail) :
    ∃ t', Follows (Enters h) t tr t' := by
  induction tr generalizing t with
  | nil => exact ⟨t, .nil t⟩
  | cons e tr ih =>
    have hone : ∃ t₁, Enters h t e t₁ := by
      obtain ⟨q, a⟩ := e
      cases q with
      | push event => exact ⟨_, .push t event⟩
      | overflowWrite event => exact ⟨_, .write t "" event⟩
      | _ => exact ⟨t, .other t _ rfl⟩
    obtain ⟨t₁, he⟩ := hone
    obtain ⟨t', hrest⟩ := ih t₁
    exact ⟨t', .cons t t₁ t' e tr he hrest⟩

/-! ## The books -/

/-- What was recorded in either place, and what the flushes have handed on, went into the trail. -/
structure Entered (store : Audit.Store) (t : Trail) (flushed : List (ι × FlushEvent))
    (tr : List (κ × CallEvent V X)) : Prop where
  pushed : t.pushed = store.buffer.buf ++ recordedIn .buffer tr
  written : (t.written : Multiset PyVal) + t.unwritten =
    recordedIn .overflow tr + (flushed.flatMap fun e => spilledBy e.2)

variable {store : Audit.Store} {t t' : Trail} {flushed : List (ι × FlushEvent)}
  {tr : List (κ × CallEvent V X)}

/-- A write counts for one event, whether its line was written or not. -/
theorem write_counts (day : String) (event : PyVal) :
    ((t.write h day event).written : Multiset PyVal) + (t.write h day event).unwritten =
      t.written + t.unwritten + [event] := by
  by_cases hready : (t.store.onDay day).Ready
  · simp only [Trail.write, if_pos hready, List.append_nil, ← Multiset.coe_add]
    abel
  · simp only [Trail.write, if_neg hready, List.append_nil, ← Multiset.coe_add]
    abel

theorem Entered.enters (ht : Entered store t flushed tr) (k : κ) {e : CallEvent V X}
    (he : Enters h t e t') : Entered store t' flushed (tr ++ [(k, e)]) := by
  obtain ⟨hpushed, hwritten⟩ := ht
  cases he with
  | push event =>
    refine ⟨?_, ?_⟩
    · rw [recordedIn_append, ← List.append_assoc, ← hpushed]
      rfl
    · rw [recordedIn_append, ← Multiset.coe_add]
      simpa [Trail.push, recordedIn, auditOf] using hwritten
  | write day event =>
    refine ⟨?_, ?_⟩
    · rw [recordedIn_append]
      simpa [Trail.write, recordedIn, auditOf] using hpushed
    · have hone : recordedIn .overflow [(k, (⟨.overflowWrite event, ()⟩ : CallEvent V X))] = [event] :=
        rfl
      rw [write_counts, hwritten, recordedIn_append, hone, ← Multiset.coe_add]
      abel
  | other _ hnone =>
    have hnil : ∀ sink, recordedIn sink [(k, e)] = [] := by simp [recordedIn, hnone]
    refine ⟨?_, ?_⟩
    · rw [recordedIn_append, hnil, List.append_nil, hpushed]
    · rw [recordedIn_append, hnil, List.append_nil, hwritten]

theorem Entered.takes (ht : Entered store t flushed tr) (i : ι) {e : FlushEvent}
    (he : Takes h c t e t') : Entered store t' (flushed ++ [(i, e)]) tr := by
  refine ⟨(takes_buffer he).1.trans ht.pushed, ?_⟩
  have hsame (hw : t'.written = t.written) (hu : t'.unwritten = t.unwritten)
      (hspilled : spilledBy e = []) : (t'.written : Multiset PyVal) + t'.unwritten =
        recordedIn .overflow tr + ((flushed ++ [(i, e)]).flatMap fun e => spilledBy e.2) := by
    rw [hw, hu, ht.written, List.flatMap_append, List.flatMap_singleton, hspilled, List.append_nil]
  obtain ⟨now, heq⟩ := he
  obtain ⟨q, a⟩ := e
  have hnext : t' = (Trail.answer h c now q t).2 := (congrArg Prod.snd heq).symm
  cases q with
  | overflowWrite event =>
    have hone : spilledBy ⟨.overflowWrite event, a⟩ = [event] := rfl
    have hwrite : t' = t.write h now.day event := hnext
    rw [hwrite, write_counts, ht.written, List.flatMap_append, List.flatMap_singleton, hone,
      ← Multiset.coe_add]
    abel
  | unlink path =>
    have hunlink : t' = t.unlink path := hnext
    have hbooks : (t.unlink path).written = t.written ∧ (t.unlink path).unwritten = t.unwritten := by
      unfold Trail.unlink
      split <;> exact ⟨rfl, rfl⟩
    rw [hunlink] at hsame ⊢
    exact hsame hbooks.1 hbooks.2 rfl
  | _ =>
    rw [hnext] at hsame ⊢
    exact hsame rfl rfl rfl

/-! ## From the call to the end -/

section Threads

variable [DecidableEq ι] [Fintype ι] [DecidableEq κ]

/-- **Every call leaves its trail, and every event of it is settled once.** However threads that run
instrumented code and flushes of their client take turns: code that has come to its end has left the
trail of its calls; what all threads have pushed is in exactly one place, the buffer, the hand of a
flush that has not ended, evicted, in an accepted batch, refused for good or handed to the overflow
writer; and what was handed to the overflow writer, by a flush or a call, was written or turned away
once. -/
theorem trails_settled (programs : κ → Program V X) (w : ι → Audit.OverflowWriter) (rounds : ι → ℕ)
    (store : Audit.Store) (flushed : List (ι × FlushEvent)) (tr : List (κ × CallEvent V X))
    (flushes' : ι → Flush Unit) (codes' : κ → Performance V X (Except X V)) (t : Trail)
    (hrun : Beside (fun _ => Takes h c) (fun _ => Enters h)
      (fun i => doFlushWithin h L (w i) (rounds i)) (fun k => perform h (programs k))
      (Trail.start store) flushed tr flushes' codes' t) :
    (∀ k result, codes' k = .done result →
      Trailed h (programs k) (audits (heardBy k tr)) result) ∧
    (∃ held : ι → List PyVal,
      ((store.buffer.buf ++ recordedIn .buffer tr : List PyVal) : Multiset PyVal) =
        t.store.buffer.buf + t.evicted + (flushed.flatMap fun e => deliveredBy e.2) +
        (flushed.flatMap fun e => refusedBy e.2) + (flushed.flatMap fun e => spilledBy e.2) +
        ∑ i, (held i : Multiset PyVal) ∧
      (∀ i, (held i).length ≤ 100) ∧ ∀ i x, flushes' i = ofExcept x → held i = []) ∧
    (t.written : Multiset PyVal) + t.unwritten =
      recordedIn .overflow tr + (flushed.flatMap fun e => spilledBy e.2) := by
  have hentered : Entered store t ([] ++ flushed) ([] ++ tr) :=
    hrun.invariant (I := Entered store) (fun i t e t' flushed tr ht he => ht.takes i he)
      (fun k t e t' flushed tr ht he => ht.enters k he) [] [] ⟨by simp [recordedIn, Trail.start],
        by simp [recordedIn, Trail.start]⟩
  rw [List.nil_append, List.nil_append] at hentered
  obtain ⟨hpushed, hwritten⟩ := hentered
  refine ⟨?_, ?_, hwritten⟩
  · intro k result hk
    exact performed_trailed h (programs k) _ result (hrun.right_shared.steps.returned k result hk)
  · rw [← hpushed]
    refine settled_beside (fun t t' flushed g ht hm => ?_) w rounds store flushed flushes' t
      hrun.left_shared
    obtain ⟨k, e, he⟩ := hm
    cases he with
    | push event => exact push_balanced ht event
    | write day event => exact ht
    | other _ _ => exact ht

end Threads

def lowCall : Site :=
  ⟨.instrumentedTool, .sync, some (sampleClient, sampleTask), ⟨"a", "b", .low⟩, noArgs, 1⟩

/-- A call within a call. -/
def twoCalls : Program ℕ String :=
  .calls lowCall (.calls lowCall (.ends (.ok 7)) fun _ => .ends (.ok 8)) fun r =>
    .ends (r.mapError fun _ => "raised")

def twoCallsEvents : List (CallEvent ℕ String) :=
  (Dialogue.run sampleScript.env (perform Verify.sampleHost twoCalls) .start).events

theorem twoCalls_plays :
    Plays (perform Verify.sampleHost twoCalls) twoCallsEvents (.returned (.ok 8)) := by
  have hreturned : (Dialogue.run sampleScript.env (perform Verify.sampleHost twoCalls) .start).result =
      .returned (.ok 8) := by decide +kernel
  rw [← hreturned]
  exact Dialogue.plays_run sampleScript.env (perform Verify.sampleHost twoCalls) .start

/-- A flush takes the event of an earlier call from the buffer, and the server accepts it. -/
def busyEvents : List (Bool × FlushEvent) :=
  [(true, ⟨.drain 100, [.str "x"]⟩),
    (true, ⟨.logBatch .buffer [.str "x"],
      Audit.plainClient.logBatch [.str "x"] Audit.acceptedAnswer⟩)]

/-- The trail when the batch has been accepted. -/
def busyTrail : Trail :=
  ((Trail.start Audit.oneEvent).drain 100).batchAnswered .buffer [.str "x"]
    (Audit.plainClient.logBatch [.str "x"] Audit.acceptedAnswer)

/-- One of two threads with the same code runs between the batch and the replay after it. -/
theorem busy_beside (t : Trail)
    (hfollows : Follows (Enters Verify.sampleHost) busyTrail twoCallsEvents t) :
    ∃ flushes', Beside (fun _ : Bool => Takes Verify.sampleHost Audit.plainClient)
      (fun _ : Bool => Enters Verify.sampleHost)
      (fun _ => doFlushWithin Verify.sampleHost Audit.plainLimits Audit.oneEvent.overflow 1)
      (fun _ => perform Verify.sampleHost twoCalls) (Trail.start Audit.oneEvent) busyEvents
      (twoCallsEvents.map fun e => (true, e)) flushes'
      (Function.update (fun _ => perform Verify.sampleHost twoCalls) true (.done (.ok 8))) t := by
  rw [busyEvents]
  apply Exists.intro
  apply Beside.left
  · exact rfl
  · exact ⟨⟨Audit.acceptedAnswer, none, ""⟩, rfl⟩
  apply Beside.left
  · exact rfl
  · exact ⟨⟨Audit.acceptedAnswer, none, ""⟩, rfl⟩
  exact twoCalls_plays.beside true rfl hfollows

theorem trails_settled_twoCalls : ∃ (t : Trail) (held : Bool → List PyVal),
    Trailed Verify.sampleHost twoCalls (audits twoCallsEvents) (.ok 8) ∧
      ((.str "x" :: recordedIn .buffer (twoCallsEvents.map fun e => (true, e)) : List PyVal) :
        Multiset PyVal) = t.store.buffer.buf + t.evicted + [PyVal.str "x"] +
          ∑ i, (held i : Multiset PyVal) := by
  obtain ⟨t, hfollows⟩ : ∃ t, Follows (Enters Verify.sampleHost) busyTrail twoCallsEvents t :=
    follows_enters _ _
  obtain ⟨flushes', hrun⟩ := busy_beside t hfollows
  obtain ⟨htrailed, ⟨held, hsettled, -⟩, -⟩ := trails_settled (fun _ => twoCalls)
    (fun _ => Audit.oneEvent.overflow) (fun _ => 1) Audit.oneEvent _ _ _ _ t hrun
  refine ⟨t, held, ?_, ?_⟩
  · have hmine := htrailed true (.ok 8) (Function.update_self _ _ _)
    rwa [Dialogue.heardBy_map_self] at hmine
  · have hdelivered : (busyEvents.flatMap fun e => deliveredBy e.2) = [.str "x"] := rfl
    have hrefused : (busyEvents.flatMap fun e => refusedBy e.2) = [] := rfl
    have hspilled : (busyEvents.flatMap fun e => spilledBy e.2) = [] := rfl
    have hbuffered : Audit.oneEvent.buffer.buf = [.str "x"] := rfl
    rw [hdelivered, hrefused, hspilled, hbuffered, List.singleton_append, Multiset.coe_nil, add_zero,
      add_zero] at hsettled
    exact hsettled

end Sigil.Gate
