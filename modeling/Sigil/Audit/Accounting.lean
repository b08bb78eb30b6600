import Sigil.Audit.Flusher

/-! # Where every event goes

The invariant of the audit trail, and what each step does to it. A batch that was drained and has
not been settled is in flight.
-/
set_option autoImplicit false

namespace Sigil.Audit

open Dialogue (Triple Stable triple_done triple_fail triple_spent triple_query_bind triple_ask)
open Json (FloatTexts asJson)

namespace Trail

section Places

variable (h : Host) (t : Trail)

/-- Some overflow file has the event on a line. -/
def OnDisk (e : PyVal) : Prop :=
  ∃ day bytes, t.files (t.store.overflow.currentPath day) = some bytes ∧ HoldsLine h bytes e

/-- An accepted batch had the event, as it is or as read back from a file. -/
def Accepted (e : PyVal) : Prop := e ∈ t.accepted ∨ asJson h e ∈ t.accepted

/-- The places an event that was pushed or written can be in. -/
inductive Accounted (e : PyVal) : Prop where
  | accepted (he : t.Accepted h e)
  | buffered (he : e ∈ t.store.buffer.buf)
  | onDisk (he : t.OnDisk h e)
  | evicted (he : e ∈ t.evicted)
  | refused (he : e ∈ t.refused)

/-- The files, and what they have held. -/
structure Sound : Prop where
  terminated : ∀ path bytes, t.files path = some bytes → Terminated bytes
  lines : ∀ e ∈ t.written, t.OnDisk h e ∨ t.Accepted h e
  removed : ∀ r ∈ t.removed, ∀ v ∈ eventsOf h r.1, v ∈ r.2
  batches : ∀ batch ∈ t.sent, 1 ≤ batch.2.length ∧ batch.2.length ≤ 100

/-- Where a pushed event went. -/
inductive Arrived (e : PyVal) : Prop where
  | accepted (he : t.Accepted h e)
  | buffered (he : e ∈ t.store.buffer.buf)
  | evicted (he : e ∈ t.evicted)
  | refused (he : e ∈ t.refused)
  | written (he : e ∈ t.written)
  | unwritten (he : e ∈ t.unwritten)

/-- Every pushed event has arrived, but for those of a drained batch that is still in flight. -/
structure Kept (flight : List PyVal) : Prop where
  sound : t.Sound h
  arrived : ∀ e ∈ t.pushed, e ∈ flight ∨ t.Arrived h e

end Places

variable {h : Host} {t : Trail} {flight : List PyVal}

/-! ## Steps -/

theorem Accepted.more {t' : Trail} {e : PyVal} (ha : t.Accepted h e)
    (hmore : ∀ v ∈ t.accepted, v ∈ t'.accepted) : t'.Accepted h e :=
  ha.imp (hmore e) (hmore _)

theorem Arrived.mono {t' : Trail} {e : PyVal} (ha : t.Arrived h e)
    (haccepted : t.Accepted h e → t'.Accepted h e)
    (hbuffered : e ∈ t.store.buffer.buf → e ∈ t'.store.buffer.buf)
    (hevicted : e ∈ t.evicted → e ∈ t'.evicted) (hrefused : e ∈ t.refused → e ∈ t'.refused)
    (hwritten : e ∈ t.written → e ∈ t'.written)
    (hunwritten : e ∈ t.unwritten → e ∈ t'.unwritten) : t'.Arrived h e := by
  cases ha with
  | accepted he => exact .accepted (haccepted he)
  | buffered he => exact .buffered (hbuffered he)
  | evicted he => exact .evicted (hevicted he)
  | refused he => exact .refused (hrefused he)
  | written he => exact .written (hwritten he)
  | unwritten he => exact .unwritten (hunwritten he)

theorem start_kept (store : Store)
    (hterm : ∀ path bytes, store.disk.files path = some bytes → Terminated bytes) :
    (start store).Kept h [] where
  sound := ⟨hterm, by simp [start], by simp [start], by simp [start]⟩
  arrived := fun _ he => Or.inr (.buffered he)

theorem Kept.nil (hk : t.Kept h []) (e : PyVal) (he : e ∈ t.pushed) : t.Arrived h e :=
  (hk.arrived e he).resolve_left List.not_mem_nil

theorem Kept.more (hk : t.Kept h []) : t.Kept h flight :=
  ⟨hk.sound, fun e he => Or.inr (hk.nil e he)⟩

theorem push_arrived (event e : PyVal) (ha : t.Arrived h e) : (t.push event).Arrived h e := by
  cases ha with
  | accepted he => exact .accepted he
  | buffered he =>
    by_cases hfull : t.store.buffer.buf.length < ringCap
    · refine .buffered ?_
      simp only [push, Store.push, LogBuffer.push, if_pos hfull]
      exact List.mem_append_left _ he
    · -- the oldest event goes
      cases hbuf : t.store.buffer.buf with
      | nil => simp [hbuf] at he
      | cons x xs =>
        rw [hbuf] at he hfull
        rcases List.mem_cons.mp he with rfl | he
        · refine .evicted ?_
          simp only [push, hbuf, if_neg hfull]
          exact List.mem_append_right _ (by simp)
        · refine .buffered ?_
          simp only [push, Store.push, LogBuffer.push, hbuf, if_neg hfull]
          exact List.mem_append_left _ he
  | evicted he => exact .evicted (List.mem_append_left _ he)
  | refused he => exact .refused he
  | written he => exact .written he
  | unwritten he => exact .unwritten he

theorem push_kept (event : PyVal) (hk : t.Kept h []) : (t.push event).Kept h [] where
  sound := ⟨hk.sound.terminated, hk.sound.lines, hk.sound.removed, hk.sound.batches⟩
  arrived := by
    intro e he
    rcases List.mem_append.mp he with he | he
    · exact Or.inr (push_arrived event e (hk.nil e he))
    · exact Or.inr (.buffered (List.mem_append_right _ he))

theorem drain_kept (n : ℕ) (hk : t.Kept h []) :
    (t.drain n).Kept h (t.store.buffer.drain n).1 where
  sound := ⟨hk.sound.terminated, hk.sound.lines, hk.sound.removed, hk.sound.batches⟩
  arrived := by
    intro e he
    cases hk.nil e he with
    | accepted he => exact Or.inr (.accepted he)
    | buffered he =>
      rw [← List.take_append_drop n t.store.buffer.buf] at he
      exact (List.mem_append.mp he).imp_right .buffered
    | evicted he => exact Or.inr (.evicted he)
    | refused he => exact Or.inr (.refused he)
    | written he => exact Or.inr (.written he)
    | unwritten he => exact Or.inr (.unwritten he)

section Batch

variable (source : Source) (events : List PyVal) (r : Except (Exc Empty) PyVal)

theorem batch_accepted (v : PyVal) (hv : v ∈ t.accepted) :
    v ∈ (t.batchAnswered source events r).accepted := List.mem_append_left _ hv

theorem batch_sound (hs : t.Sound h) (hsize : 1 ≤ events.length ∧ events.length ≤ 100) :
    (t.batchAnswered source events r).Sound h where
  terminated := hs.terminated
  lines := fun e he =>
    (hs.lines e he).imp_right fun ha => ha.more (batch_accepted source events r)
  removed := hs.removed
  batches := by
    intro batch hb
    rcases List.mem_append.mp hb with hb | hb
    · exact hs.batches batch hb
    · rw [List.mem_singleton.mp hb]
      exact hsize

theorem batch_arrived (e : PyVal) (ha : t.Arrived h e) :
    (t.batchAnswered source events r).Arrived h e :=
  ha.mono (fun he => he.more (batch_accepted source events r)) id id (List.mem_append_left _) id id

theorem batch_kept (hk : t.Kept h flight) (hsize : 1 ≤ events.length ∧ events.length ≤ 100) :
    (t.batchAnswered source events r).Kept h flight where
  sound := batch_sound source events r hk.sound hsize
  arrived := fun e he => (hk.arrived e he).imp_right (batch_arrived source events r e)

/-- After a transport error a drained batch is still in flight; any other answer settles it. -/
theorem live_batch_kept (hk : t.Kept h events) (hsize : 1 ≤ events.length ∧ events.length ≤ 100)
    (hr : (∃ v, r = .ok v) ∨ ∃ m code, r = .error (.api m code)) :
    (t.batchAnswered .buffer events r).Kept h [] where
  sound := batch_sound .buffer events r hk.sound hsize
  arrived := by
    intro e he
    refine Or.inr ?_
    rcases hk.arrived e he with hf | ha
    · rcases hr with ⟨v, rfl⟩ | ⟨m, code, rfl⟩
      · exact .accepted (Or.inl (List.mem_append_right _ hf))
      · exact .refused (List.mem_append_right _ hf)
    · exact batch_arrived .buffer events r e ha

end Batch

section Write

variable (h) (day : String) (event : PyVal)

theorem write_currentPath (t : Trail) (day' : String) :
    (t.write h day event).store.overflow.currentPath day' = t.store.overflow.currentPath day' :=
  Store.overflowWrite_currentPath h (t.store.onDay day) event day'

/-- A write adds a line to the day's file, or no file changes and the event is not written. -/
theorem write_cases (t : Trail) :
    (event ∈ (t.write h day event).written ∧ (t.write h day event).files =
      Function.update t.files (t.store.overflow.currentPath day)
        (some ((t.files (t.store.overflow.currentPath day)).getD [] ++
          OverflowWriter.line h event))) ∨
    (event ∈ (t.write h day event).unwritten ∧ (t.write h day event).written = t.written ∧
      (t.write h day event).files = t.files) := by
  by_cases hready : (t.store.onDay day).Ready
  · refine Or.inl ⟨?_, ?_⟩
    · simp [write, hready]
    · have hwrite := OverflowWriter.write_of_ready h t.store.overflow t.store.disk day event hready
      funext path
      simp only [files, write, Store.overflowWrite, Store.onDay, hwrite]
      rfl
  · refine Or.inr ⟨?_, ?_, ?_⟩
    · simp [write, hready]
    · simp [write, hready]
    · funext path
      exact congrFun (Store.overflowWrite_files_of_not_ready h _ event hready) path

variable {h}

theorem write_terminated (ht : ∀ path bytes, t.files path = some bytes → Terminated bytes)
    (path : String) (bytes : List UInt8) (hb : (t.write h day event).files path = some bytes) :
    Terminated bytes := by
  rcases write_cases h day event t with ⟨-, hfiles⟩ | ⟨-, -, hfiles⟩
  · rw [hfiles] at hb
    by_cases hpath : path = t.store.overflow.currentPath day
    · rw [hpath, Function.update_self] at hb
      rw [← Option.some.inj hb]
      exact terminated_line h _ event
    · rw [Function.update_of_ne hpath] at hb
      exact ht path bytes hb
  · rw [hfiles] at hb
    exact ht path bytes hb

theorem write_onDisk (e : PyVal) (hd : t.OnDisk h e) : (t.write h day event).OnDisk h e := by
  obtain ⟨day', bytes, hfile, hline⟩ := hd
  rcases write_cases h day event t with ⟨-, hfiles⟩ | ⟨-, -, hfiles⟩
  · by_cases hpath : t.store.overflow.currentPath day' = t.store.overflow.currentPath day
    · refine ⟨day', bytes ++ OverflowWriter.line h event, ?_, holdsLine_append h _ _ e hline⟩
      rw [write_currentPath, hfiles, hpath, Function.update_self, ← hpath, hfile]
      rfl
    · refine ⟨day', bytes, ?_, hline⟩
      rw [write_currentPath, hfiles, Function.update_of_ne hpath, hfile]
  · exact ⟨day', bytes, by rw [write_currentPath, hfiles, hfile], hline⟩

/-- What was written is on disk. -/
theorem written_onDisk (ht : ∀ path bytes, t.files path = some bytes → Terminated bytes)
    (hfiles : (t.write h day event).files =
      Function.update t.files (t.store.overflow.currentPath day)
        (some ((t.files (t.store.overflow.currentPath day)).getD [] ++ OverflowWriter.line h event))) :
    (t.write h day event).OnDisk h event := by
  refine ⟨day, _, by rw [write_currentPath, hfiles, Function.update_self], holdsLine_line h _ event ?_⟩
  cases hfile : t.files (t.store.overflow.currentPath day) with
  | none => exact Or.inl rfl
  | some bytes => exact ht _ bytes hfile

theorem write_sound (hs : t.Sound h) : (t.write h day event).Sound h where
  terminated := write_terminated day event hs.terminated
  lines := by
    have hold : ∀ e ∈ t.written, (t.write h day event).OnDisk h e ∨
        (t.write h day event).Accepted h e :=
      fun e he => (hs.lines e he).imp (write_onDisk day event e) fun ha => ha
    rcases write_cases h day event t with ⟨-, hfiles⟩ | ⟨-, hwritten, -⟩
    · intro e he
      rcases List.mem_append.mp he with he | he
      · exact hold e he
      · have hevent : e = event := by
          split at he
          · exact List.mem_singleton.mp he
          · cases he
        rw [hevent]
        exact Or.inl (written_onDisk day event hs.terminated hfiles)
    · rw [hwritten]
      exact hold
  removed := hs.removed
  batches := hs.batches

theorem write_arrived (e : PyVal) (ha : t.Arrived h e) : (t.write h day event).Arrived h e :=
  ha.mono id id id id (List.mem_append_left _) (List.mem_append_left _)

theorem write_kept (hk : t.Kept h flight) : (t.write h day event).Kept h flight where
  sound := write_sound day event hk.sound
  arrived := fun e he => (hk.arrived e he).imp_right (write_arrived day event e)

/-- Written or not, the event is in flight no longer. -/
theorem write_settles (hk : t.Kept h (event :: flight)) : (t.write h day event).Kept h flight where
  sound := write_sound day event hk.sound
  arrived := by
    intro e he
    rcases hk.arrived e he with hf | ha
    · rcases List.mem_cons.mp hf with rfl | hf
      · rcases write_cases h day e t with ⟨hwritten, -⟩ | ⟨hun, -⟩
        · exact Or.inr (.written hwritten)
        · exact Or.inr (.unwritten hun)
      · exact Or.inl hf
    · exact Or.inr (write_arrived day event e ha)

end Write

theorem read_kept (path : String) (hk : t.Kept h flight) : (t.read path).Kept h flight where
  sound := ⟨hk.sound.terminated, hk.sound.lines, hk.sound.removed, hk.sound.batches⟩
  arrived := by
    intro e he
    exact (hk.arrived e he).imp_right fun ha => ha.mono id id id id id id

section Unlink

variable (path : String)

theorem unlink_files (t : Trail) : (t.unlink path).files = Function.update t.files path none := by
  unfold unlink
  split
  · next hfile =>
    rw [← hfile, Function.update_eq_self]
  · rfl

theorem unlink_written (t : Trail) : (t.unlink path).written = t.written := by
  unfold unlink
  split <;> rfl

theorem unlink_accepted (t : Trail) : (t.unlink path).accepted = t.accepted := by
  unfold unlink
  split <;> rfl

/-- A file may go once every event in it has been accepted. -/
def Expendable (h : Host) (t : Trail) (path : String) : Prop :=
  ∀ bytes, t.files path = some bytes →
    (∃ text, decodeUtf8 bytes = some text) ∧ ∀ v ∈ eventsOf h bytes, v ∈ t.accepted

theorem unlink_sound (hf : FloatTexts h) (hs : t.Sound h) (hgo : Expendable h t path) :
    (t.unlink path).Sound h := by
  unfold unlink
  split
  · exact hs
  · next bytes hfile =>
    obtain ⟨⟨text, htext⟩, hall⟩ := hgo bytes hfile
    refine ⟨fun p b hb => ?_, fun e he => ?_, fun r hr => ?_, hs.batches⟩
    · by_cases hp : p = path
      · simp only [files, hp, Function.update_self] at hb
        cases hb
      · simp only [files, Function.update_of_ne hp] at hb
        exact hs.terminated p b hb
    · rcases hs.lines e he with ⟨day, b, hb, hline⟩ | ha
      · by_cases hp : t.store.overflow.currentPath day = path
        · -- its line was in the file, so it was read and accepted
          rw [hp, hfile] at hb
          rw [← Option.some.inj hb] at hline
          exact Or.inr (Or.inr (hall _ (mem_eventsOf h hf bytes e text htext hline)))
        · refine Or.inl ⟨day, b, ?_, hline⟩
          simpa only [files, Function.update_of_ne hp] using hb
      · exact Or.inr ha
    · rcases List.mem_append.mp hr with hr | hr
      · exact hs.removed r hr
      · rw [List.mem_singleton.mp hr]
        exact hall

theorem unlink_kept (hf : FloatTexts h) (hk : t.Kept h flight) (hgo : Expendable h t path) :
    (t.unlink path).Kept h flight where
  sound := unlink_sound path hf hk.sound hgo
  arrived := by
    intro e he
    unfold unlink at he ⊢
    split at he
    · next hfile => simpa only [hfile] using hk.arrived e he
    · exact (hk.arrived e he).imp_right fun ha => ha.mono id id id id id id

end Unlink

end Trail

end Sigil.Audit
