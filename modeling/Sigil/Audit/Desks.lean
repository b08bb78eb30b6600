import Sigil.Audit.Concurrency

/-! # Several replays at once

Every flush that delivers a batch replays the overflow files, so several threads may read, send and
remove the same file while others append to it. An event is lost only when a thread removes a file
that is no longer as that thread has read it. Where this does not happen every event has a place in
every interleaving.
-/
set_option autoImplicit false

namespace Sigil.Audit

open Dialogue (Shared ofExcept)
open Trail (Expendable)
open Json (FloatTexts asJson)

/-- The audit trail, and what each thread last read from each file. -/
structure Desks (ι : Type) where
  trail : Trail
  readBy : ι → String → Option (List UInt8)

namespace Desks

variable {ι : Type} [DecidableEq ι]

/-- What the threads have read once `i` has had its answer. -/
def noted (s : Desks ι) (i : ι) : FlushQuestion → ι → String → Option (List UInt8)
  | .readFile path =>
    Function.update s.readBy i (Function.update (s.readBy i) path (s.trail.files path))
  | _ => s.readBy

theorem noted_of_ne (s : Desks ι) {i j : ι} (hj : j ≠ i) (q : FlushQuestion) :
    s.noted i q j = s.readBy j := by
  cases q with
  | readFile path => exact Function.update_of_ne hj _ _
  | _ => rfl

def start (store : Store) : Desks ι := ⟨.start store, fun _ _ => none⟩

def Moves (h : Host) (s s' : Desks ι) : Prop :=
  Elsewhere h s.trail s'.trail ∧ s'.readBy = s.readBy

/-- A thread removes a file only as it has read it. -/
def Answers (h : Host) (c : SigilClient) (i : ι) (s : Desks ι) (e : FlushEvent) (s' : Desks ι) :
    Prop :=
  Takes h c s.trail e s'.trail ∧ s'.readBy = s.noted i e.1 ∧
    ∀ path, e.1 = .unlink path → s.trail.files path = s.readBy i path

/-! ## The invariant -/

/-- What a thread has read of the file it is at, and what has been accepted of it. -/
def Backed (s : Desks ι) (i : ι) (g : Hand) : Prop :=
  ∀ path bytes accepted, g = .free (some (path, bytes, accepted)) →
    s.readBy i path = some bytes ∧ ∀ v ∈ accepted, v ∈ s.trail.accepted

structure Tidy (h : Host) (s : Desks ι) (g : ι → Hand) : Prop where
  sound : s.trail.Sound h
  backed : ∀ i, s.Backed i (g i)
  length : ∀ i, (g i).held.length ≤ 100
  arrived : ∀ e ∈ s.trail.pushed, (∃ i, e ∈ (g i).held) ∨ s.trail.Arrived h e

variable {h : Host} {L : Json.Limits} {c : SigilClient} {s s' : Desks ι} {g : ι → Hand}

omit [DecidableEq ι] in
theorem Moves.tidy (hm : Moves h s s') (hs : Tidy h s g) : Tidy h s' g := by
  obtain ⟨t, readBy⟩ := s
  obtain ⟨t', readBy'⟩ := s'
  obtain ⟨hmove, hread⟩ := hm
  simp only at hmove hread
  subst hread
  cases hmove with
  | push event =>
    refine ⟨?_, hs.backed, hs.length, fun e he => ?_⟩
    · exact ⟨hs.sound.terminated, hs.sound.lines, hs.sound.removed, hs.sound.batches⟩
    · rcases List.mem_append.mp he with he | he
      · exact (hs.arrived e he).imp_right (Trail.push_arrived event e)
      · exact Or.inr (.buffered (List.mem_append_right _ he))
  | write day event =>
    refine ⟨Trail.write_sound day event hs.sound, hs.backed, hs.length, fun e he => ?_⟩
    exact (hs.arrived e he).imp_right (Trail.write_arrived day event e)

/-! ### One step of one thread -/

section Step

variable {t t' : Trail} {γ γ' : Hand} {e : FlushEvent}

theorem takes_sound (hf : FloatTexts h) (hstep : Takes h c t e t') (hhand : Handles h γ e γ')
    (hs : t.Sound h) (hlength : γ.held.length ≤ 100)
    (hfile : ∀ path bytes accepted, γ = .free (some (path, bytes, accepted)) →
      e.1 = .unlink path → t.files path = some bytes ∧ ∀ v ∈ accepted, v ∈ t.accepted) :
    t'.Sound h := by
  obtain ⟨now, heq⟩ := hstep
  have hnext : t' = (Trail.answer h c now e.1 t).2 := (congrArg Prod.snd heq).symm
  cases hhand with
  | deliver events r hne =>
    have hpos : 0 < events.length := List.length_pos_iff.mpr hne
    rw [hnext]
    exact Trail.batch_sound .buffer events _ hs ⟨hpos, hlength⟩
  | replay path bytes accepted events r hfrom hsize =>
    rw [hnext]
    exact Trail.batch_sound (.file path) events _ hs hsize
  | spill event events =>
    rw [hnext]
    exact Trail.write_sound now.day event hs
  | unlink path bytes accepted htext hall =>
    obtain ⟨hsame, haccepted⟩ := hfile path bytes accepted rfl rfl
    rw [hnext]
    refine Trail.unlink_sound path hf hs fun b hb => ?_
    rw [hsame] at hb
    obtain rfl := Option.some.inj hb
    exact ⟨htext, fun v hv => haccepted v (hall v hv)⟩
  | _ =>
    rw [hnext]
    exact ⟨hs.terminated, hs.lines, hs.removed, hs.batches⟩

/-- No step takes anything back from what was accepted. -/
theorem takes_accepted (hstep : Takes h c t e t') (v : PyVal) (hv : v ∈ t.accepted) :
    v ∈ t'.accepted := by
  obtain ⟨now, heq⟩ := hstep
  have hnext : t' = (Trail.answer h c now e.1 t).2 := (congrArg Prod.snd heq).symm
  rw [hnext]
  obtain ⟨q, a⟩ := e
  cases q with
  | logBatch source events => exact List.mem_append_left _ hv
  | unlink path =>
    show v ∈ (t.unlink path).accepted
    rwa [Trail.unlink_accepted]
  | _ => exact hv

/-- An event that is nowhere else is in the hand of the thread. -/
theorem takes_arrived (hstep : Takes h c t e t') (hhand : Handles h γ e γ')
    (hlength : γ.held.length ≤ 100) (v : PyVal) (hv : v ∈ γ.held ∨ t.Arrived h v) :
    v ∈ γ'.held ∨ t'.Arrived h v := by
  obtain ⟨now, heq⟩ := hstep
  have hnext : t' = (Trail.answer h c now e.1 t).2 := (congrArg Prod.snd heq).symm
  cases hhand with
  | drain file events =>
    have hevents : events = t.store.buffer.buf.take 100 := (congrArg Prod.fst heq).symm
    have hk := hv.resolve_left List.not_mem_nil
    rw [hnext]
    cases hk with
    | buffered he =>
      rw [← List.take_append_drop 100 t.store.buffer.buf, ← hevents] at he
      exact (List.mem_append.mp he).imp_right .buffered
    | accepted he => exact Or.inr (.accepted he)
    | evicted he => exact Or.inr (.evicted he)
    | refused he => exact Or.inr (.refused he)
    | written he => exact Or.inr (.written he)
    | unwritten he => exact Or.inr (.unwritten he)
  | deliver events r hne =>
    have hr : r = c.logBatch events now.http := (congrArg Prod.fst heq).symm
    rw [hnext]
    rcases hv with hv | hv
    · rcases logBatch_cases c events now.http hlength with
        ⟨x, hanswer⟩ | ⟨m, code, hanswer⟩ | ⟨m, method, url, hanswer⟩
      · refine Or.inr (.accepted (Or.inl ?_))
        simp only [Trail.answer, Trail.batchAnswered, hanswer]
        exact List.mem_append_right _ hv
      · refine Or.inr (.refused ?_)
        simp only [Trail.answer, Trail.batchAnswered, hanswer]
        exact List.mem_append_right _ hv
      · rw [hr, hanswer]
        exact Or.inl hv
    · exact Or.inr (Trail.batch_arrived .buffer events _ v hv)
  | spill event events =>
    rw [hnext]
    rcases hv with hv | hv
    · rcases List.mem_cons.mp hv with rfl | hv
      · rcases Trail.write_cases h now.day v t with ⟨hwritten, -⟩ | ⟨hun, -⟩
        · exact Or.inr (.written hwritten)
        · exact Or.inr (.unwritten hun)
      · exact Or.inl hv
    · exact Or.inr (Trail.write_arrived now.day event v hv)
  | replay path bytes accepted events r hfrom hsize =>
    rw [hnext]
    exact Or.inr (Trail.batch_arrived (.file path) events _ v (hv.resolve_left List.not_mem_nil))
  | unlink path bytes accepted htext hall =>
    rw [hnext]
    refine Or.inr ?_
    show (t.unlink path).Arrived h v
    unfold Trail.unlink
    split
    · exact hv.resolve_left List.not_mem_nil
    · exact (hv.resolve_left List.not_mem_nil).mono id id id id id id
  | _ =>
    rw [hnext]
    exact Or.inr ((hv.resolve_left List.not_mem_nil).mono id id id id id id)

end Step

/-- What one thread reads and sends leaves what the others have read alone. -/
theorem Answers.backed {i : ι} {e : FlushEvent} {γ : Hand} (hstep : Answers h c i s e s')
    (hhand : Handles h (g i) e γ) (hs : ∀ j, s.Backed j (g j)) (j : ι) :
    s'.Backed j (Function.update g i γ j) := by
  obtain ⟨htakes, hread, -⟩ := hstep
  intro path bytes accepted hg
  by_cases hj : j = i
  · subst hj
    rw [Function.update_self] at hg
    subst hg
    generalize hγ : g j = γ at hhand
    generalize hγ' : Hand.free (some (path, bytes, accepted)) = γ' at hhand
    cases hhand with
    | read file path' bytes' =>
      obtain ⟨now, heq⟩ := htakes
      have hbytes : bytes' = s.trail.files path' := (congrArg Prod.fst heq).symm
      cases hfile : bytes' with
      | none =>
        rw [hfile] at hγ'
        cases hγ'
      | some b =>
        rw [hfile] at hγ'
        cases hγ'
        refine ⟨?_, fun v hv => absurd hv List.not_mem_nil⟩
        rw [hread, noted, Function.update_self, Function.update_self, ← hbytes, hfile]
    | replay path' bytes' accepted' events r hfrom hsize =>
      cases hγ'
      obtain ⟨hold, hall⟩ := hs j path bytes accepted' hγ
      refine ⟨by rw [hread]; exact hold, fun v hv => ?_⟩
      rcases List.mem_append.mp hv with hv | hv
      · exact takes_accepted htakes v (hall v hv)
      · obtain ⟨now, heq⟩ := htakes
        have hnext : s'.trail = (Trail.answer h c now (.logBatch (.file path) events) s.trail).2 :=
          (congrArg Prod.snd heq).symm
        have hr : r = c.logBatch events now.http := (congrArg Prod.fst heq).symm
        rw [hnext]
        rw [hr] at hv
        exact List.mem_append_right _ hv
    | deliver events r hne =>
      split at hγ' <;> cases hγ'
    | _ => cases hγ'
  · rw [Function.update_of_ne hj] at hg
    obtain ⟨hold, hall⟩ := hs j path bytes accepted hg
    refine ⟨?_, fun v hv => takes_accepted htakes v (hall v hv)⟩
    rw [hread, noted_of_ne s hj]
    exact hold

theorem Answers.tidy (hf : FloatTexts h) {i : ι} {e : FlushEvent} {γ : Hand}
    (hstep : Answers h c i s e s') (hhand : Handles h (g i) e γ) (hs : Tidy h s g) :
    Tidy h s' (Function.update g i γ) where
  sound := by
    refine takes_sound hf hstep.1 hhand hs.sound (hs.length i) fun path bytes accepted hg hq => ?_
    obtain ⟨hread, hall⟩ := hs.backed i path bytes accepted hg
    exact ⟨(hstep.2.2 path hq).trans hread, hall⟩
  backed := hstep.backed hhand hs.backed
  length := by
    intro j
    by_cases hj : j = i
    · rw [hj, Function.update_self]
      exact takes_length hstep.1 (hs.length i) hhand
    · rw [Function.update_of_ne hj]
      exact hs.length j
  arrived := by
    intro v hv
    rw [(takes_buffer hstep.1).1] at hv
    have hmine : v ∈ (g i).held ∨ s.trail.Arrived h v →
        (∃ j, v ∈ (Function.update g i γ j).held) ∨ s'.trail.Arrived h v := by
      intro hmine
      refine (takes_arrived hstep.1 hhand (hs.length i) v hmine).imp_left fun hheld => ⟨i, ?_⟩
      rwa [Function.update_self]
    rcases hs.arrived v hv with ⟨j, hj⟩ | ha
    · by_cases hij : j = i
      · exact hmine (Or.inl (hij ▸ hj))
      · exact Or.inl ⟨j, by rwa [Function.update_of_ne hij]⟩
    · exact hmine (Or.inr ha)

/-- **Every event has a place beside every other thread.** However many threads flush and replay at
once, beside others that push and write: while each of them removes a file only as it has read it,
an event that was pushed or written is in the hand of a flush that has not ended, or has been
accepted, or is in the buffer or on disk, or was evicted or refused, or its write was turned away; a
file is removed only once every event in it was in an accepted batch; and every batch has between 1
and 100 events. -/
theorem replays_accounted (hf : FloatTexts h) (store : Store)
    (hterm : ∀ path bytes, store.disk.files path = some bytes → Terminated bytes)
    (w : ι → OverflowWriter) (rounds : ι → ℕ) (tr : List (ι × FlushEvent))
    (pool' : ι → Flush Unit) (s : Desks ι)
    (hrun : Shared (Moves h) (Answers h c) (fun i => doFlushWithin h L (w i) (rounds i))
      (start store) tr pool' s) :
    (∃ held : ι → List PyVal, (∀ i x, pool' i = ofExcept x → held i = []) ∧
      ∀ e, e ∈ s.trail.pushed ∨ e ∈ s.trail.written →
        (∃ i, e ∈ held i) ∨ e ∈ s.trail.unwritten ∨ s.trail.Accounted h e) ∧
    (∀ r ∈ s.trail.removed, ∀ v ∈ eventsOf h r.1, v ∈ r.2) ∧
    s.trail.store.buffer.buf.length ≤ 1000 ∧
    ∀ batch ∈ s.trail.sent, 1 ≤ batch.2.length ∧ batch.2.length ≤ 100 := by
  have hstart : (Trail.start store).Kept h [] := Trail.start_kept store hterm
  have hguided := hrun.guided (handles_deterministic h) (J := fun s _ g => Tidy h s g)
    (P := fun _ _ g => g.held = []) (fun s s' _ g hs hm => hm.tidy hs)
    (fun i s e s' _ g γ hs hstep hhand => hstep.tidy hf hhand hs) [] (fun _ => .free none)
    (fun i => doFlush_guided (w i) (rounds i) none) ?_
  · obtain ⟨g, htidy, hends⟩ := hguided
    refine ⟨⟨fun i => (g i).held, fun i x hx => ?_, fun e he => ?_⟩, htidy.sound.removed,
      LogBuffer.bounded _, htidy.sound.batches⟩
    · have hend := hends i
      rw [hx] at hend
      exact hend.ended
    · have hwritten : e ∈ s.trail.written → s.trail.Accounted h e := fun he =>
        (htidy.sound.lines e he).elim .onDisk .accepted
      rcases he with he | he
      · rcases htidy.arrived e he with hheld | ha
        · exact Or.inl hheld
        · refine Or.inr ?_
          cases ha with
          | accepted he => exact Or.inr (.accepted he)
          | buffered he => exact Or.inr (.buffered he)
          | evicted he => exact Or.inr (.evicted he)
          | refused he => exact Or.inr (.refused he)
          | written he => exact Or.inr (hwritten he)
          | unwritten he => exact Or.inl he
      · exact Or.inr (Or.inr (hwritten he))
  · refine ⟨hstart.sound, fun _ _ _ _ hg => (by cases hg), fun _ => Nat.zero_le 100, ?_⟩
    exact fun e he => Or.inr (hstart.nil e he)

/-- Two flushes, one of which holds the event. -/
theorem replays_accounted_twoDrains : ∃ held : Bool → List PyVal,
    (∃ i, PyVal.str "x" ∈ held i) ∨ PyVal.str "x" ∈ drainedTwice.unwritten ∨
      drainedTwice.Accounted plainHost (.str "x") := by
  have hrun : Shared (Moves plainHost) (Answers plainHost plainClient) twoFlushes
      (start (emptyStore "a1")) twoDrains twoLeft ⟨drainedTwice, fun _ _ => none⟩ := by
    rw [← twoLeft_eq, twoDrains]
    refine .move _ _ _ ⟨(Trail.start (emptyStore "a1")).push (.str "x"), fun _ _ => none⟩ _ _
      ⟨.push _ (.str "x"), rfl⟩ ?_
    have hdrain : ∀ (i : Bool) (t : Trail), Answers plainHost plainClient i ⟨t, fun _ _ => none⟩
        ⟨.drain maxSendBatch, t.store.buffer.buf.take maxSendBatch⟩
        ⟨t.drain maxSendBatch, fun _ _ => none⟩ :=
      fun i t => ⟨⟨⟨acceptedAnswer, none, ""⟩, rfl⟩, rfl, fun _ hq => (by cases hq)⟩
    apply Shared.step
    · exact rfl
    · exact hdrain false _
    apply Shared.step
    · exact rfl
    · exact hdrain true _
    exact .refl _ _
  obtain ⟨⟨held, -, hplace⟩, -⟩ := replays_accounted plainHost_floats (emptyStore "a1")
    (fun _ _ hfile => (by cases hfile)) (fun _ => (emptyStore "a1").overflow) (fun _ => 1) twoDrains
    twoLeft _ hrun
  exact ⟨held, hplace (.str "x") (Or.inl (List.mem_singleton_self _))⟩

end Desks

end Sigil.Audit
