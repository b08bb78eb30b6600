import Sigil.Audit.Replay

/-! # Replay on one thread

Run alone, replay comes to an end. It raises exactly at the first file that is not text or has a
line on which `json.loads` raises something of its own, and until then every file it finds is sent.
-/
set_option autoImplicit false

namespace Sigil.Audit

open Dialogue (Stable Result Only Total Runs run total_query_bind only_query_bind only_done only_fail)
open Json (Limits)

/-- A batch that is not too long is accepted, or answered by one of the two errors. -/
theorem logBatch_cases (c : SigilClient) (events : List PyVal) (answer : HttpAnswer)
    (hsize : events.length ≤ 100) :
    (∃ v, (c.logBatch events answer : Except (Exc Empty) PyVal) = .ok v) ∨
    (∃ m code, (c.logBatch events answer : Except (Exc Empty) PyVal) = .error (.api m code)) ∨
    ∃ m method url, (c.logBatch events answer : Except (Exc Empty) PyVal) =
      .error (.transport m method url) := by
  have hmax : ¬ SigilClient.maxBatchSize < events.length := Nat.not_lt.mpr hsize
  rw [SigilClient.logBatch, if_neg hmax]
  unfold SigilClient.receive
  split
  · exact Or.inr (Or.inr ⟨_, _, _, rfl⟩)
  · split
    · exact Or.inr (Or.inl ⟨_, _, rfl⟩)
    · split
      · exact Or.inl ⟨_, rfl⟩
      · exact Or.inr (Or.inl ⟨_, _, rfl⟩)

namespace Trail

variable {h : Host} {L : Limits} {c : SigilClient}

/-- The run on one thread is one of the runs of the world. -/
theorem env_runs {α : Type} (p : Flush α) (s : Trail × Future) :
    Runs (Moves h False) (Answers h c False) p s.1 (run (env h c) p s).result
      (run (env h c) p s).final.1 :=
  Runs.of_run (env h c) Prod.fst p s fun _ _ => ⟨⟨_, rfl⟩, False.elim⟩

/-! ## It comes to an end -/

theorem sendBatches_total (path : String) (batches : List (List PyVal)) :
    Total (sendBatches path batches) := by
  induction batches with
  | nil => exact trivial
  | cons batch batches ih =>
    refine total_query_bind fun r => ?_
    cases r with
    | ok v => exact ih
    | error e =>
      simp only
      split <;> exact trivial

theorem replayFile_total (h : Host) (L : Limits) (path : String) :
    Total (replayFileWithin h L path) := by
  refine total_query_bind fun r => ?_
  cases r with
  | none => exact trivial
  | some bytes =>
    rcases replayRead_cases h L path bytes with ⟨e, -, hfail⟩ | ⟨-, text, -, hread⟩
    · rw [hfail]
      exact trivial
    · rw [hread]
      simp only [replayText]
      split
      · exact fun _ => trivial
      · refine (sendBatches_total path _).bind fun allOk => ?_
        split
        · exact fun _ => trivial
        · exact trivial

theorem replayFiles_total (h : Host) (L : Limits) (paths : List String) :
    Total (replayFilesWithin h L paths) := by
  induction paths with
  | nil => exact trivial
  | cons path paths ih => exact (replayFile_total h L path).bind fun _ => ih

theorem replay_total (h : Host) (L : Limits) (w : OverflowWriter) :
    Total (replayWithin h L w) := by
  unfold replayWithin
  split
  · exact trivial
  · refine total_query_bind fun r => ?_
    cases r with
    | none => exact trivial
    | some listing => exact replayFiles_total h L _

/-! ## What it leaves alone -/

/-- What is asked about a file: nothing is taken from the buffer. -/
def isFileQuestion : FlushQuestion → Bool
  | .logBatch (.file _) _ | .readFile _ | .unlink _ => true
  | _ => false

abbrev OnlyFiles {α : Type} (p : Flush α) : Prop :=
  Only (fun e : Dialogue.Event FlushQuestion FlushAnswer => isFileQuestion e.1 = true) p

theorem sendBatches_only (path : String) (batches : List (List PyVal)) :
    OnlyFiles (sendBatches path batches) := by
  induction batches with
  | nil => exact only_done true
  | cons batch batches ih =>
    refine only_query_bind (fun _ => rfl) fun r => ?_
    cases r with
    | ok v => exact ih
    | error e =>
      simp only
      split
      · exact only_done false
      · exact only_fail e

theorem unlink_only (path : String) : OnlyFiles (Audit.unlink path) :=
  Dialogue.only_ask (fun _ => rfl) fun _ => only_done ()

theorem replayFile_only (h : Host) (L : Limits) (path : String) :
    OnlyFiles (replayFileWithin h L path) := by
  refine only_query_bind (fun _ => rfl) fun r => ?_
  cases r with
  | none => exact only_done ()
  | some bytes =>
    rcases replayRead_cases h L path bytes with ⟨e, -, hfail⟩ | ⟨-, text, -, hread⟩
    · rw [hfail]
      exact only_fail _
    · rw [hread]
      simp only [replayText]
      split
      · exact unlink_only path
      · refine (sendBatches_only path _).bind fun allOk => ?_
        split
        · exact unlink_only path
        · exact only_done ()

theorem replayFiles_only (h : Host) (L : Limits) (paths : List String) :
    OnlyFiles (replayFilesWithin h L paths) := by
  induction paths with
  | nil => exact only_done ()
  | cons path paths ih => exact (replayFile_only h L path).bind fun _ => ih

/-- Replaying files leaves the buffer, and what is to come for it, as they are. -/
theorem replayFiles_frame (paths : List String) (s : Trail × Future) :
    let s' := (run (env h c) (replayFilesWithin h L paths) s).final
    s'.1.store.buffer = s.1.store.buffer ∧ s'.2.live = s.2.live ∧
      s'.2.listings = s.2.listings := by
  refine (replayFiles_only h L paths).run (env h c) (I := fun s' =>
    s'.1.store.buffer = s.1.store.buffer ∧ s'.2.live = s.2.live ∧ s'.2.listings = s.2.listings)
    ?_ s ⟨rfl, rfl, rfl⟩
  intro q s' hs' hq
  cases q with
  | logBatch source events =>
    cases source with
    | buffer => cases hq
    | file path => exact hs'
  | readFile path => exact hs'
  | unlink path =>
    refine ⟨?_, hs'.2⟩
    rw [← hs'.1]
    show (s'.1.unlink path).store.buffer = _
    unfold Trail.unlink
    split <;> rfl
  | listDir => cases hq
  | drain n => cases hq
  | overflowWrite event => cases hq

/-- The files of a listing, in order. -/
def listed (w : OverflowWriter) : Option (List String) → List String
  | none => []
  | some listing => (overflowNames listing).map (OverflowWriter.pathJoin w.dir)

theorem replay_eq (w : OverflowWriter) (hw : w.writable = true) :
    replayWithin h L w = listDir >>= fun listing => replayFilesWithin h L (listed w listing) := by
  unfold replayWithin
  rw [hw]
  refine congrArg (listDir >>= ·) (funext fun listing => ?_)
  cases listing <;> rfl

/-- Replay takes one listing. -/
theorem replay_run (w : OverflowWriter) (hw : w.writable = true) (s : Trail × Future) :
    ∃ events, run (env h c) (replayWithin h L w) s =
      { run (env h c) (replayFilesWithin h L (listed w (s.2.listings 0))) (s.1, s.2.next .listDir) with
        events := events } := by
  rw [replay_eq w hw]
  exact ⟨_, rfl⟩

theorem replay_frame (w : OverflowWriter) (s : Trail × Future) :
    (run (env h c) (replayWithin h L w) s).final.1.store.buffer = s.1.store.buffer ∧
      (run (env h c) (replayWithin h L w) s).final.2.live = s.2.live := by
  cases hw : w.writable with
  | false =>
    unfold replayWithin
    rw [hw]
    exact ⟨rfl, rfl⟩
  | true =>
    obtain ⟨events, hrun⟩ := replay_run (h := h) (L := L) (c := c) w hw s
    have hframe := replayFiles_frame (h := h) (L := L) (c := c) (listed w (s.2.listings 0))
      (s.1, s.2.next .listDir)
    rw [hrun]
    exact ⟨hframe.1, hframe.2.1⟩

/-! ## Files at which replay raises -/

/-- There is a file, and reading it raises. -/
def Blocked (h : Host) (L : Limits) (t : Trail) (path : String) : Prop :=
  ∃ bytes, t.files path = some bytes ∧ raisedBy h L bytes ≠ none

/-- Replaying a file changes no other one, and this one only by removing it. -/
theorem replayFile_files (path : String) (s : Trail × Future) (p : String) :
    (run (env h c) (replayFileWithin h L path) s).final.1.files p = s.1.files p ∨
      p = path ∧ (run (env h c) (replayFileWithin h L path) s).final.1.files p = none := by
  have hkeeps : ReplayKeeps h False (· = path) fun t =>
      t.files p = s.1.files p ∨ p = path ∧ t.files p = none := by
    refine ⟨stable_alone _, fun _ _ _ ht => ht, fun _ _ _ _ _ _ ht _ _ _ => ht, ?_⟩
    intro t path' hpath ht _
    rw [unlink_files]
    by_cases hp : p = path'
    · exact Or.inr ⟨hp.trans hpath, by rw [hp, Function.update_self]⟩
    · rw [Function.update_of_ne hp]
      exact ht
  exact (env_runs (h := h) (c := c) _ s).of_wp
    (replayFile_triple hkeeps path rfl s.1 (Or.inl rfl))

/-- Where replay does not raise, it makes no file at which it would. -/
theorem replayFile_blocked (path : String) (s : Trail × Future) (hpath : ¬ s.1.Blocked h L path)
    (p : String) :
    (run (env h c) (replayFileWithin h L path) s).final.1.Blocked h L p ↔ s.1.Blocked h L p := by
  rcases replayFile_files (h := h) (L := L) (c := c) path s p with hsame | ⟨rfl, hnone⟩
  · simp only [Blocked, hsame]
  · refine iff_of_false ?_ hpath
    rintro ⟨bytes, hbytes, -⟩
    rw [hnone] at hbytes
    cases hbytes

/-! ## How a replay ends -/

theorem sendBatches_returns (path : String) (batches : List (List PyVal))
    (hsize : ∀ batch ∈ batches, batch.length ≤ 100) (s : Trail × Future) :
    ∃ allOk, (run (env h c) (sendBatches path batches) s).result = .returned allOk := by
  induction batches generalizing s with
  | nil => exact ⟨true, rfl⟩
  | cons batch batches ih =>
    have hrest := ih fun b hb => hsize b (List.mem_cons_of_mem _ hb)
    have hbatch := hsize batch List.mem_cons_self
    have hanswer : ((env h c).answer (.logBatch (.file path) batch) s).1 =
        c.logBatch batch (s.2.replayed 0) := rfl
    rw [sendBatches, Dialogue.run_query_bind, hanswer]
    rcases logBatch_cases c batch (s.2.replayed 0) hbatch with
      ⟨v, hr⟩ | ⟨m, code, hr⟩ | ⟨m, method, url, hr⟩
    · rw [hr]
      exact hrest _
    · rw [hr]
      exact ⟨false, rfl⟩
    · rw [hr]
      exact ⟨false, rfl⟩

/-- Replay raises exactly at such a file. -/
theorem replayFile_result (path : String) (s : Trail × Future) :
    (s.1.Blocked h L path →
      ∃ e, (run (env h c) (replayFileWithin h L path) s).result = .raised (.py e)) ∧
    (¬ s.1.Blocked h L path →
      (run (env h c) (replayFileWithin h L path) s).result = .returned ()) := by
  have hrun : (run (env h c) (replayFileWithin h L path) s).result =
      (run (env h c) (replayReadWithin h L path (s.1.files path)) (s.1.read path, s.2)).result :=
    rfl
  rw [hrun]
  cases hfile : s.1.files path with
  | none =>
    refine ⟨?_, fun _ => rfl⟩
    rintro ⟨bytes, hbytes, -⟩
    rw [hfile] at hbytes
    cases hbytes
  | some bytes =>
    rcases replayRead_cases h L path bytes with ⟨e, hraised, hfail⟩ | ⟨hraised, text, -, hread⟩
    · rw [hfail]
      refine ⟨fun _ => ⟨e, rfl⟩, fun hnot => absurd ⟨bytes, hfile, ?_⟩ hnot⟩
      rw [hraised]
      exact Option.some_ne_none e
    · rw [hread]
      refine ⟨?_, fun _ => ?_⟩
      · rintro ⟨b, hb, hne⟩
        rw [hfile] at hb
        rw [← Option.some.inj hb] at hne
        exact absurd hraised hne
      · simp only [replayText]
        split
        · rfl
        · obtain ⟨allOk, hsend⟩ := sendBatches_returns (h := h) (c := c) path _
            (fun batch hb => (slices_size 100 (by decide) _ batch hb).2) (s.1.read path, s.2)
          rw [Dialogue.run_bind_returned _ _ _ _ allOk hsend]
          cases allOk <;> rfl

theorem replayFiles_result (paths : List String) (s : Trail × Future) :
    ((∃ path ∈ paths, s.1.Blocked h L path) →
      ∃ e, (run (env h c) (replayFilesWithin h L paths) s).result = .raised (.py e)) ∧
    ((∀ path ∈ paths, ¬ s.1.Blocked h L path) →
      (run (env h c) (replayFilesWithin h L paths) s).result = .returned ()) := by
  induction paths generalizing s with
  | nil => exact ⟨fun ⟨_, hp, _⟩ => absurd hp List.not_mem_nil, fun _ => rfl⟩
  | cons path paths ih =>
    have hhead := replayFile_result (h := h) (L := L) (c := c) path s
    by_cases hpath : s.1.Blocked h L path
    · obtain ⟨e, he⟩ := hhead.1 hpath
      refine ⟨fun _ => ⟨e, ?_⟩, fun hall => absurd hpath (hall path List.mem_cons_self)⟩
      rw [replayFilesWithin, Dialogue.run_bind_raised _ _ _ _ _ he]
    · have hret := hhead.2 hpath
      have htail := ih (run (env h c) (replayFileWithin h L path) s).final
      have hsame (p : String) := replayFile_blocked (h := h) (L := L) (c := c) path s hpath p
      simp only [hsame] at htail
      rw [replayFilesWithin, Dialogue.run_bind_returned _ _ _ _ () hret]
      refine ⟨?_, fun hall => htail.2 fun p hp => hall p (List.mem_cons_of_mem _ hp)⟩
      rintro ⟨p, hp, hblocked⟩
      rcases List.mem_cons.mp hp with rfl | hp
      · exact absurd hblocked hpath
      · exact htail.1 ⟨p, hp, hblocked⟩

/-- Nor does a replay that does not raise. -/
theorem replayFiles_blocked (paths : List String) (s : Trail × Future)
    (hpaths : ∀ path ∈ paths, ¬ s.1.Blocked h L path) (p : String) :
    (run (env h c) (replayFilesWithin h L paths) s).final.1.Blocked h L p ↔ s.1.Blocked h L p := by
  induction paths generalizing s with
  | nil => exact Iff.rfl
  | cons path paths ih =>
    have hpath := hpaths path List.mem_cons_self
    have hret := (replayFile_result (h := h) (L := L) (c := c) path s).2 hpath
    have hsame (p : String) := replayFile_blocked (h := h) (L := L) (c := c) path s hpath p
    rw [replayFilesWithin, Dialogue.run_bind_returned _ _ _ _ () hret]
    refine (ih _ fun p' hp' => ?_).trans (hsame p)
    rw [hsame]
    exact hpaths p' (List.mem_cons_of_mem _ hp')

end Trail

end Sigil.Audit
