import Sigil.Audit.FinalFlush

/-! # What a replay delivers

A server that accepts every batch, and a directory that is shown as it is. Replay then sends what
can be read of the files, in order, and removes each, up to the first file at which it raises.
-/
set_option autoImplicit false

namespace Sigil.Audit

open Dialogue (Result run Environment)
open OverflowWriter (pathJoin)
open Json (Limits)

/-! ## Paths -/

/-- What `os.path.join` puts before a name. -/
def joinPrefix (dir : String) : String :=
  if dir = "" ∨ dir.toList.getLast? = some '/' then dir else dir ++ "/"

theorem pathJoin_plain (dir name : String) (hname : '/' ∉ name.toList) :
    pathJoin dir name = joinPrefix dir ++ name := by
  have hslash : "/".toList.isPrefixOf name.toList = false := by
    cases hcs : name.toList with
    | nil => rfl
    | cons c cs =>
      have hc : '/' ≠ c := by
        rintro rfl
        exact hname (hcs ▸ List.mem_cons_self)
      simp [List.isPrefixOf, hc]
  rw [pathJoin, hslash, if_neg Bool.false_ne_true, joinPrefix]
  split <;> rfl

theorem pathJoin_inj (dir a b : String) (ha : '/' ∉ a.toList) (hb : '/' ∉ b.toList)
    (h : pathJoin dir a = pathJoin dir b) : a = b := by
  rw [pathJoin_plain dir a ha, pathJoin_plain dir b hb] at h
  have hlists := congrArg String.toList h
  rw [String.toList_append, String.toList_append] at hlists
  exact String.toList_inj.mp (List.append_cancel_left hlists)

namespace Trail

/-- The server accepts every batch, and `os.listdir` shows the entries that are there. -/
structure Quiet where
  dir : String
  entries : List String
  nodup : entries.Nodup
  plain : ∀ name ∈ entries, '/' ∉ name.toList
  http : Trail → HttpAnswer
  accepts : ∀ t, Accepts (http t)

namespace Quiet

variable (q : Quiet) (t : Trail)

def present : List String := q.entries.filter fun name => (t.files (pathJoin q.dir name)).isSome

/-- The overflow files, in the order of their names. -/
def paths : List String := (overflowNames (q.present t)).map (pathJoin q.dir)

def env (h : Host) (c : SigilClient) (q : Quiet) : Environment FlushQuestion FlushAnswer Trail where
  answer x t := answer h c ⟨q.http t, some (q.present t), t.store.today⟩ x t

/-- No file of the directory is missing from the entries. -/
def Shows : Prop :=
  ∀ name, '/' ∉ name.toList → (t.files (pathJoin q.dir name)).isSome → name ∈ q.entries

theorem mem_paths (path : String) : path ∈ q.paths t ↔
    ∃ name ∈ q.entries, isOverflowName name = true ∧ pathJoin q.dir name = path ∧
      (t.files path).isSome = true := by
  simp only [paths, present, overflowNames, List.mem_map, List.mem_mergeSort, List.mem_filter]
  constructor
  · rintro ⟨name, ⟨⟨hname, hfile⟩, hoverflow⟩, rfl⟩
    exact ⟨name, hname, hoverflow, rfl, hfile⟩
  · rintro ⟨name, hname, hoverflow, rfl, hfile⟩
    exact ⟨name, ⟨⟨hname, hfile⟩, hoverflow⟩, rfl⟩

theorem paths_nodup : (q.paths t).Nodup := by
  have hnames : (overflowNames (q.present t)).Nodup :=
    (List.mergeSort_perm _ _).nodup_iff.mpr ((q.nodup.filter _).filter _)
  refine List.Nodup.map_on ?_ hnames
  intro a ha b hb heq
  have hplain : ∀ name ∈ overflowNames (q.present t), '/' ∉ name.toList := by
    intro name hname
    simp only [overflowNames, present, List.mem_mergeSort, List.mem_filter] at hname
    exact q.plain name hname.1.1
  exact pathJoin_inj q.dir a b (hplain a ha) (hplain b hb) heq

end Quiet

/-! ## Files -/

/-- Nothing is in the way of reading the file. -/
def readable (h : Host) (L : Limits) (t : Trail) (path : String) : Bool :=
  (t.files path).all fun bytes => (raisedBy h L bytes).isNone

def eventsIn (h : Host) (t : Trail) (path : String) : List PyVal :=
  ((t.files path).map (eventsOf h)).getD []

/-- The batches a file is sent in. -/
def batchesOf (h : Host) (t : Trail) (path : String) : List (Source × List PyVal) :=
  (slices 100 (eventsIn h t path)).map fun batch => (.file path, batch)

variable {h : Host} {L : Limits} {c : SigilClient} {q : Quiet}

theorem sendBatches_quiet (path : String) (batches : List (List PyVal))
    (hsize : ∀ batch ∈ batches, batch.length ≤ 100) (t : Trail) :
    let r := run (q.env h c) (sendBatches path batches) t
    r.result = .returned true ∧ r.final.store = t.store ∧
      r.final.sent = t.sent ++ batches.map fun batch => (.file path, batch) := by
  induction batches generalizing t with
  | nil => exact ⟨rfl, rfl, (List.append_nil _).symm⟩
  | cons batch batches ih =>
    obtain ⟨v, hr⟩ := logBatch_accepts c batch (q.http t) (hsize batch List.mem_cons_self)
      (q.accepts t)
    have hanswer : ((q.env h c).answer (.logBatch (.file path) batch) t).1 =
        c.logBatch batch (q.http t) := rfl
    have hrest := ih (fun b hb => hsize b (List.mem_cons_of_mem _ hb))
      ((q.env h c).answer (.logBatch (.file path) batch) t).2
    simp only [sendBatches, Dialogue.run_query_bind, hanswer, hr]
    refine ⟨hrest.1, hrest.2.1, hrest.2.2.trans ?_⟩
    show t.sent ++ [(Source.file path, batch)] ++ _ = _
    rw [List.append_assoc, List.map_cons, List.singleton_append]

/-- What becomes of the trail when some files are replayed. -/
structure Replayed (h : Host) (paths : List String) (t t' : Trail) : Prop where
  sent : t'.sent = t.sent ++ paths.flatMap (batchesOf h t)
  files : ∀ p, t'.files p = if p ∈ paths then none else t.files p
  buffer : t'.store.buffer = t.store.buffer

theorem replayed_nil (t : Trail) : Replayed h [] t t where
  sent := (List.append_nil _).symm
  files := fun _ => rfl
  buffer := rfl

theorem Replayed.cons {path : String} {paths : List String} {t t' t'' : Trail}
    (hfirst : Replayed h [path] t t') (hrest : Replayed h paths t' t'') (hnot : path ∉ paths) :
    Replayed h (path :: paths) t t'' where
  sent := by
    have hsame : paths.flatMap (batchesOf h t') = paths.flatMap (batchesOf h t) := by
      refine List.flatMap_congr fun p hp => ?_
      have hp : p ∉ [path] := fun hmem => hnot (List.mem_singleton.mp hmem ▸ hp)
      rw [batchesOf, batchesOf, eventsIn, eventsIn, hfirst.files, if_neg hp]
    rw [hrest.sent, hfirst.sent, hsame, List.append_assoc, List.flatMap_cons, List.flatMap_cons,
      List.flatMap_nil, List.append_nil]
  files := by
    intro p
    rw [hrest.files, hfirst.files]
    by_cases hp : p ∈ paths
    · rw [if_pos hp, if_pos (List.mem_cons_of_mem _ hp)]
    · rw [if_neg hp]
      simp [hp]
  buffer := hrest.buffer.trans hfirst.buffer

theorem readable_iff (t : Trail) (path : String) :
    t.readable h L path = true ↔ ¬ t.Blocked h L path := by
  unfold readable Blocked
  cases hfile : t.files path with
  | none => simp
  | some bytes => simp

theorem unlink_sent (path : String) (t : Trail) : (t.unlink path).sent = t.sent := by
  unfold unlink
  split <;> rfl

theorem unlink_buffer (path : String) (t : Trail) :
    (t.unlink path).store.buffer = t.store.buffer := by
  unfold unlink
  split <;> rfl

/-- The batches of a file have been sent, and it is removed. -/
theorem unlink_replayed (path : String) (t t' : Trail) (hstore : t'.store = t.store)
    (hsent : t'.sent = t.sent ++ batchesOf h t path) : Replayed h [path] t (t'.unlink path) where
  sent := by
    rw [unlink_sent, hsent, List.flatMap_cons, List.flatMap_nil, List.append_nil]
  files := by
    intro p
    have hfiles : t'.files = t.files := by
      unfold files
      rw [hstore]
    rw [unlink_files, hfiles]
    by_cases hp : p = path
    · rw [hp, Function.update_self, if_pos (List.mem_singleton_self path)]
    · rw [Function.update_of_ne hp, if_neg fun hmem => hp (List.mem_singleton.mp hmem)]
  buffer := by rw [unlink_buffer, hstore]

theorem replayed_missing (path : String) (t : Trail) (hfile : t.files path = none) :
    Replayed h [path] t (t.read path) where
  sent := by
    have hnone : batchesOf h t path = [] := by
      rw [batchesOf, eventsIn, hfile, Option.map_none, Option.getD_none, slices_nil 100 (by decide),
        List.map_nil]
    rw [List.flatMap_cons, hnone, List.flatMap_nil, List.append_nil]
    exact (List.append_nil _).symm
  files := by
    intro p
    by_cases hp : p = path
    · rw [hp, if_pos (List.mem_singleton_self path)]
      exact hfile
    · rw [if_neg fun hmem => hp (List.mem_singleton.mp hmem)]
      rfl
  buffer := rfl

/-- A file that can be read is sent and removed. -/
theorem replayFile_readable (path : String) (t : Trail) (hread : t.readable h L path = true) :
    (run (q.env h c) (replayFileWithin h L path) t).result = .returned () ∧
      Replayed h [path] t (run (q.env h c) (replayFileWithin h L path) t).final := by
  have hrun : run (q.env h c) (replayFileWithin h L path) t =
      { run (q.env h c) (replayReadWithin h L path (t.files path)) (t.read path) with
        events := (run (q.env h c) (replayFileWithin h L path) t).events } := rfl
  rw [hrun]
  cases hfile : t.files path with
  | none => exact ⟨rfl, replayed_missing path t hfile⟩
  | some bytes =>
    obtain ⟨text, htext, hrest⟩ : ∃ text, decodeUtf8 bytes = some text ∧
        replayReadWithin h L path (some bytes) = replayText h path text := by
      rcases replayRead_cases h L path bytes with ⟨e, hraised, -⟩ | ⟨-, hsound⟩
      · rw [readable, hfile, Option.all_some, hraised] at hread
        cases hread
      · exact hsound
    have hbatches : batchesOf h t path =
        (slices 100 (lineEvents h (strippedLines text.toList))).map fun b => (.file path, b) := by
      rw [batchesOf, eventsIn, hfile, Option.map_some, Option.getD_some, eventsOf, htext]
    rw [hrest]
    simp only [replayText]
    split
    · next hempty =>
      refine ⟨rfl, unlink_replayed path t (t.read path) rfl ?_⟩
      rw [hbatches, List.isEmpty_iff.mp hempty]
      show t.sent = t.sent ++ (slices 100 []).map _
      rw [slices_nil 100 (by decide), List.map_nil, List.append_nil]
    · obtain ⟨hall, hstore, hsent⟩ := sendBatches_quiet (h := h) (c := c) (q := q) path
        (slices 100 (lineEvents h (strippedLines text.toList)))
        (fun b hb => (slices_size 100 (by decide) _ b hb).2) (t.read path)
      rw [Dialogue.run_bind_returned _ _ _ _ true hall]
      exact ⟨rfl, unlink_replayed path t _ hstore (hbatches ▸ hsent)⟩

/-- A file that cannot be read ends the replay. -/
theorem replayFile_unreadable (path : String) (t : Trail) (hread : t.readable h L path = false) :
    (∃ e, (run (q.env h c) (replayFileWithin h L path) t).result = .raised (.py e)) ∧
      Replayed h [] t (run (q.env h c) (replayFileWithin h L path) t).final := by
  have hrun : run (q.env h c) (replayFileWithin h L path) t =
      { run (q.env h c) (replayReadWithin h L path (t.files path)) (t.read path) with
        events := (run (q.env h c) (replayFileWithin h L path) t).events } := rfl
  have hblocked : t.Blocked h L path := by
    by_contra hnot
    rw [(readable_iff t path).mpr hnot] at hread
    cases hread
  obtain ⟨bytes, hfile, hne⟩ := hblocked
  obtain ⟨e, -, hfail⟩ := (replayRead_cases h L path bytes).resolve_right fun hsound =>
    hne hsound.1
  rw [hrun, hfile, hfail]
  exact ⟨⟨e, rfl⟩, (List.append_nil _).symm, fun _ => rfl, rfl⟩

theorem takeWhile_same {α : Type} (xs : List α) (p p' : α → Bool) (h : ∀ x ∈ xs, p x = p' x) :
    xs.takeWhile p = xs.takeWhile p' ∧ xs.all p = xs.all p' := by
  induction xs with
  | nil => exact ⟨rfl, rfl⟩
  | cons x xs ih =>
    obtain ⟨hwhile, hall⟩ := ih fun y hy => h y (List.mem_cons_of_mem x hy)
    rw [List.takeWhile_cons, List.takeWhile_cons, List.all_cons, List.all_cons,
      h x List.mem_cons_self, hwhile, hall]
    exact ⟨rfl, rfl⟩

/-- It returns, or raises, as every file can be read or not. -/
def Ends (all : Bool) (r : Result (Exc Empty) Unit) : Prop :=
  if all then r = .returned () else ∃ e, r = .raised (.py e)

/-- **What replay sends.** The files up to the first that cannot be read; if there is one, it
raises. -/
theorem replayFiles_quiet (paths : List String) (hnodup : paths.Nodup) (t : Trail) :
    Ends (paths.all (t.readable h L)) (run (q.env h c) (replayFilesWithin h L paths) t).result ∧
      Replayed h (paths.takeWhile (t.readable h L)) t
        (run (q.env h c) (replayFilesWithin h L paths) t).final := by
  induction paths generalizing t with
  | nil => exact ⟨rfl, replayed_nil t⟩
  | cons path paths ih =>
    obtain ⟨hnot, hnodup⟩ := List.nodup_cons.mp hnodup
    rw [List.all_cons, List.takeWhile_cons, replayFilesWithin]
    cases hread : t.readable h L path with
    | false =>
      obtain ⟨⟨e, hres⟩, hrep⟩ :=
        replayFile_unreadable (h := h) (L := L) (c := c) (q := q) path t hread
      rw [Dialogue.run_bind_raised _ _ _ _ _ hres]
      exact ⟨⟨e, rfl⟩, hrep⟩
    | true =>
      obtain ⟨hres, hrep⟩ := replayFile_readable (h := h) (L := L) (c := c) (q := q) path t hread
      rw [Dialogue.run_bind_returned _ _ _ _ () hres]
      -- the other files are as they were
      have hsame : ∀ p ∈ paths,
          (run (q.env h c) (replayFileWithin h L path) t).final.readable h L p =
            t.readable h L p := by
        intro p hp
        have hp : p ∉ [path] := fun hmem => hnot (List.mem_singleton.mp hmem ▸ hp)
        rw [readable, readable, hrep.files, if_neg hp]
      have hrest := ih hnodup (run (q.env h c) (replayFileWithin h L path) t).final
      obtain ⟨hwhile, hall⟩ := takeWhile_same paths _ _ hsame
      rw [hwhile, hall] at hrest
      exact ⟨hrest.1, hrep.cons hrest.2 fun hmem => hnot (List.takeWhile_subset _ hmem)⟩

theorem replay_quiet (w : OverflowWriter) (hw : w.writable = true) (hdir : w.dir = q.dir)
    (t : Trail) :
    Ends ((q.paths t).all (t.readable h L)) (run (q.env h c) (replayWithin h L w) t).result ∧
      Replayed h ((q.paths t).takeWhile (t.readable h L)) t
        (run (q.env h c) (replayWithin h L w) t).final := by
  have hrun : run (q.env h c) (replayWithin h L w) t =
      { run (q.env h c) (replayFilesWithin h L (q.paths t)) t with
        events := (run (q.env h c) (replayWithin h L w) t).events } := by
    rw [replay_eq w hw, Quiet.paths, ← hdir]
    rfl
  rw [hrun]
  exact replayFiles_quiet (q.paths t) (q.paths_nodup t) t

end Trail

end Sigil.Audit
