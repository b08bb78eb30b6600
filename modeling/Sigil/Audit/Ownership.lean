import Sigil.Audit.Solo

/-! # Whose files replay sends

Writers of several agents share a directory, and replay takes every file in it that looks like an
overflow file. So it stays with its own agent exactly when nobody else has written there.
-/
set_option autoImplicit false

namespace Sigil.Audit

open Dialogue (Stable Result run)
open Json (FloatTexts Limits asJson)
open OverflowWriter (pathJoin line)

/-! ## A shared directory -/

/-- An event that a writer of an agent wrote on a day. -/
structure Entry where
  agentId : String
  day : String
  event : PyVal

def Entry.path (dir : String) (e : Entry) : String :=
  pathJoin dir (e.agentId ++ "_" ++ e.day ++ ".ndjson")

/-- What writers leave in an empty directory. -/
inductive Produced (h : Host) (dir : String) : List Entry → Disk → Prop where
  | empty (canOpen : String → Bool) : Produced h dir [] ⟨fun _ => none, canOpen⟩
  | write (history : List Entry) (disk : Disk) (w : OverflowWriter) (day : String) (event : PyVal)
      (hp : Produced h dir history disk) (hdir : w.dir = dir) (hready : w.Ready disk day) :
      Produced h dir (history ++ [⟨w.agentId, day, event⟩]) (w.write h disk day event).2

/-- The events written to a file. -/
def eventsAt (dir : String) (history : List Entry) (path : String) : List PyVal :=
  (history.filter fun e => e.path dir = path).map Entry.event

theorem mem_eventsAt (dir : String) (history : List Entry) (path : String) (v : PyVal) :
    v ∈ eventsAt dir history path ↔ ∃ e ∈ history, e.path dir = path ∧ e.event = v := by
  simp [eventsAt, and_assoc]

/-- A file is the lines of the events written to it. -/
theorem produced_files (h : Host) (dir : String) (history : List Entry) (disk : Disk)
    (hp : Produced h dir history disk) (path : String) :
    disk.files path = if eventsAt dir history path = [] then none
      else some ((eventsAt dir history path).flatMap (line h)) := by
  induction hp with
  | empty canOpen => rfl
  | write history disk w day event _ hdir hready ih =>
    rw [OverflowWriter.write_of_ready h w disk day event hready]
    have hpath : (Entry.mk w.agentId day event).path dir = w.currentPath day := by
      rw [← hdir]
      rfl
    have happend : eventsAt dir (history ++ [⟨w.agentId, day, event⟩]) path =
        eventsAt dir history path ++ if w.currentPath day = path then [event] else [] := by
      rw [eventsAt, List.filter_append, List.map_append, List.filter_cons, List.filter_nil, hpath]
      by_cases hc : w.currentPath day = path
      · simp [eventsAt, hc]
      · simp [eventsAt, hc]
    show Function.update disk.files (w.currentPath day) _ path = _
    rw [happend]
    by_cases hc : w.currentPath day = path
    · have hne : eventsAt dir history path ++ [event] ≠ [] := by simp
      rw [if_pos hc, if_neg hne, hc, Function.update_self, ih, List.flatMap_append]
      by_cases hnil : eventsAt dir history path = []
      · rw [if_pos hnil, hnil]
        simp
      · rw [if_neg hnil]
        simp
    · rw [if_neg hc, Function.update_of_ne (Ne.symm hc), List.append_nil, ih]

theorem produced_events (h : Host) (hf : FloatTexts h) (dir : String) (history : List Entry)
    (disk : Disk) (hp : Produced h dir history disk) (path : String) (bytes : List UInt8)
    (hb : disk.files path = some bytes) :
    (∃ text, decodeUtf8 bytes = some text) ∧
      eventsOf h bytes = (eventsAt dir history path).map (asJson h) := by
  rw [produced_files h dir history disk hp path] at hb
  split at hb
  · cases hb
  · rw [← Option.some.inj hb]
    exact ⟨⟨_, by rw [lines_utf8, decodeUtf8_utf8]⟩, eventsOf_lines h hf _⟩

namespace Trail

variable {h : Host} {L : Limits} {c : SigilClient}

/-! ## Within the listed files -/

/-- Only files in `scope` have been sent from or removed, and what was sent was in them. -/
structure Within (h : Host) (before : String → Option (List UInt8)) (scope : String → Prop)
    (t : Trail) : Prop where
  sent : ∀ b ∈ t.sent, ∃ path bytes, b.1 = .file path ∧ scope path ∧ before path = some bytes ∧
    ∀ v ∈ b.2, v ∈ eventsOf h bytes
  read : ∀ path bytes, t.readBack path = some bytes → before path = some bytes
  same : ∀ path bytes, t.files path = some bytes → before path = some bytes
  kept : ∀ path, ¬ scope path → t.files path = before path

theorem within_replayKeeps (before : String → Option (List UInt8)) (scope : String → Prop) :
    ReplayKeeps h False scope (Within h before scope) where
  moves := stable_alone _
  read := by
    intro t path _ ht
    refine ⟨ht.sent, fun p bytes hb => ?_, ht.same, ht.kept⟩
    by_cases hp : p = path
    · rw [hp] at hb ⊢
      exact ht.same path bytes ((Function.update_self path _ _).symm.trans hb)
    · exact ht.read p bytes ((Function.update_of_ne hp _ _).symm.trans hb)
  batch := by
    intro t path bytes events r hscope ht hread hfrom _
    refine ⟨fun b hb => ?_, ht.read, ht.same, ht.kept⟩
    rcases List.mem_append.mp hb with hb | hb
    · exact ht.sent b hb
    · rw [List.mem_singleton.mp hb]
      exact ⟨path, bytes, rfl, hscope, ht.read path bytes hread, hfrom⟩
  unlink := by
    intro t path hscope ht _
    have hfiles := unlink_files path t
    have hsent : (t.unlink path).sent = t.sent := by
      unfold Trail.unlink
      split <;> rfl
    have hread : (t.unlink path).readBack = t.readBack := by
      unfold Trail.unlink
      split <;> rfl
    refine ⟨by rw [hsent]; exact ht.sent, by rw [hread]; exact ht.read, fun p bytes hb => ?_,
      fun p hp => ?_⟩
    · rw [hfiles] at hb
      by_cases hpath : p = path
      · rw [hpath, Function.update_self] at hb
        cases hb
      · rw [Function.update_of_ne hpath] at hb
        exact ht.same p bytes hb
    · have hpath : p ≠ path := fun heq => hp (heq ▸ hscope)
      rw [hfiles, Function.update_of_ne hpath]
      exact ht.kept p hp

/-! ## Every listed file is sent -/

theorem sent_mono {α : Type} (p : Flush α) (s : Trail × Future) (b : Source × List PyVal)
    (hb : b ∈ s.1.sent) : b ∈ (run (env h c) p s).final.1.sent := by
  have hall : Dialogue.Only (fun _ => True) p := fun _ _ _ _ _ => trivial
  refine hall.run (env h c) (I := fun s => b ∈ s.1.sent) ?_ s hb
  intro q s hs _
  cases q with
  | logBatch source events => exact List.mem_append_left _ hs
  | unlink path =>
    show b ∈ (s.1.unlink path).sent
    unfold Trail.unlink
    split <;> exact hs
  | _ => exact hs

/-- A file with an event in it is sent from, whatever the server answers, if reading it raises
nothing. -/
theorem replayFile_sends (path : String) (s : Trail × Future) (bytes : List UInt8)
    (hfile : s.1.files path = some bytes) (hraises : raisedBy h L bytes = none) (v : PyVal)
    (hv : v ∈ eventsOf h bytes) :
    ∃ b ∈ (run (env h c) (replayFileWithin h L path) s).final.1.sent, b.1 = .file path := by
  have hrun : (run (env h c) (replayFileWithin h L path) s).final =
      (run (env h c) (replayReadWithin h L path (s.1.files path)) (s.1.read path, s.2)).final := rfl
  rw [hrun, hfile]
  rcases replayRead_cases h L path bytes with ⟨e, hraised, -⟩ | ⟨-, text, htext, hread⟩
  · rw [hraises] at hraised
    cases hraised
  · have hv : v ∈ lineEvents h (strippedLines text.toList) := by
      rw [eventsOf, htext] at hv
      exact hv
    have hmem := mem_slices 100 (by decide) _ v hv
    have hlines : (strippedLines text.toList).isEmpty = false := by
      cases hl : strippedLines text.toList with
      | nil =>
        rw [hl] at hv
        cases hv
      | cons l ls => rfl
    rw [hread]
    simp only [replayText, hlines, if_neg Bool.false_ne_true]
    cases hslices : slices 100 (lineEvents h (strippedLines text.toList)) with
    | nil =>
      rw [hslices] at hmem
      cases hmem
    | cons batch batches =>
      refine ⟨(.file path, batch), ?_, rfl⟩
      exact sent_mono _ ((s.1.read path).batchAnswered (.file path) batch
        (c.logBatch batch (s.2.replayed 0)), s.2.next (.logBatch (.file path) batch)) _
        (List.mem_append_right _ (List.mem_singleton_self _))

theorem replayFiles_sends (paths : List String) (path : String) (hpath : path ∈ paths)
    (s : Trail × Future) (hclean : ∀ p, ¬ s.1.Blocked h L p) (bytes : List UInt8)
    (hfile : s.1.files path = some bytes) (v : PyVal) (hv : v ∈ eventsOf h bytes) :
    ∃ b ∈ (run (env h c) (replayFilesWithin h L paths) s).final.1.sent, b.1 = .file path := by
  induction paths generalizing s with
  | nil => cases hpath
  | cons p paths ih =>
    have hret := (replayFile_result (h := h) (L := L) (c := c) p s).2 (hclean p)
    rw [replayFilesWithin, Dialogue.run_bind_returned _ _ _ _ () hret]
    by_cases heq : p = path
    · subst heq
      have hraises : raisedBy h L bytes = none := by
        by_contra hne
        exact hclean p ⟨bytes, hfile, hne⟩
      obtain ⟨b, hb, hsource⟩ := replayFile_sends (c := c) p s bytes hfile hraises v hv
      exact ⟨b, sent_mono _ _ b hb, hsource⟩
    · have hrest : path ∈ paths := (List.mem_cons.mp hpath).resolve_left (Ne.symm heq)
      refine ih hrest _ (fun q => ?_) ?_
      · rw [replayFile_blocked p s (hclean p)]
        exact hclean q
      · have hsame := replayFile_files (h := h) (L := L) (c := c) p s path
        rw [hsame.resolve_right fun hp => heq hp.1.symm]
        exact hfile

/-- An event in a listed file is sent, whoever wrote it. -/
theorem listed_sends (hf : FloatTexts h) (history : List Entry) (store : Store)
    (hp : Produced h store.overflow.dir history store.disk) (hw : store.overflow.writable = true)
    (f : Future) (e : Entry) (he : e ∈ history)
    (hlisted : e.path store.overflow.dir ∈ listed store.overflow (f.listings 0)) :
    ∃ b ∈ (run (env h c) (replay h store.overflow) (start store, f)).final.1.sent,
      b.1 = .file (e.path store.overflow.dir) := by
  obtain ⟨tr, hrun⟩ := replay_run (h := h) (L := .off) (c := c) store.overflow hw (start store, f)
  have hevents := produced_events h hf _ history store.disk hp
  have hmem : e.event ∈ eventsAt store.overflow.dir history (e.path store.overflow.dir) :=
    (mem_eventsAt _ _ _ _).mpr ⟨e, he, rfl, rfl⟩
  obtain ⟨bytes, hb⟩ : ∃ bytes, store.disk.files (e.path store.overflow.dir) = some bytes := by
    rw [produced_files h _ history _ hp, if_neg (List.ne_nil_of_mem hmem)]
    exact ⟨_, rfl⟩
  have hv : asJson h e.event ∈ eventsOf h bytes := by
    rw [(hevents _ bytes hb).2]
    exact List.mem_map_of_mem hmem
  have hclean : ∀ p, ¬ (start store).Blocked h .off p := by
    rintro p ⟨b, hb, hraises⟩
    obtain ⟨⟨text, htext⟩, -⟩ := hevents p b hb
    exact hraises (raisedBy_off h b text htext)
  rw [hrun]
  exact replayFiles_sends _ _ hlisted (start store, f.next .listDir) hclean bytes hb _ hv

theorem mem_listed (w : OverflowWriter) (listing : List String) (path : String) :
    path ∈ listed w (some listing) ↔
      ∃ name ∈ listing, isOverflowName name = true ∧ pathJoin w.dir name = path := by
  simp [listed, overflowNames, List.mem_mergeSort, and_assoc]

/-! ## Whose events are sent -/

/-- Every event sent was written by agent `a`, and no file of another agent is sent from or
removed. -/
structure OwnOnly (h : Host) (dir : String) (history : List Entry) (a : String) (t t' : Trail) :
    Prop where
  events : ∀ b ∈ t'.sent, ∀ v ∈ b.2, ∃ e ∈ history, e.agentId = a ∧ v = asJson h e.event
  sent : ∀ e ∈ history, e.agentId ≠ a → ∀ b ∈ t'.sent, b.1 ≠ .file (e.path dir)
  kept : ∀ e ∈ history, e.agentId ≠ a → t'.files (e.path dir) = t.files (e.path dir)

/-- **When replay stays with its own agent.** Over a directory that writers of any agents have
shared, and whatever the server answers: exactly when every event in a listed file was written by
the agent that replays. -/
theorem replay_ownOnly_iff (hf : FloatTexts h) (history : List Entry) (store : Store)
    (hp : Produced h store.overflow.dir history store.disk) (hw : store.overflow.writable = true)
    (f : Future) :
    OwnOnly h store.overflow.dir history store.overflow.agentId (start store)
        (run (env h c) (replay h store.overflow) (start store, f)).final.1 ↔
      ∀ e ∈ history, e.path store.overflow.dir ∈ listed store.overflow (f.listings 0) →
        e.agentId = store.overflow.agentId := by
  constructor
  · intro hown e he hlisted
    by_contra hforeign
    obtain ⟨b, hb, hsource⟩ := listed_sends (c := c) hf history store hp hw f e he hlisted
    exact hown.sent e he hforeign b hb hsource
  · intro hall
    obtain ⟨tr, hrun⟩ := replay_run (h := h) (L := .off) (c := c) store.overflow hw
      (start store, f)
    have hevents := produced_events h hf _ history store.disk hp
    have hkeeps := within_replayKeeps (h := h) store.disk.files
      (· ∈ listed store.overflow (f.listings 0))
    have hwithin := (env_runs (h := h) (c := c) _ (start store, f.next .listDir)).of_wp
      (replayFiles_triple (L := .off) hkeeps _ (fun _ hp => hp) (start store)
        ⟨nofun, nofun, fun _ _ hb => hb, fun _ _ => rfl⟩)
    have hforeign : ∀ e ∈ history, e.agentId ≠ store.overflow.agentId →
        e.path store.overflow.dir ∉ listed store.overflow (f.listings 0) :=
      fun e he hne hlisted => hne (hall e he hlisted)
    rw [hrun]
    refine ⟨fun b hb v hv => ?_, fun e he hne b hb hsource => ?_, fun e he hne => ?_⟩
    · obtain ⟨path, bytes, -, hlisted, hfile, hfrom⟩ := hwithin.sent b hb
      have hmem := hfrom v hv
      rw [(hevents path bytes hfile).2] at hmem
      obtain ⟨event, hat, rfl⟩ := List.mem_map.mp hmem
      obtain ⟨e, he, rfl, rfl⟩ := (mem_eventsAt _ _ _ _).mp hat
      exact ⟨e, he, hall e he hlisted, rfl⟩
    · obtain ⟨path, bytes, hpath, hlisted, -⟩ := hwithin.sent b hb
      rw [hsource] at hpath
      injection hpath with hpath
      exact hforeign e he hne (hpath ▸ hlisted)
    · exact hwithin.kept _ (hforeign e he hne)

/-! ## Two agents, one directory -/

/-- The store of agent `a1`, after another agent has written an event in its directory. -/
def sharedWith (store : Store) (agentId : String) (event : PyVal) : Store :=
  { store with
    disk := ((emptyStore agentId).overflow.write plainHost store.disk "2026-01-01" event).2 }

theorem sharedWith_produced (store : Store) (history : List Entry) (agentId : String)
    (event : PyVal) (hp : Produced plainHost "o" history store.disk)
    (hready : (emptyStore agentId).overflow.Ready store.disk "2026-01-01") :
    Produced plainHost "o"
      (history ++ [⟨(emptyStore agentId).overflow.agentId, "2026-01-01", event⟩])
      (sharedWith store agentId event).disk :=
  .write history _ _ _ _ hp rfl hready

/-- `os.listdir` shows these entries. -/
def showing (entries : List String) : Future :=
  { steady acceptedAnswer with listings := fun _ => some entries }

/-- Agent `a1` has written an event, and agent `team/b` one in the directory below. -/
def teamStore : Store := sharedWith (sharedWith (emptyStore "a1") "a1" (.str "x")) "team/b" (.str "y")

def teamHistory : List Entry :=
  [⟨"a1", "2026-01-01", .str "x"⟩, ⟨"team/b", "2026-01-01", .str "y"⟩]

theorem teamStore_produced : Produced plainHost "o" teamHistory teamStore.disk := by
  have hfirst := sharedWith_produced (emptyStore "a1") [] "a1" (.str "x") (.empty _)
    ⟨rfl, rfl, nofun⟩
  refine sharedWith_produced (sharedWith (emptyStore "a1") "a1" (.str "x")) _ "team/b" (.str "y")
    hfirst ⟨rfl, rfl, fun bytes hb => ?_⟩
  have hnone : (sharedWith (emptyStore "a1") "a1" (.str "x")).disk.files
      ((emptyStore "team/b").overflow.currentPath "2026-01-01") = none := by
    rw [produced_files plainHost "o" _ _ hfirst, if_pos (by decide)]
  rw [hnone] at hb
  cases hb

/-- The file of `team/b` is not listed: only the event of `a1` is sent. -/
theorem replay_ownOnly_iff_team :
    OwnOnly plainHost "o" teamHistory "a1" (start teamStore)
        (run (env plainHost plainClient) (replay plainHost teamStore.overflow)
          (start teamStore, showing ["team", "a1_2026-01-01.ndjson"])).final.1 := by
  refine (replay_ownOnly_iff (c := plainClient) plainHost_floats teamHistory teamStore
    teamStore_produced rfl (showing ["team", "a1_2026-01-01.ndjson"])).mpr fun e he hlisted => ?_
  rcases List.mem_cons.mp he with rfl | he
  · rfl
  · rw [List.mem_singleton.mp he] at hlisted
    obtain ⟨name, hname, hoverflow, hpath⟩ := (mem_listed _ _ _).mp hlisted
    rcases List.mem_cons.mp hname with rfl | hname
    · exact absurd hoverflow (by decide)
    · rw [List.mem_singleton.mp hname] at hpath
      exact absurd hpath (by decide)

/-- Agent `a1` sends what agent `b` wrote. -/
theorem replay_sends_foreign :
    ¬ ∀ (history : List Entry) (store : Store) (f : Future),
      Produced plainHost store.overflow.dir history store.disk →
      store.overflow.writable = true →
      OwnOnly plainHost store.overflow.dir history store.overflow.agentId (start store)
        (run (env plainHost plainClient) (replay plainHost store.overflow)
          (start store, f)).final.1 := by
  intro hall
  have hproduced := sharedWith_produced (emptyStore "a1") [] "b" (.str "x") (.empty _)
    ⟨rfl, rfl, nofun⟩
  have hown := hall _ (sharedWith (emptyStore "a1") "b" (.str "x"))
    (showing ["b_2026-01-01.ndjson"]) hproduced rfl
  have hlisted : (Entry.mk "b" "2026-01-01" (.str "x")).path "o" ∈
      listed (sharedWith (emptyStore "a1") "b" (.str "x")).overflow
        (some ["b_2026-01-01.ndjson"]) :=
    (mem_listed _ _ _).mpr ⟨_, List.mem_singleton_self _, by decide, by decide⟩
  obtain ⟨b, hb, hsource⟩ := listed_sends (c := plainClient) plainHost_floats _
    (sharedWith (emptyStore "a1") "b" (.str "x")) hproduced rfl (showing ["b_2026-01-01.ndjson"])
    _ (List.mem_singleton_self _) hlisted
  exact hown.sent _ (List.mem_singleton_self _) (by decide) b hb hsource

end Trail

end Sigil.Audit
