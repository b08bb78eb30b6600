import Sigil.Audit.Pipeline

/-! # Writers beside replay

Other threads append to the overflow files while one replays them. A file that grows between being
read and being removed takes the new lines with it; when none does, nothing is lost.
-/
set_option autoImplicit false

namespace Sigil.Audit

open Dialogue (Runs Stable Result)
open Json (FloatTexts Limits asJson)

namespace Trail

variable {h : Host} {L : Limits} {c : SigilClient}

theorem sound_replayKeeps (hf : FloatTexts h) (others : Prop) :
    ReplayKeeps h others (fun _ => True) fun t => t.Sound h where
  moves := by
    intro t t' hs hm
    cases hm with
    | write day event ho => exact write_sound day event hs
  read := fun _ _ _ hs => ⟨hs.terminated, hs.lines, hs.removed, hs.batches⟩
  batch := fun _ path _ events r _ hs _ _ hsize => batch_sound (.file path) events r hs hsize
  unlink := fun _ path _ hs hgo => unlink_sound path hf hs hgo

/-- **No event is lost beside an unchanged file.** In every run of replay, between whose steps other
threads write what they like, but which removes a file only as it was read: wherever the run stands,
every event that was written is on disk or has been accepted. -/
theorem no_written_event_lost (hf : FloatTexts h) (w : OverflowWriter) (t t' : Trail)
    (r : Result (Exc Empty) Unit) (ht : t.Sound h)
    (hrun : Runs (Moves h True) (Answers h c True) (replayWithin h L w) t r t') :
    ∀ e ∈ t'.written, t'.OnDisk h e ∨ t'.Accepted h e :=
  (hrun.of_wp (replay_triple (sound_replayKeeps hf True) w t ht)).lines

/-! ## A lost event -/

def sampleName : String := "a1_2026-01-01.ndjson"

/-- The overflow file has one event. -/
def oneLine : Trail :=
  { start { emptyStore "a1" with
      disk := ⟨fun path => if path = "o/a1_2026-01-01.ndjson" then
        some (OverflowWriter.line plainHost (.str "x")) else none, fun _ => true⟩ } with
    written := [.str "x"] }

theorem oneLine_path : oneLine.store.overflow.currentPath "2026-01-01" = "o/a1_2026-01-01.ndjson" := by
  decide

theorem oneLine_file : oneLine.files "o/a1_2026-01-01.ndjson" =
    some (OverflowWriter.line plainHost (.str "x")) := rfl

theorem oneLine_sound : oneLine.Sound plainHost where
  terminated := by
    intro path bytes hb
    simp only [oneLine, start, files] at hb
    split at hb
    · rw [← Option.some.inj hb]
      exact terminated_line plainHost [] (.str "x")
    · cases hb
  lines := by
    intro e he
    rw [List.mem_singleton.mp he]
    refine Or.inl ⟨"2026-01-01", _, by rw [oneLine_path, oneLine_file], ?_⟩
    exact holdsLine_line plainHost [] (.str "x") (Or.inl rfl)
  removed := nofun
  batches := nofun

theorem oneLine_raises : raisedBy plainHost plainLimits (OverflowWriter.line plainHost (.str "x")) =
    none := by
  decide +kernel

/-- Reading the file back. -/
theorem oneLine_text : ∃ text, decodeUtf8 (OverflowWriter.line plainHost (.str "x")) = some text ∧
    (strippedLines text.toList).isEmpty = false ∧
    slices 100 (lineEvents plainHost (strippedLines text.toList)) = [[.str "x"]] := by
  refine ⟨_, decodeUtf8_utf8 _, ?_, ?_⟩ <;>
    rw [String.toList_append, show "\n".toList = ['\n'] from rfl, strippedLines_cons _ _ _ rfl,
      strippedLines_dumps plainHost plainHost_floats, strippedLines_nil]
  · rfl
  · rw [List.append_nil, lineEvents_dumps plainHost plainHost_floats]
    rfl

theorem oneLine_read : ∃ text, decodeUtf8 (OverflowWriter.line plainHost (.str "x")) = some text ∧
    replayReadWithin plainHost plainLimits "o/a1_2026-01-01.ndjson"
      (some (OverflowWriter.line plainHost (.str "x"))) =
        replayText plainHost "o/a1_2026-01-01.ndjson" text := by
  rcases replayRead_cases plainHost plainLimits "o/a1_2026-01-01.ndjson"
    (OverflowWriter.line plainHost (.str "x")) with ⟨e, hraised, -⟩ | ⟨-, text, htext, hread⟩
  · rw [oneLine_raises] at hraised
    cases hraised
  · exact ⟨text, htext, hread⟩

theorem listed_sample (w : OverflowWriter) (hw : w.dir = "o") :
    listed w (some [sampleName]) = ["o/a1_2026-01-01.ndjson"] := by
  have hname : isOverflowName sampleName = true := by decide
  simp only [listed, overflowNames, List.filter_cons, hname, if_true, List.filter_nil,
    List.mergeSort_singleton, List.map_cons, List.map_nil, hw]
  decide

/-- The file has been read, and its event accepted. -/
def oneSent : Trail :=
  (oneLine.read "o/a1_2026-01-01.ndjson").batchAnswered (.file "o/a1_2026-01-01.ndjson") [.str "x"]
    (plainClient.logBatch [.str "x"] acceptedAnswer)

/-- Replay up to the removal, on which the rest depends. -/
theorem oneLine_replay (others : Prop) (t' : Trail)
    (hrun : Runs (Moves plainHost True) (Answers plainHost plainClient others)
      (Audit.unlink "o/a1_2026-01-01.ndjson") oneSent (.returned ()) t') :
    Runs (Moves plainHost True) (Answers plainHost plainClient others)
      (replayWithin plainHost plainLimits oneLine.store.overflow) oneLine (.returned ()) t' := by
  have hnow : ∀ q t, (∀ path, q ≠ .unlink path) → Answers plainHost plainClient others t
      ⟨q, (answer plainHost plainClient ⟨acceptedAnswer, some [sampleName], ""⟩ q t).1⟩
      (answer plainHost plainClient ⟨acceptedAnswer, some [sampleName], ""⟩ q t).2 :=
    fun q t hq => ⟨⟨_, rfl⟩, fun _ path heq => absurd heq (hq path)⟩
  rw [replay_eq _ rfl]
  refine .ask _ _ _ _ _ _ _ (hnow .listDir oneLine fun _ he => by cases he) ?_
  show Runs _ _ (replayFilesWithin plainHost plainLimits
    (listed oneLine.store.overflow (some [sampleName]))) _ _ _
  rw [listed_sample _ rfl]
  refine Runs.bind (a := ()) (?_ : Runs _ _ _ _ _ t') (.done () t')
  refine .ask _ _ _ _ _ _ _ (hnow (.readFile "o/a1_2026-01-01.ndjson") oneLine
    fun _ he => by cases he) ?_
  obtain ⟨text, htext, hne, hslices⟩ := oneLine_text
  obtain ⟨text', htext', hread⟩ := oneLine_read
  rw [htext] at htext'
  cases htext'
  show Runs _ _ (replayReadWithin plainHost plainLimits "o/a1_2026-01-01.ndjson"
    (some (OverflowWriter.line plainHost (.str "x")))) _ _ _
  rw [hread]
  simp only [replayText, hne, hslices, if_neg Bool.false_ne_true]
  refine Runs.bind (a := true) (?_ : Runs _ _ _ _ _ oneSent) hrun
  refine .ask _ _ _ _ _ _ _ (hnow (.logBatch (.file "o/a1_2026-01-01.ndjson") [.str "x"]) _
    fun _ he => by cases he) ?_
  exact .done true oneSent

/-- Between the batch and the removal another thread writes `y` to the file of the next day. -/
def otherDay : Trail := oneSent.write plainHost "2026-01-02" (.str "y")

theorem otherDay_ready : (oneSent.store.onDay "2026-01-02").Ready :=
  ⟨rfl, rfl, fun _ hb => by cases hb⟩

theorem otherDay_file :
    otherDay.files "o/a1_2026-01-01.ndjson" = otherDay.readBack "o/a1_2026-01-01.ndjson" := by
  have hpath : "o/a1_2026-01-01.ndjson" ≠ oneSent.store.overflow.currentPath "2026-01-02" := by
    decide
  rcases write_cases plainHost "2026-01-02" (.str "y") oneSent with ⟨-, hfiles⟩ | ⟨-, -, hfiles⟩
  · rw [otherDay, hfiles, Function.update_of_ne hpath]
    rfl
  · rw [otherDay, hfiles]
    rfl

/-- The file goes as it was read, so neither event is lost. -/
theorem no_written_event_lost_otherDay :
    ((otherDay.unlink "o/a1_2026-01-01.ndjson").OnDisk plainHost (.str "x") ∨
      (otherDay.unlink "o/a1_2026-01-01.ndjson").Accepted plainHost (.str "x")) ∧
    ((otherDay.unlink "o/a1_2026-01-01.ndjson").OnDisk plainHost (.str "y") ∨
      (otherDay.unlink "o/a1_2026-01-01.ndjson").Accepted plainHost (.str "y")) := by
  have hwritten : (otherDay.unlink "o/a1_2026-01-01.ndjson").written = [.str "x", .str "y"] := by
    rw [unlink_written, otherDay, write, if_pos otherDay_ready]
    rfl
  have hkept := no_written_event_lost plainHost_floats oneLine.store.overflow oneLine
    (otherDay.unlink "o/a1_2026-01-01.ndjson") (.returned ()) oneLine_sound
    (oneLine_replay True _ ?_)
  · rw [hwritten] at hkept
    exact ⟨hkept _ List.mem_cons_self, hkept _ (List.mem_cons_of_mem _ List.mem_cons_self)⟩
  · refine .move _ _ _ _ _ (.write oneSent "2026-01-02" (.str "y") trivial) ?_
    refine .ask _ _ () _ _ _ _ ⟨⟨⟨acceptedAnswer, none, ""⟩, rfl⟩, fun _ path heq => ?_⟩ (.done () _)
    cases heq
    exact otherDay_file

/-- Between the batch and the removal another thread writes `y`: it is gone. -/
theorem written_event_lost :
    ¬ ∀ (t t' : Trail) (r : Result (Exc Empty) Unit), t.Sound plainHost →
      Runs (Moves plainHost True) (Answers plainHost plainClient False)
        (replayWithin plainHost plainLimits t.store.overflow) t r t' →
      ∀ e ∈ t'.written, t'.OnDisk plainHost e ∨ t'.Accepted plainHost e := by
  intro hall
  have hrun := oneLine_replay False
    ((oneSent.write plainHost "2026-01-01" (.str "y")).unlink "o/a1_2026-01-01.ndjson")
    (.move _ _ _ _ _ (.write oneSent "2026-01-01" (.str "y") trivial)
      (.ask _ _ () _ _ _ _ ⟨⟨⟨acceptedAnswer, none, ""⟩, rfl⟩, False.elim⟩ (.done () _)))
  have hready : (oneSent.store.onDay "2026-01-01").Ready := by
    refine ⟨rfl, rfl, fun bytes hb => ?_⟩
    have hb : oneLine.files (oneLine.store.overflow.currentPath "2026-01-01") = some bytes := hb
    rw [oneLine_path, oneLine_file] at hb
    rw [← Option.some.inj hb, line_eq]
    simp [Json.dumpsStr_toList, PyVal.dumps, PyVal.jsonEscape, utf8Chars, String.utf8EncodeChar,
      quoteChar, backslash, maxOverflowFileBytes]
  have hwritten : PyVal.str "y" ∈ (oneSent.write plainHost "2026-01-01" (.str "y")).written := by
    simp [write, hready]
  have hgone : ∀ path, ((oneSent.write plainHost "2026-01-01" (.str "y")).unlink
      "o/a1_2026-01-01.ndjson").files path = none := by
    intro path
    rw [unlink_files]
    by_cases hp : path = "o/a1_2026-01-01.ndjson"
    · rw [hp, Function.update_self]
    · have hnone : oneSent.files path = none := if_neg hp
      rw [Function.update_of_ne hp]
      rcases write_cases plainHost "2026-01-01" (.str "y") oneSent with ⟨-, hfiles⟩ | ⟨-, -, hfiles⟩
      · rw [hfiles, Function.update_of_ne, hnone]
        rw [show oneSent.store.overflow.currentPath "2026-01-01" = _ from oneLine_path]
        exact hp
      · rw [hfiles, hnone]
  have hlost := hall oneLine _ _ oneLine_sound hrun (.str "y") (by rwa [unlink_written])
  rcases hlost with ⟨day, bytes, hfile, -⟩ | haccepted
  · rw [hgone] at hfile
    cases hfile
  · unfold Accepted at haccepted
    rw [unlink_accepted] at haccepted
    have hx : (oneSent.write plainHost "2026-01-01" (.str "y")).accepted = [.str "x"] := rfl
    rw [hx] at haccepted
    simp [Json.asJson] at haccepted

end Trail

end Sigil.Audit
