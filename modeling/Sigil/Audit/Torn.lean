import Sigil.Audit.Damage
import Sigil.Python.Balance
import Mathlib.Data.List.Perm.Subperm

/-! # Torn writes

A write may leave only the first bytes of its line. The next one then goes on where it stopped, and
of the line that results nothing can be read. So a torn write costs itself and the write after it.
Where torn lines nest beyond the interpreter's limit, the replay does not get past their file.
-/
set_option autoImplicit false

namespace Sigil.Audit

open Dialogue (run)
open Json (FloatTexts Limits asJson)
open OverflowWriter (pathJoin line append)
open PyVal (dumps)
open Grouping (group groups groups_append groups_perm)

/-! ## A file with torn lines in it -/

/-- The bytes after the last newline. -/
def unfinished (bytes : List UInt8) : List UInt8 := (bytes.reverse.takeWhile (· ≠ 10)).reverse

/-- The lines of a file, from which some events are read, and what comes after the last of them:
nothing, or something that began with an object. -/
structure Split (h : Host) (events : List PyVal) (bytes : List UInt8) (lines tail : List Char) :
    Prop where
  bytes_eq : bytes = utf8Chars (lines ++ tail)
  lines_end : lines = [] ∨ ∃ front, lines = front ++ ['\n']
  tail_line : ∀ c ∈ tail, isNewline c = false
  tail_begin : tail = [] ∨ ∃ cs, tail = Char.ofNat 0x7b :: cs
  read : lineEvents h (strippedLines lines) = events

theorem utf8Chars_take (cs : List Char) (hcs : Ascii cs) (n : ℕ) :
    (utf8Chars cs).take n = utf8Chars (cs.take n) := by
  induction cs generalizing n with
  | nil => rw [utf8Chars_nil, List.take_nil, List.take_nil, utf8Chars_nil]
  | cons c cs ih =>
    cases n with
    | zero => rfl
    | succ n =>
      rw [utf8Chars_cons, encode_ascii c (hcs c List.mem_cons_self), List.singleton_append,
        List.take_succ_cons, List.take_succ_cons, ih fun d hd => hcs d (List.mem_cons_of_mem c hd),
        utf8Chars_cons, encode_ascii c (hcs c List.mem_cons_self), List.singleton_append]

theorem utf8Chars_length (cs : List Char) (hcs : Ascii cs) : (utf8Chars cs).length = cs.length := by
  induction cs with
  | nil => rfl
  | cons c cs ih =>
    rw [utf8Chars_cons, encode_ascii c (hcs c List.mem_cons_self), List.singleton_append,
      List.length_cons, List.length_cons, ih fun d hd => hcs d (List.mem_cons_of_mem c hd)]

theorem strippedLines_lines (lines cs : List Char)
    (hlines : lines = [] ∨ ∃ front, lines = front ++ ['\n']) :
    strippedLines (lines ++ cs) = strippedLines lines ++ strippedLines cs := by
  rcases hlines with rfl | ⟨front, rfl⟩
  · rw [strippedLines_nil, List.nil_append, List.nil_append]
  · rw [List.append_assoc, List.singleton_append, strippedLines_cons _ _ _ rfl,
      strippedLines_cons _ _ _ rfl, strippedLines_nil, List.append_nil]

/-- One line, with nothing to strip from it. -/
theorem strippedLines_one (c d : Char) (cs : List Char)
    (hline : ∀ e ∈ c :: (cs ++ [d]), isNewline e = false) (hc : isSpace c = false)
    (hd : isSpace d = false) : strippedLines (c :: (cs ++ [d])) = [c :: (cs ++ [d])] := by
  have hstrip : strip (c :: (cs ++ [d])) = c :: (cs ++ [d]) := by
    rw [strip, List.dropWhile_cons_of_neg (by simp [hc]), ← List.cons_append, List.reverse_append,
      List.reverse_singleton, List.singleton_append, List.dropWhile_cons_of_neg (by simp [hd]),
      List.reverse_cons, List.reverse_reverse]
  rw [strippedLines, List.splitOnP_eq_singleton hline, List.map_singleton, hstrip]
  rfl

/-- A whole object is read back from the beginning of a line, and from nowhere else. -/
theorem lineEvents_behind (h : Host) (hf : FloatTexts h) (tail : List Char)
    (hline : ∀ c ∈ tail, isNewline c = false)
    (hbegin : tail = [] ∨ ∃ cs, tail = Char.ofNat 0x7b :: cs) (kvs : List (PyKey × PyVal)) :
    lineEvents h (strippedLines (tail ++ (dumps h true (.dict kvs)).toList)) =
      if tail = [] then [asJson h (.dict kvs)] else [] := by
  rcases hbegin with rfl | ⟨front, rfl⟩
  · rw [List.nil_append, strippedLines_dumps h hf, lineEvents_dumps h hf, if_pos rfl]
  · obtain ⟨cs, htext, -⟩ := Json.dumps_object h hf kvs
    have hbehind := Json.loads_behind h hf front kvs
    have hprintable := dumps_printable h hf (.dict kvs)
    rw [htext] at hbehind hprintable ⊢
    have hone := strippedLines_one (Char.ofNat 0x7b) (Char.ofNat 0x7d)
      (front ++ Char.ofNat 0x7b :: cs) (fun e he => ?_) (by decide) (by decide)
    · have hsame : Char.ofNat 0x7b :: front ++ Char.ofNat 0x7b :: (cs ++ [Char.ofNat 0x7d]) =
          Char.ofNat 0x7b :: (front ++ Char.ofNat 0x7b :: cs ++ [Char.ofNat 0x7d]) := by simp
      rw [hsame] at hbehind ⊢
      rw [hone, if_neg (List.cons_ne_nil _ _), lineEvents, List.filterMap_cons, hbehind]
      rfl
    · have hcases : e ∈ Char.ofNat 0x7b :: front ∨
          e ∈ Char.ofNat 0x7b :: (cs ++ [Char.ofNat 0x7d]) := by
        simp only [List.mem_cons, List.mem_append] at he ⊢
        tauto
      rcases hcases with he | he
      · exact hline e he
      · exact printable_noNewline hprintable e he

theorem line_length (h : Host) (hf : FloatTexts h) (e : PyVal) :
    (line h e).length = (dumps h true e).toList.length + 1 := by
  rw [line_eq, List.length_append, utf8Chars_length _ (dumps_printable h hf e).ascii]
  rfl

namespace Split

variable {h : Host} {events : List PyVal} {bytes : List UInt8} {lines tail : List Char}

theorem empty (h : Host) : Split h [] [] [] [] where
  bytes_eq := rfl
  lines_end := Or.inl rfl
  tail_line := fun _ hc => absurd hc List.not_mem_nil
  tail_begin := Or.inl rfl
  read := by
    rw [strippedLines_nil]
    rfl

/-- The file ends in a newline if nothing comes after its lines. -/
theorem terminated_iff (hs : Split h events bytes lines tail) : Terminated bytes ↔ tail = [] := by
  constructor
  · intro hterm
    rw [hs.bytes_eq] at hterm
    by_contra hne
    obtain ⟨front, c, rfl⟩ : ∃ front c, tail = front ++ [c] :=
      ⟨_, _, (List.dropLast_append_getLast hne).symm⟩
    rcases terminated_chars _ hterm with hnil | ⟨front', heq⟩
    · simp at hnil
    · rw [← List.append_assoc] at heq
      obtain rfl : c = '\n' := by
        have := congrArg List.getLast? heq
        simpa using this
      have hnot := hs.tail_line '\n' (List.mem_append_right _ (List.mem_singleton_self _))
      cases hnot
  · rintro rfl
    rw [hs.bytes_eq, List.append_nil]
    rcases hs.lines_end with rfl | ⟨front, rfl⟩
    · exact Or.inl rfl
    · refine Or.inr ⟨utf8Chars front, ?_⟩
      rw [utf8Chars_append]
      exact congrArg _ (by decide)

/-- A whole line ends whatever was there before it. -/
theorem whole (hf : FloatTexts h) (hs : Split h events bytes lines tail)
    (kvs : List (PyKey × PyVal)) :
    Split h (events ++ if tail = [] then [asJson h (.dict kvs)] else [])
      (bytes ++ line h (.dict kvs))
      (lines ++ (tail ++ (dumps h true (.dict kvs)).toList ++ ['\n'])) [] where
  bytes_eq := by
    have hnl : utf8Chars ['\n'] = [10] := by decide
    rw [hs.bytes_eq, line_eq, List.append_nil, utf8Chars_append, utf8Chars_append, utf8Chars_append,
      utf8Chars_append, hnl]
    simp only [List.append_assoc]
  lines_end := Or.inr ⟨lines ++ (tail ++ (dumps h true (.dict kvs)).toList), by
    simp only [List.append_assoc]⟩
  tail_line := fun _ hc => absurd hc List.not_mem_nil
  tail_begin := Or.inl rfl
  read := by
    rw [strippedLines_lines _ _ hs.lines_end, strippedLines_cons _ [] _ rfl, strippedLines_nil,
      List.append_nil, lineEvents_append, hs.read,
      lineEvents_behind h hf tail hs.tail_line hs.tail_begin]

/-- Part of a line leaves the lines as they were. -/
theorem torn (hf : FloatTexts h) (hs : Split h events bytes lines tail)
    (kvs : List (PyKey × PyVal)) (n : ℕ) (hn : n < (line h (.dict kvs)).length) :
    Split h events (bytes ++ (line h (.dict kvs)).take n) lines
      (tail ++ (dumps h true (.dict kvs)).toList.take n) where
  bytes_eq := by
    have hprintable := dumps_printable h hf (.dict kvs)
    have hle : n ≤ (utf8Chars (dumps h true (.dict kvs)).toList).length := by
      rw [line_length h hf] at hn
      rw [utf8Chars_length _ hprintable.ascii]
      omega
    rw [hs.bytes_eq, line_eq, List.take_append_of_le_length hle,
      utf8Chars_take _ hprintable.ascii, ← utf8Chars_append, List.append_assoc]
  lines_end := hs.lines_end
  tail_line := by
    intro c hc
    rcases List.mem_append.mp hc with hc | hc
    · exact hs.tail_line c hc
    · exact printable_noNewline (dumps_printable h hf (.dict kvs)) c (List.mem_of_mem_take hc)
  tail_begin := by
    rcases hs.tail_begin with rfl | ⟨cs, rfl⟩
    · obtain ⟨cs, htext, -⟩ := Json.dumps_object h hf kvs
      rw [htext]
      cases n with
      | zero => exact Or.inl rfl
      | succ n => exact Or.inr ⟨_, rfl⟩
    · exact Or.inr ⟨_, rfl⟩
  read := hs.read

/-- The tail of a file is what is unfinished. -/
theorem unfinished_eq (hs : Split h events bytes lines tail) : unfinished bytes = utf8Chars tail := by
  have htail : ∀ b ∈ (utf8Chars tail).reverse, decide (b ≠ 10) = true := by
    intro b hb
    obtain ⟨c, hc, hb⟩ := List.mem_flatMap.mp (List.mem_reverse.mp hb)
    have hnot := encode_no_newline c (hs.tail_line c hc) b hb
    rw [decide_eq_true_iff]
    rintro rfl
    cases hnot
  have hlines : (utf8Chars lines).reverse.takeWhile (fun b => decide (b ≠ 10)) = [] := by
    rcases hs.lines_end with rfl | ⟨front, rfl⟩
    · rfl
    · have hnl : utf8Chars ['\n'] = [10] := by decide
      rw [utf8Chars_append, hnl, List.reverse_append, List.reverse_singleton, List.singleton_append,
        List.takeWhile_cons_of_neg (by decide)]
  rw [unfinished, hs.bytes_eq, utf8Chars_append, List.reverse_append,
    List.takeWhile_append_of_pos htail, hlines, List.append_nil, List.reverse_reverse]

/-- **What is read of a file with torn lines in it.** -/
theorem eventsOf_eq (hs : Split h events bytes lines tail) :
    eventsOf h bytes = events ++ eventsOf h (unfinished bytes) := by
  rw [hs.unfinished_eq, hs.bytes_eq, eventsOf, eventsOf, decodeUtf8_utf8Chars,
    decodeUtf8_utf8Chars]
  simp only [String.toList_ofList]
  rw [strippedLines_lines _ _ hs.lines_end, lineEvents_append, hs.read]

end Split

/-! ## Writes that may be torn -/

namespace OverflowWriter

/-- `write`, when only the first `n` bytes of the line reach the file. -/
def writeTorn (h : Host) (w : OverflowWriter) (disk : Disk) (today : String) (event : PyVal)
    (n : ℕ) : Disk :=
  if !w.writable then disk
  else if (disk.files (w.currentPath today)).any
      fun bytes => decide (maxOverflowFileBytes ≤ bytes.length) then disk
  else append disk (w.currentPath today) ((line h event).take n)

/-- With all its bytes it is `write`. -/
theorem writeTorn_whole (h : Host) (w : OverflowWriter) (disk : Disk) (today : String)
    (event : PyVal) (n : ℕ) (hn : (line h event).length ≤ n) :
    w.writeTorn h disk today event n = (w.write h disk today event).2 := by
  rw [writeTorn, write, List.take_of_length_le hn]
  split
  · rfl
  · split <;> rfl

theorem writeTorn_canOpen (h : Host) (w : OverflowWriter) (disk : Disk) (today : String)
    (event : PyVal) (n : ℕ) : (w.writeTorn h disk today event n).canOpen = disk.canOpen := by
  rw [writeTorn]
  split
  · rfl
  · split
    · rfl
    · rw [append]
      split <;> rfl

theorem writeTorn_files (h : Host) (w : OverflowWriter) (disk : Disk) (today : String)
    (event : PyVal) (n : ℕ) : (w.writeTorn h disk today event n).files =
      if w.Ready disk today then
        Function.update disk.files (w.currentPath today)
          (some ((disk.files (w.currentPath today)).getD [] ++ (line h event).take n))
      else disk.files := by
  by_cases hready : w.Ready disk today
  · have hcap : ((disk.files (w.currentPath today)).any
        fun bytes => decide (maxOverflowFileBytes ≤ bytes.length)) = false := by
      cases hf : disk.files (w.currentPath today) with
      | none => rfl
      | some bytes => simpa using hready.belowCap bytes hf
    rw [writeTorn, hready.writable, hcap, append, if_pos hready.canOpen, if_pos hready]
    rfl
  · rw [if_neg hready, writeTorn]
    split
    · rfl
    · split
      · rfl
      · next hwritable hcap =>
        have hclosed : ¬ disk.canOpen (w.currentPath today) = true := by
          intro hopen
          refine hready ⟨by simpa using hwritable, hopen, fun bytes hbytes => ?_⟩
          simpa [hbytes] using hcap
        rw [append, if_neg hclosed]

end OverflowWriter

instance (bytes : List UInt8) : Decidable (Terminated bytes) :=
  decidable_of_iff (bytes = [] ∨ bytes.getLast? = some 10)
    (or_congr_right List.getLast?_eq_some_iff)

/-- A call of `write` for a dict, and how many bytes of its line reach the file. -/
structure Attempt where
  date : Date
  event : List (PyKey × PyVal)
  bytes : ℕ

def Attempt.path (w : OverflowWriter) (a : Attempt) : String := w.currentPath a.date.format

def Attempt.json (h : Host) (a : Attempt) : PyVal := asJson h (.dict a.event)

/-- What some calls have left: the files, and the calls whose whole line was written, apart by
whether it began a line of the file or went on in one. -/
structure Torn where
  disk : Disk
  fresh : List Attempt
  merged : List Attempt

namespace Torn

/-- The whole line is written. -/
def Complete (h : Host) (w : OverflowWriter) (s : Torn) (a : Attempt) : Prop :=
  w.Ready s.disk a.date.format ∧ (line h (.dict a.event)).length ≤ a.bytes

/-- The file is empty, or ends in a newline. -/
def Fresh (w : OverflowWriter) (s : Torn) (a : Attempt) : Prop :=
  Terminated ((s.disk.files (a.path w)).getD [])

instance (h : Host) (w : OverflowWriter) (s : Torn) (a : Attempt) : Decidable (s.Complete h w a) :=
  inferInstanceAs (Decidable (_ ∧ _))

instance (w : OverflowWriter) (s : Torn) (a : Attempt) : Decidable (s.Fresh w a) :=
  inferInstanceAs (Decidable (Terminated _))

/-- One call. A process that was restarted has a writer of the same directory and agent, and nothing
else of the writer matters. -/
def attempt (h : Host) (w : OverflowWriter) (s : Torn) (a : Attempt) : Torn where
  disk := w.writeTorn h s.disk a.date.format (.dict a.event) a.bytes
  fresh := s.fresh ++ if s.Complete h w a ∧ s.Fresh w a then [a] else []
  merged := s.merged ++ if s.Complete h w a ∧ ¬ s.Fresh w a then [a] else []

def attempts (h : Host) (w : OverflowWriter) (as : List Attempt) (s : Torn) : Torn :=
  as.foldl (attempt h w) s

/-- What is read of the lines of a file is what was written whole at the beginning of a line. -/
def Reads (h : Host) (w : OverflowWriter) (path : String) (s : Torn) : Prop :=
  ∃ lines tail, Split h ((group (Attempt.path w) s.fresh path).map (Attempt.json h))
    ((s.disk.files path).getD []) lines tail

variable {h : Host} {w : OverflowWriter}

theorem attempt_bytes (s : Torn) (a : Attempt) (path : String) :
    ((s.attempt h w a).disk.files path).getD [] = (s.disk.files path).getD [] ++
      if w.Ready s.disk a.date.format ∧ a.path w = path then (line h (.dict a.event)).take a.bytes
      else [] := by
  show ((w.writeTorn h s.disk a.date.format (.dict a.event) a.bytes).files path).getD [] = _
  rw [OverflowWriter.writeTorn_files]
  by_cases hready : w.Ready s.disk a.date.format
  · by_cases hp : a.path w = path
    · rw [if_pos hready, if_pos ⟨hready, hp⟩, ← hp]
      show (Function.update s.disk.files (a.path w) _ (a.path w)).getD [] = _
      rw [Function.update_self]
      rfl
    · rw [if_pos hready, if_neg fun hboth => hp hboth.2, List.append_nil]
      show (Function.update s.disk.files (a.path w) _ path).getD [] = _
      rw [Function.update_of_ne (Ne.symm hp)]
  · rw [if_neg hready, if_neg fun hboth => hready hboth.1, List.append_nil]

theorem attempt_group (s : Torn) (a : Attempt) (path : String) :
    group (Attempt.path w) (s.attempt h w a).fresh path = group (Attempt.path w) s.fresh path ++
      if (s.Complete h w a ∧ s.Fresh w a) ∧ a.path w = path then [a] else [] := by
  show group (Attempt.path w) (s.fresh ++ if _ then [a] else []) path = _
  rw [group, List.filter_append, group]
  by_cases hboth : s.Complete h w a ∧ s.Fresh w a
  · by_cases hp : a.path w = path
    · rw [if_pos hboth, if_pos ⟨hboth, hp⟩, List.filter_cons_of_pos (by simp [hp]), List.filter_nil]
    · rw [if_pos hboth, if_neg fun hall => hp hall.2, List.filter_cons_of_neg (by simp [hp]),
        List.filter_nil]
  · rw [if_neg hboth, if_neg fun hall => hboth hall.1, List.filter_nil]

/-- One call keeps it. -/
theorem attempt_reads (hf : FloatTexts h) (s : Torn) (a : Attempt) (path : String)
    (hs : s.Reads h w path) : (s.attempt h w a).Reads h w path := by
  obtain ⟨lines, tail, hsplit⟩ := hs
  rw [Reads, attempt_bytes, attempt_group]
  by_cases hgrow : w.Ready s.disk a.date.format ∧ a.path w = path
  · rw [if_pos hgrow]
    have hfresh : s.Fresh w a ↔ tail = [] := by
      rw [Fresh, hgrow.2]
      exact hsplit.terminated_iff
    by_cases hwhole : (line h (.dict a.event)).length ≤ a.bytes
    · have hjson : (if (s.Complete h w a ∧ s.Fresh w a) ∧ a.path w = path then [a] else []).map
          (Attempt.json h) = if tail = [] then [asJson h (.dict a.event)] else [] := by
        by_cases htail : tail = []
        · rw [if_pos ⟨⟨⟨hgrow.1, hwhole⟩, hfresh.mpr htail⟩, hgrow.2⟩, if_pos htail]
          rfl
        · rw [if_neg fun hall => htail (hfresh.mp hall.1.2), if_neg htail]
          rfl
      rw [List.map_append, hjson, List.take_of_length_le hwhole]
      exact ⟨_, _, hsplit.whole hf a.event⟩
    · have hnot : ¬ ((s.Complete h w a ∧ s.Fresh w a) ∧ a.path w = path) :=
        fun hall => hwhole hall.1.1.2
      rw [if_neg hnot, List.append_nil]
      exact ⟨_, _, hsplit.torn hf a.event a.bytes (Nat.lt_of_not_le hwhole)⟩
  · -- the file is as it was
    have hnot : ¬ ((s.Complete h w a ∧ s.Fresh w a) ∧ a.path w = path) :=
      fun hall => hgrow ⟨hall.1.1.1, hall.2⟩
    rw [if_neg hgrow, if_neg hnot, List.append_nil, List.append_nil]
    exact ⟨lines, tail, hsplit⟩

theorem attempts_reads (hf : FloatTexts h) (as : List Attempt) (s : Torn) (path : String)
    (hs : s.Reads h w path) : (attempts h w as s).Reads h w path := by
  induction as generalizing s with
  | nil => exact hs
  | cons a as ih => exact ih _ (attempt_reads hf s a path hs)

/-- What the calls of `write` leave of a disk. -/
def after (h : Host) (w : OverflowWriter) (disk : Disk) (as : List Attempt) : Torn :=
  attempts h w as ⟨disk, [], []⟩

theorem after_reads (hf : FloatTexts h) (disk : Disk) (as : List Attempt) (path : String)
    (hnone : disk.files path = none) : (after h w disk as).Reads h w path := by
  refine attempts_reads hf as _ path ⟨[], [], ?_⟩
  show Split h [] ((disk.files path).getD []) [] []
  rw [hnone]
  exact Split.empty h

/-- A file that events are read from is there. -/
theorem Reads.isSome {s : Torn} {path : String} (hs : s.Reads h w path)
    (hne : group (Attempt.path w) s.fresh path ≠ []) : (s.disk.files path).isSome = true := by
  obtain ⟨lines, tail, hsplit⟩ := hs
  cases hfile : s.disk.files path with
  | some bytes => rfl
  | none =>
    have hread := hsplit.read
    have hnil := hsplit.bytes_eq
    rw [hfile] at hnil
    rw [(List.append_eq_nil_iff.mp (utf8Chars_eq_nil _ hnil.symm)).1, strippedLines_nil] at hread
    exact absurd (List.map_eq_nil_iff.mp hread.symm) hne

end Torn

namespace Trail

variable {h : Host} {L : Limits} {c : SigilClient} {q : Quiet}

/-- The events that a replay reads from behind the last newlines of the files. -/
def unfinishedEvents (h : Host) (L : Limits) (q : Quiet) (t : Trail) : List PyVal :=
  ((q.paths t).takeWhile (t.readable h L)).flatMap fun path =>
    eventsOf h (unfinished ((t.files path).getD []))

/-- The whole lines of the files that a replay does not get to. -/
def blockedWrites (h : Host) (L : Limits) (q : Quiet) (w : OverflowWriter) (s : Torn) (t : Trail) :
    List Attempt :=
  groups (Attempt.path w) ((q.paths t).dropWhile (t.readable h L)) s.fresh

/-- Calls of one writer, in an empty directory. -/
structure Tearing (h : Host) (q : Quiet) (store : Store) (as : List Attempt) : Prop where
  agentId : '/' ∉ store.overflow.agentId.toList
  writable : store.overflow.writable = true
  dir : store.overflow.dir = q.dir
  empty : ∀ name, '/' ∉ name.toList → store.disk.files (pathJoin q.dir name) = none
  shown : q.Shows (start { store with disk := (Torn.after h store.overflow store.disk as).disk })

namespace Tearing

variable {store : Store} {as : List Attempt} (ht : Tearing h q store as)

include ht

theorem path_eq (a : Attempt) :
    a.path store.overflow = pathJoin q.dir (fileName store.overflow.agentId a.date) := by
  rw [← ht.dir]
  rfl

theorem mem_paths (hf : FloatTexts h) (a : Attempt)
    (ha : a ∈ (Torn.after h store.overflow store.disk as).fresh) : a.path store.overflow ∈
      q.paths (start { store with disk := (Torn.after h store.overflow store.disk as).disk }) := by
  have hplain := fileName_plain store.overflow.agentId ht.agentId a.date
  have hnone : store.disk.files (a.path store.overflow) = none := by
    rw [ht.path_eq]
    exact ht.empty _ hplain
  have hgroup : a ∈ group (Attempt.path store.overflow)
      (Torn.after h store.overflow store.disk as).fresh (a.path store.overflow) :=
    List.mem_filter.mpr ⟨ha, by simp⟩
  have hfile := (Torn.after_reads (w := store.overflow) hf store.disk as _ hnone).isSome
    (List.ne_nil_of_mem hgroup)
  rw [ht.path_eq] at hfile ⊢
  exact (q.mem_paths _ _).mpr ⟨_, ht.shown _ hplain hfile, fileName_overflow _ _, rfl, hfile⟩

/-- A file that is there has the lines that were written. -/
theorem split (hf : FloatTexts h) (path : String) (hpath : path ∈
      q.paths (start { store with disk := (Torn.after h store.overflow store.disk as).disk })) :
    ∃ bytes lines tail, (Torn.after h store.overflow store.disk as).disk.files path = some bytes ∧
      Split h ((group (Attempt.path store.overflow)
        (Torn.after h store.overflow store.disk as).fresh path).map (Attempt.json h))
        bytes lines tail := by
  obtain ⟨name, hname, -, rfl, hfile⟩ := (q.mem_paths _ path).mp hpath
  obtain ⟨lines, tail, hsplit⟩ := Torn.after_reads (w := store.overflow) hf store.disk as _
    (ht.empty name (q.plain name hname))
  obtain ⟨bytes, hbytes⟩ := Option.isSome_iff_exists.mp hfile
  have hbytes' : (Torn.after h store.overflow store.disk as).disk.files (pathJoin q.dir name) =
      some bytes := hbytes
  rw [hbytes', Option.getD_some] at hsplit
  exact ⟨bytes, lines, tail, hbytes', hsplit⟩

/-- What is read of it, if it can be read. -/
theorem file (hf : FloatTexts h) (path : String) (hpath : path ∈
      q.paths (start { store with disk := (Torn.after h store.overflow store.disk as).disk })) :
    let t := start { store with disk := (Torn.after h store.overflow store.disk as).disk }
    eventsIn h t path = (group (Attempt.path store.overflow)
        (Torn.after h store.overflow store.disk as).fresh path).map (Attempt.json h) ++
      eventsOf h (unfinished ((t.files path).getD [])) := by
  intro t
  obtain ⟨bytes, lines, tail, hbytes, hsplit⟩ := ht.split hf path hpath
  have hfile : t.files path = some bytes := hbytes
  rw [eventsIn, hfile, Option.map_some, Option.getD_some, Option.getD_some]
  exact hsplit.eventsOf_eq

/-- Without limits it can: torn lines are text. -/
theorem readable_off (hf : FloatTexts h) (path : String) (hpath : path ∈
      q.paths (start { store with disk := (Torn.after h store.overflow store.disk as).disk })) :
    (start { store with disk := (Torn.after h store.overflow store.disk as).disk }).readable h .off
      path = true := by
  obtain ⟨bytes, lines, tail, hbytes, hsplit⟩ := ht.split hf path hpath
  have hfile : (start { store with
      disk := (Torn.after h store.overflow store.disk as).disk }).files path = some bytes := hbytes
  rw [readable, hfile, Option.all_some, hsplit.bytes_eq,
    raisedBy_off h _ _ (decodeUtf8_utf8Chars _)]
  rfl

/-- So without limits a replay gets to every file. -/
theorem blockedWrites_off (hf : FloatTexts h) :
    let s := Torn.after h store.overflow store.disk as
    blockedWrites h .off q store.overflow s (start { store with disk := s.disk }) = [] := by
  intro s
  rw [blockedWrites, List.dropWhile_eq_nil_iff.mpr (ht.readable_off hf)]
  rfl

/-- The whole lines, apart by whether the replay gets to their file. -/
theorem fresh_perm (hf : FloatTexts h) (L : Limits) :
    let s := Torn.after h store.overflow store.disk as
    let t := start { store with disk := s.disk }
    (groups (Attempt.path store.overflow) ((q.paths t).takeWhile (t.readable h L)) s.fresh ++
      blockedWrites h L q store.overflow s t).Perm s.fresh := by
  intro s t
  rw [blockedWrites, ← groups_append, List.takeWhile_append_dropWhile]
  exact groups_perm (Attempt.path store.overflow) (q.paths t) (q.paths_nodup t) s.fresh
    (ht.mem_paths hf)

/-- **What a replay delivers after torn writes**, in some order. -/
theorem delivered (hf : FloatTexts h) :
    let s := Torn.after h store.overflow store.disk as
    let t := start { store with disk := s.disk }
    ((run (q.env h c) (replayWithin h L store.overflow) t).final.sent.flatMap Prod.snd).Perm
      ((groups (Attempt.path store.overflow) ((q.paths t).takeWhile (t.readable h L)) s.fresh).map
        (Attempt.json h) ++ unfinishedEvents h L q t) := by
  intro s t
  obtain ⟨-, hreplayed⟩ := replay_quiet (h := h) (L := L) (c := c) (q := q) store.overflow
    ht.writable ht.dir t
  have hsent : (run (q.env h c) (replayWithin h L store.overflow) t).final.sent =
      ((q.paths t).takeWhile (t.readable h L)).flatMap (batchesOf h t) := by
    rw [hreplayed.sent]
    exact List.nil_append _
  have hevents : ((q.paths t).takeWhile (t.readable h L)).flatMap (eventsIn h t) =
      ((q.paths t).takeWhile (t.readable h L)).flatMap fun path =>
        (group (Attempt.path store.overflow) s.fresh path).map (Attempt.json h) ++
          eventsOf h (unfinished ((t.files path).getD [])) :=
    List.flatMap_congr fun path hpath => ht.file hf path (List.takeWhile_subset _ hpath)
  rw [hsent, List.flatMap_assoc]
  simp only [batchesOf_events]
  rw [hevents, groups, List.map_flatMap]
  exact (List.flatMap_append_perm _ _ _).symm

end Tearing

/-- **When torn writes cost only themselves.** However the calls were cut, every event whose own
line was written whole is delivered, each as often as it was written, exactly when those that went
on in an unfinished line, and those in files that the replay does not get to, are made up for by
what the unfinished ends of the others happen to say. -/
theorem replay_complete_iff (hf : FloatTexts h) (store : Store) (as : List Attempt)
    (ht : Tearing h q store as) :
    let s := Torn.after h store.overflow store.disk as
    let t := start { store with disk := s.disk }
    let r := run (q.env h c) (replayWithin h L store.overflow) t
    ((s.fresh ++ s.merged).map (Attempt.json h)).Subperm (r.final.sent.flatMap Prod.snd) ↔
      ((blockedWrites h L q store.overflow s t ++ s.merged).map (Attempt.json h)).Subperm
        (unfinishedEvents h L q t) := by
  intro s t r
  have hwritten := ((ht.fresh_perm hf L).append_right s.merged).map (Attempt.json h)
  rw [List.append_assoc, List.map_append] at hwritten
  rw [(ht.delivered hf (L := L) (c := c)).subperm_left, ← hwritten.subperm_right]
  exact List.subperm_append_left _

/-! ## Two calls on one day -/

/-- Two calls for an empty object, of whose line `n` and then `m` bytes are written. -/
def twoCalls (n m : ℕ) : List Attempt := [⟨newYear, [], n⟩, ⟨newYear, [], m⟩]

def newYearPath : String := pathJoin "o" (fileName "a1" newYear)

theorem line_object : line plainHost (.dict []) = [0x7b, 0x7d, 10] := by
  rw [line_eq]
  simp [dumps, PyVal.dumpsEntries, utf8Chars, String.utf8EncodeChar]

theorem newYear_ready (disk : Disk) (hopen : disk.canOpen = fun _ => true)
    (hsmall : ((disk.files newYearPath).getD []).length < maxOverflowFileBytes) :
    (emptyStore "a1").overflow.Ready disk newYear.format where
  writable := rfl
  canOpen := by rw [hopen]
  belowCap := by
    intro bytes hbytes
    have hfile : disk.files newYearPath = some bytes := hbytes
    rwa [hfile] at hsmall

/-- After the first call. -/
def firstCall (n : ℕ) : Torn := Torn.after plainHost (emptyStore "a1").overflow (emptyStore "a1").disk
  [⟨newYear, [], n⟩]

theorem firstCall_bytes (n : ℕ) :
    ((firstCall n).disk.files newYearPath).getD [] = [0x7b, 0x7d, 10].take n := by
  have hready := newYear_ready (emptyStore "a1").disk rfl (by decide)
  have hbytes := Torn.attempt_bytes (h := plainHost) (w := (emptyStore "a1").overflow)
    ⟨(emptyStore "a1").disk, [], []⟩ ⟨newYear, [], n⟩ newYearPath
  rw [if_pos ⟨hready, rfl⟩, line_object] at hbytes
  exact hbytes

theorem firstCall_ready (n : ℕ) :
    (emptyStore "a1").overflow.Ready (firstCall n).disk newYear.format := by
  refine newYear_ready _ ?_ ?_
  · rw [firstCall, Torn.after, Torn.attempts, List.foldl_cons, List.foldl_nil, Torn.attempt,
      OverflowWriter.writeTorn_canOpen]
    rfl
  · rw [firstCall_bytes]
    exact Nat.lt_of_le_of_lt (List.take_sublist _ _).length_le (by simp [maxOverflowFileBytes])

theorem after_twoCalls (n m : ℕ) : Torn.after plainHost (emptyStore "a1").overflow
      (emptyStore "a1").disk (twoCalls n m) =
    (firstCall n).attempt plainHost (emptyStore "a1").overflow ⟨newYear, [], m⟩ := rfl

theorem twoCalls_bytes (n m : ℕ) : ((Torn.after plainHost (emptyStore "a1").overflow
      (emptyStore "a1").disk (twoCalls n m)).disk.files newYearPath).getD [] =
    [0x7b, 0x7d, 10].take n ++ [0x7b, 0x7d, 10].take m := by
  rw [after_twoCalls, Torn.attempt_bytes, if_pos ⟨firstCall_ready n, rfl⟩, line_object,
    firstCall_bytes]

/-- The second call goes on in the line of the first, if that was torn. -/
theorem twoCalls_merged (n m : ℕ) : (Torn.after plainHost (emptyStore "a1").overflow
      (emptyStore "a1").disk (twoCalls n m)).merged =
    if 3 ≤ m ∧ ¬ Terminated ([0x7b, 0x7d, 10].take n) then [⟨newYear, [], m⟩] else [] := by
  have hfirst : (firstCall n).merged = [] := if_neg fun hboth => hboth.2 (Or.inl rfl)
  have hcomplete : (firstCall n).Complete plainHost (emptyStore "a1").overflow ⟨newYear, [], m⟩ ↔
      3 ≤ m := by
    rw [Torn.Complete, line_object]
    exact and_iff_right (firstCall_ready n)
  have hfresh : (firstCall n).Fresh (emptyStore "a1").overflow ⟨newYear, [], m⟩ ↔
      Terminated ([0x7b, 0x7d, 10].take n) := by
    rw [← firstCall_bytes n]
    rfl
  show (firstCall n).merged ++ (if _ ∧ ¬ _ then [_] else []) = _
  rw [hfirst, List.nil_append]
  exact if_congr (and_congr hcomplete (not_congr hfresh)) rfl rfl

theorem oneFile_tearing (as : List Attempt) (hday : ∀ a ∈ as, a.date = newYear) :
    Tearing plainHost oneFile (emptyStore "a1") as where
  agentId := by decide
  writable := rfl
  dir := rfl
  empty := fun _ _ => rfl
  shown := by
    refine oneFile_shows _ fun path hfile => ?_
    by_contra hne
    have hnone : ∀ (as : List Attempt) (s : Torn), (∀ a ∈ as, a.date = newYear) →
        s.disk.files path = none →
        (Torn.attempts plainHost (emptyStore "a1").overflow as s).disk.files path = none := by
      intro as
      induction as with
      | nil => exact fun s _ hs => hs
      | cons a as ih =>
        intro s hday hs
        refine ih _ (fun b hb => hday b (List.mem_cons_of_mem a hb)) ?_
        show (OverflowWriter.writeTorn _ _ _ _ _ _).files path = none
        rw [OverflowWriter.writeTorn_files, hday a List.mem_cons_self]
        split
        · exact (Function.update_of_ne hne _ _).trans hs
        · exact hs
    have hgone := hnone as ⟨(emptyStore "a1").disk, [], []⟩ hday rfl
    have hfile' : ((Torn.after plainHost (emptyStore "a1").overflow (emptyStore "a1").disk
      as).disk.files path).isSome = true := hfile
    rw [Torn.after, hgone] at hfile'
    cases hfile'

theorem eventsOf_nil (h : Host) : eventsOf h [] = [] := by
  have hempty : decodeUtf8 [] = some "" := decodeUtf8_utf8Chars []
  rw [eventsOf, hempty]
  show lineEvents h (strippedLines []) = []
  rw [strippedLines_nil]
  rfl

/-- A whole line, and then a torn one. -/
def tornLast : Torn :=
  Torn.after plainHost (emptyStore "a1").overflow (emptyStore "a1").disk (twoCalls 3 1)

theorem tornLast_read (path : String)
    (hpath : path ∈ oneFile.paths (start { emptyStore "a1" with disk := tornLast.disk })) :
    (start { emptyStore "a1" with disk := tornLast.disk }).readable plainHost plainLimits path =
      true := by
  obtain ⟨name, hname, -, rfl, hfile⟩ := (oneFile.mem_paths _ _).mp hpath
  rw [List.mem_singleton.mp hname] at hfile ⊢
  obtain ⟨bytes, hbytes⟩ := Option.isSome_iff_exists.mp hfile
  have hfile' : tornLast.disk.files newYearPath = some bytes := hbytes
  have htwo := twoCalls_bytes 3 1
  rw [← tornLast, hfile', Option.getD_some] at htwo
  rw [readable, hbytes, Option.all_some, htwo]
  decide +kernel

theorem replay_complete_torn_last :
    let t := start { emptyStore "a1" with disk := tornLast.disk }
    let r := run (oneFile.env plainHost plainClient)
      (replayWithin plainHost plainLimits (emptyStore "a1").overflow) t
    ((tornLast.fresh ++ tornLast.merged).map (Attempt.json plainHost)).Subperm
      (r.final.sent.flatMap Prod.snd) := by
  have hblocked : blockedWrites plainHost plainLimits oneFile (emptyStore "a1").overflow tornLast
      (start { emptyStore "a1" with disk := tornLast.disk }) = [] := by
    rw [blockedWrites, List.dropWhile_eq_nil_iff.mpr tornLast_read]
    rfl
  have hmerged : tornLast.merged = [] := (twoCalls_merged 3 1).trans (if_neg (by decide))
  refine (replay_complete_iff plainHost_floats (emptyStore "a1") (twoCalls 3 1)
    (oneFile_tearing _ (by simp [twoCalls]))).mpr ?_
  show ((blockedWrites plainHost plainLimits oneFile (emptyStore "a1").overflow tornLast
    (start { emptyStore "a1" with disk := tornLast.disk }) ++ tornLast.merged).map _).Subperm _
  rw [hblocked, hmerged]
  exact List.nil_subperm

/-- A torn line, and then a whole one: it is not delivered. -/
theorem torn_write_takes_next :
    ¬ ∀ (q : Quiet) (store : Store) (as : List Attempt), Tearing plainHost q store as →
      (((Torn.after plainHost store.overflow store.disk as).fresh ++
          (Torn.after plainHost store.overflow store.disk as).merged).map
            (Attempt.json plainHost)).Subperm
        ((run (q.env plainHost plainClient) (replayWithin plainHost plainLimits store.overflow)
          (start { store with
            disk := (Torn.after plainHost store.overflow store.disk as).disk })).final.sent.flatMap
              Prod.snd) := by
  intro hall
  have htear := oneFile_tearing (twoCalls 1 3) (by simp [twoCalls])
  have hle := (hall oneFile (emptyStore "a1") (twoCalls 1 3) htear).length_le
  have hdelivered := (htear.delivered (L := plainLimits) (c := plainClient)
    plainHost_floats).length_eq
  have hfresh := (htear.fresh_perm plainHost_floats plainLimits).length_eq
  -- the file ends with the newline of the second line
  have hnothing : unfinishedEvents plainHost plainLimits oneFile (start { emptyStore "a1" with
      disk := (Torn.after plainHost (emptyStore "a1").overflow (emptyStore "a1").disk
        (twoCalls 1 3)).disk }) = [] := by
    refine List.flatMap_eq_nil_iff.mpr fun path hpath => ?_
    obtain ⟨name, hname, -, rfl, -⟩ :=
      (oneFile.mem_paths _ _).mp (List.takeWhile_subset _ hpath)
    rw [List.mem_singleton.mp hname]
    show eventsOf plainHost (unfinished (((Torn.after plainHost (emptyStore "a1").overflow
      (emptyStore "a1").disk (twoCalls 1 3)).disk.files newYearPath).getD [])) = []
    rw [twoCalls_bytes]
    exact eventsOf_nil plainHost
  rw [hdelivered, hnothing, twoCalls_merged, if_pos (by decide)] at hle
  simp only [List.map_append, List.length_append, List.length_map, List.length_cons,
    List.length_nil] at hle hfresh
  omega

end Trail

end Sigil.Audit
