import Sigil.Python.Text
import Mathlib.Logic.Function.Basic

/-! # Where audit events go

`LogBuffer` is the bounded ring of `_buffer.py`, `OverflowWriter` the daily file of `_overflow.py`.
The buffer carries its bound as a field. A `Disk` is the part of the file system a writer can see:
file contents, and which paths can be opened for appending.
-/
set_option autoImplicit false

namespace Sigil.Audit

/-! ## The ring buffer -/

def flushThreshold : ℕ := 50

def ringCap : ℕ := 1000

structure LogBuffer where
  buf : List PyVal
  flushNow : Bool
  bounded : buf.length ≤ ringCap

namespace LogBuffer

def init : LogBuffer := ⟨[], false, Nat.zero_le _⟩

/-- `push`: a full `deque` loses its oldest event. -/
def push (b : LogBuffer) (event : PyVal) : LogBuffer where
  buf := (if b.buf.length < ringCap then b.buf else b.buf.tail) ++ [event]
  flushNow := b.flushNow || decide (flushThreshold ≤ min ringCap (b.buf.length + 1))
  bounded := by
    have hb := b.bounded
    have hpos : 0 < ringCap := by decide
    rw [List.length_append, List.length_singleton]
    split
    · omega
    · rw [List.length_tail]
      omega

/-- `drain`: up to `n` events, oldest first, and the buffer without them. -/
def drain (b : LogBuffer) (n : ℕ) : List PyVal × LogBuffer :=
  (b.buf.take n, ⟨b.buf.drop n, b.flushNow, by
    have hb := b.bounded
    rw [List.length_drop]
    omega⟩)

end LogBuffer

/-! ## The overflow file -/

def maxOverflowFileBytes : ℕ := 50 * 1024 * 1024

structure Disk where
  files : String → Option (List UInt8)
  canOpen : String → Bool

structure OverflowWriter where
  dir : String
  agentId : String
  writable : Bool
  dropCount : ℕ

namespace OverflowWriter

/-- `__init__`; `writable` is what `_init_dir` found, `home` the default directory. -/
def init (overflowDir environDir : Option String) (home agentId : String) (writable : Bool) :
    OverflowWriter where
  dir := strOr overflowDir (strOr environDir home)
  agentId := if agentId = "" then "unknown" else agentId
  writable := writable
  dropCount := 0

def pathJoin (a b : String) : String :=
  if "/".toList.isPrefixOf b.toList then b
  else if a = "" ∨ a.toList.getLast? = some '/' then a ++ b
  else a ++ "/" ++ b

/-- `_current_path`; `today` is the UTC date. -/
def currentPath (w : OverflowWriter) (today : String) : String :=
  pathJoin w.dir (w.agentId ++ "_" ++ today ++ ".ndjson")

def line (h : Host) (event : PyVal) : List UInt8 := utf8 (event.dumps h true ++ "\n")

def append (disk : Disk) (path : String) (bytes : List UInt8) : Disk :=
  if disk.canOpen path then
    { disk with
      files := Function.update disk.files path (some ((disk.files path).getD [] ++ bytes)) }
  else disk

/-- `write`: nothing when the directory is not writable, a counted drop when the file is full. -/
def write (h : Host) (w : OverflowWriter) (disk : Disk) (today : String) (event : PyVal) :
    OverflowWriter × Disk :=
  if !w.writable then (w, disk)
  else if (disk.files (w.currentPath today)).any
      fun bytes => decide (maxOverflowFileBytes ≤ bytes.length) then
    ({ w with dropCount := w.dropCount + 1 }, disk)
  else (w, append disk (w.currentPath today) (line h event))

/-- The directory is writable and the day's file can be opened and is below its cap. -/
structure Ready (w : OverflowWriter) (disk : Disk) (today : String) : Prop where
  writable : w.writable = true
  canOpen : disk.canOpen (w.currentPath today) = true
  belowCap : ∀ bytes, disk.files (w.currentPath today) = some bytes →
    bytes.length < maxOverflowFileBytes

instance (w : OverflowWriter) (disk : Disk) (today : String) : Decidable (w.Ready disk today) :=
  decidable_of_iff (w.writable = true ∧ disk.canOpen (w.currentPath today) = true ∧
      ∀ bytes ∈ disk.files (w.currentPath today), bytes.length < maxOverflowFileBytes)
    ⟨fun h => ⟨h.1, h.2.1, h.2.2⟩, fun h => ⟨h.writable, h.canOpen, h.belowCap⟩⟩

theorem write_of_ready (h : Host) (w : OverflowWriter) (disk : Disk) (today : String)
    (event : PyVal) (hw : w.Ready disk today) :
    w.write h disk today event = (w, { disk with
      files := Function.update disk.files (w.currentPath today)
        (some ((disk.files (w.currentPath today)).getD [] ++ line h event)) }) := by
  have hcap : ((disk.files (w.currentPath today)).any
      fun bytes => decide (maxOverflowFileBytes ≤ bytes.length)) = false := by
    cases hf : disk.files (w.currentPath today) with
    | none => rfl
    | some bytes =>
      have hbelow : bytes.length < maxOverflowFileBytes := hw.belowCap bytes hf
      simp only [Option.any_some, decide_eq_false_iff_not]
      omega
  rw [write, hw.writable, hcap, append, if_pos hw.canOpen]
  rfl

end OverflowWriter

/-- The audit trail of a client: its buffer, and its overflow writer with the disk and the date. -/
structure Store where
  buffer : LogBuffer
  overflow : OverflowWriter
  disk : Disk
  today : String

namespace Store

def push (s : Store) (event : PyVal) : Store := { s with buffer := s.buffer.push event }

def overflowWrite (h : Host) (s : Store) (event : PyVal) : Store :=
  { s with
    overflow := (s.overflow.write h s.disk s.today event).1
    disk := (s.overflow.write h s.disk s.today event).2 }

def onDay (s : Store) (day : String) : Store := { s with today := day }

def Ready (s : Store) : Prop := s.overflow.Ready s.disk s.today

instance (s : Store) : Decidable s.Ready :=
  inferInstanceAs (Decidable (s.overflow.Ready s.disk s.today))

theorem overflowWrite_currentPath (h : Host) (s : Store) (event : PyVal) (day : String) :
    (s.overflowWrite h event).overflow.currentPath day = s.overflow.currentPath day := by
  unfold overflowWrite OverflowWriter.write
  split
  · rfl
  · split <;> rfl

theorem overflowWrite_files_of_not_ready (h : Host) (s : Store) (event : PyVal)
    (hs : ¬ s.Ready) : (s.overflowWrite h event).disk.files = s.disk.files := by
  unfold overflowWrite OverflowWriter.write
  split
  · rfl
  · split
    · rfl
    · next hwritable hcap =>
      have hclosed : s.disk.canOpen (s.overflow.currentPath s.today) ≠ true := by
        intro hopen
        refine hs ⟨by simpa using hwritable, hopen, fun bytes hbytes => ?_⟩
        simpa [hbytes] using hcap
      simp only [OverflowWriter.append, if_neg hclosed]

end Store

end Sigil.Audit
