import Sigil.Audit.Lines
import Sigil.Client.Client
import Sigil.Library.World

/-! # The flusher

`_do_flush` and `replay` as dialogues with the buffer, the server and the file system. What
`log_batch` returns is an answer, which the world works out from what the server does.

The `Trail` is that world. Besides the store it keeps what has happened to events: which were pushed
and written, and where they have gone.
-/
set_option autoImplicit false

namespace Sigil.Audit

open Dialogue (query attempt ofExcept)
open OverflowWriter (pathJoin)
open Json (Limits)

/-! ## Questions -/

/-- Where a batch was taken from. -/
inductive Source where
  | buffer
  | file (path : String)
  deriving DecidableEq, Repr

inductive FlushQuestion where
  | drain (n : ℕ)
  | logBatch (source : Source) (events : List PyVal)
  | overflowWrite (event : PyVal)
  /-- `os.listdir`; `none` is `OSError` -/
  | listDir
  /-- `open(path).read()`; `none` is `OSError` -/
  | readFile (path : String)
  | unlink (path : String)

/-- No wrapped function runs here, so none raises. -/
abbrev FlushAnswer : FlushQuestion → Type
  | .drain _ => List PyVal
  | .logBatch _ _ => Except (Exc Empty) PyVal
  | .overflowWrite _ => Unit
  | .listDir => Option (List String)
  | .readFile _ => Option (List UInt8)
  | .unlink _ => Unit

abbrev Flush (α : Type) : Type := Dialogue FlushQuestion FlushAnswer (Exc Empty) α

abbrev drain (n : ℕ) : Flush (List PyVal) := query (FlushQuestion.drain n)

abbrev logBatch (source : Source) (events : List PyVal) : Flush (Except (Exc Empty) PyVal) :=
  query (FlushQuestion.logBatch source events)

abbrev overflowWrite (event : PyVal) : Flush Unit := query (FlushQuestion.overflowWrite event)

abbrev listDir : Flush (Option (List String)) := query FlushQuestion.listDir

abbrev readFile (path : String) : Flush (Option (List UInt8)) := query (FlushQuestion.readFile path)

abbrev unlink (path : String) : Flush Unit := query (FlushQuestion.unlink path)

/-! ## Replay -/

/-- The slices `events[i : i + n]` for `i` in `range(0, len(events), n)`. -/
def slices (n : ℕ) (events : List PyVal) : List (List PyVal) :=
  (List.range ((events.length + (n - 1)) / n)).map fun k => (events.drop (k * n)).take n

/-- The loop over the batches of a file: `true` when all were accepted. -/
def sendBatches (path : String) : List (List PyVal) → Flush Bool
  | [] => pure true
  | batch :: batches => do
    match ← logBatch (.file path) batch with
    | .ok _ => sendBatches path batches
    | .error e => if e.isUnreachable then pure false else .fail e

/-- What is sent of the events of a file, and whether it is removed. -/
def sendEvents (path : String) (events : List PyVal) : Flush Unit := do
  let allOk ← sendBatches path (slices 100 events)
  if allOk then unlink path else pure ()

def replayLines (h : Host) (L : Limits) (path : String) (lines : List (List Char)) : Flush Unit :=
  if lines.isEmpty then unlink path
  else match readLines h L lines with
    | .error e => .fail (.py e)
    | .ok events => sendEvents path events

/-- What was read of a file; `open` decodes it. -/
def replayReadWithin (h : Host) (L : Limits) (path : String) : Option (List UInt8) → Flush Unit
  | none => pure ()
  | some bytes => match decodeUtf8 bytes with
    | none => .fail (.py .valueError)
    | some text => replayLines h L path (strippedLines text.toList)

def replayFileWithin (h : Host) (L : Limits) (path : String) : Flush Unit := do
  replayReadWithin h L path (← readFile path)

def replayFilesWithin (h : Host) (L : Limits) : List String → Flush Unit
  | [] => pure ()
  | path :: paths => do
    replayFileWithin h L path
    replayFilesWithin h L paths

/-- `e.endswith(".ndjson")` -/
def isOverflowName (name : String) : Bool := ".ndjson".toList.isSuffixOf name.toList

def overflowNames (listing : List String) : List String :=
  (listing.filter isOverflowName).mergeSort fun a b => decide (a ≤ b)

def replayWithin (h : Host) (L : Limits) (w : OverflowWriter) : Flush Unit :=
  if !w.writable then pure ()
  else do
    match ← listDir with
    | none => pure ()
    | some listing => replayFilesWithin h L ((overflowNames listing).map (pathJoin w.dir))

/-! ## Flush -/

def maxSendBatch : ℕ := 100

def writeAll : List PyVal → Flush Unit
  | [] => pure ()
  | event :: events => do
    overflowWrite event
    writeAll events

/-- The `try` block. -/
def deliverWithin (h : Host) (L : Limits) (w : OverflowWriter) (events : List PyVal) :
    Flush Unit := do
  let _ ← ofExcept (← logBatch .buffer events)
  replayWithin h L w

/-- `_do_flush`, at most `rounds` times round. -/
def doFlushWithin (h : Host) (L : Limits) (w : OverflowWriter) : ℕ → Flush Unit
  | 0 => .spent
  | rounds + 1 => do
    let events ← drain maxSendBatch
    if events.isEmpty then pure ()
    else do
      match ← attempt (deliverWithin h L w events) with
      | .ok _ => doFlushWithin h L w rounds
      | .error (.transport _ _ _) => writeAll events
      | .error _ => pure ()

/-! ## What replay makes of a file -/

/-- A file that holds this text, if reading it raises nothing. -/
def replayText (h : Host) (path text : String) : Flush Unit := do
  let lines := strippedLines text.toList
  if lines.isEmpty then unlink path
  else do
    let allOk ← sendBatches path (slices 100 (lineEvents h lines))
    if allOk then unlink path else pure ()

/-- Replay raises at a file, or sends what is JSON in it. -/
theorem replayRead_cases (h : Host) (L : Limits) (path : String) (bytes : List UInt8) :
    (∃ e, raisedBy h L bytes = some e ∧
      replayReadWithin h L path (some bytes) = .fail (.py e)) ∨
    raisedBy h L bytes = none ∧ ∃ text, decodeUtf8 bytes = some text ∧
      replayReadWithin h L path (some bytes) = replayText h path text := by
  rw [raisedBy, replayReadWithin]
  cases decodeUtf8 bytes with
  | none => exact Or.inl ⟨.valueError, rfl, rfl⟩
  | some text =>
    simp only [replayLines, replayText]
    cases hempty : (strippedLines text.toList).isEmpty with
    | true =>
      rw [List.isEmpty_iff.mp hempty]
      exact Or.inr ⟨rfl, text, rfl, by rw [List.isEmpty_iff.mp hempty]; rfl⟩
    | false =>
      rcases readLines_cases h L (strippedLines text.toList) with hread | ⟨-, e, hread⟩
      · exact Or.inr ⟨by rw [hread], text, rfl, by rw [hread]; simp only [hempty]; rfl⟩
      · exact Or.inl ⟨e, by rw [hread], by rw [hread]; rfl⟩

/-! ## Without limits

What is said of files that `write` has made is said for an interpreter without limits: `json.dumps`
has those that `json.loads` has.
-/

abbrev replay (h : Host) (w : OverflowWriter) : Flush Unit := replayWithin h .off w

/-! ## The world of the audit trail -/

structure Trail where
  store : Store
  /-- What was last read from each file. -/
  readBack : String → Option (List UInt8)
  /-- The batches `log_batch` was called with. -/
  sent : List (Source × List PyVal)
  /-- The events of the batches the server accepted. -/
  accepted : List PyVal
  /-- The events of drained batches that were answered `SigilAPIError`. -/
  refused : List PyVal
  pushed : List PyVal
  /-- The events a push onto a full buffer threw out. -/
  evicted : List PyVal
  /-- The events whose line was written. -/
  written : List PyVal
  /-- The events whose line was not. -/
  unwritten : List PyVal
  /-- The contents of removed files, with what had been accepted by then. -/
  removed : List (List UInt8 × List PyVal)

namespace Trail

/-- Nothing has happened yet; what is in the buffer counts as pushed. -/
def start (store : Store) : Trail where
  store := store
  readBack := fun _ => none
  sent := []
  accepted := []
  refused := []
  pushed := store.buffer.buf
  evicted := []
  written := []
  unwritten := []
  removed := []

def push (t : Trail) (event : PyVal) : Trail :=
  { t with
    store := t.store.push event
    pushed := t.pushed ++ [event]
    evicted := t.evicted ++
      if t.store.buffer.buf.length < ringCap then [] else t.store.buffer.buf.take 1 }

def drain (t : Trail) (n : ℕ) : Trail :=
  { t with store := { t.store with buffer := (t.store.buffer.drain n).2 } }

def write (h : Host) (t : Trail) (day : String) (event : PyVal) : Trail :=
  { t with
    store := (t.store.onDay day).overflowWrite h event
    written := t.written ++ if (t.store.onDay day).Ready then [event] else []
    unwritten := t.unwritten ++ if (t.store.onDay day).Ready then [] else [event] }

/-- Is it `SigilAPIError`? -/
def isApiError : Except (Exc Empty) PyVal → Bool
  | .error (.api _ _) => true
  | _ => false

def batchAnswered (t : Trail) (source : Source) (events : List PyVal)
    (r : Except (Exc Empty) PyVal) : Trail :=
  { t with
    sent := t.sent ++ [(source, events)]
    accepted := t.accepted ++ if r.isOk then events else []
    refused := t.refused ++ if source = .buffer ∧ isApiError r then events else [] }

def files (t : Trail) (path : String) : Option (List UInt8) := t.store.disk.files path

def read (t : Trail) (path : String) : Trail :=
  { t with readBack := Function.update t.readBack path (t.files path) }

def unlink (t : Trail) (path : String) : Trail :=
  match t.files path with
  | none => t
  | some bytes =>
    { t with
      store := { t.store with
        disk := { t.store.disk with files := Function.update t.store.disk.files path none } }
      removed := t.removed ++ [(bytes, t.accepted)] }

/-- What the world decides at a question. -/
structure Choices where
  http : HttpAnswer
  listing : Option (List String)
  day : String

def answer (h : Host) (c : SigilClient) (now : Choices) :
    (q : FlushQuestion) → Trail → FlushAnswer q × Trail
  | .drain n, t => ((t.store.buffer.drain n).1, t.drain n)
  | .logBatch source events, t =>
    (c.logBatch events now.http, t.batchAnswered source events (c.logBatch events now.http))
  | .overflowWrite event, t => ((), t.write h now.day event)
  | .listDir, t => (now.listing, t)
  | .readFile path, t => (t.files path, t.read path)
  | .unlink path, t => ((), t.unlink path)

/-! ## One thread after the other -/

/-- What is still to come: answers to batches of the buffer and of files, listings, dates. -/
structure Future where
  live : ℕ → HttpAnswer
  replayed : ℕ → HttpAnswer
  listings : ℕ → Option (List String)
  days : ℕ → String

namespace Future

def choices (f : Future) : FlushQuestion → Choices
  | .logBatch .buffer _ => ⟨f.live 0, f.listings 0, f.days 0⟩
  | _ => ⟨f.replayed 0, f.listings 0, f.days 0⟩

def next (f : Future) : FlushQuestion → Future
  | .logBatch .buffer _ => { f with live := fun k => f.live (k + 1) }
  | .logBatch (.file _) _ => { f with replayed := fun k => f.replayed (k + 1) }
  | .overflowWrite _ => { f with days := fun k => f.days (k + 1) }
  | .listDir => { f with listings := fun k => f.listings (k + 1) }
  | _ => f

end Future

/-- One after the other, each question is answered by what comes next. -/
def env (h : Host) (c : SigilClient) :
    Dialogue.Environment FlushQuestion FlushAnswer (Trail × Future) where
  answer q s := ((answer h c (s.2.choices q) q s.1).1,
    ((answer h c (s.2.choices q) q s.1).2, s.2.next q))

end Trail

/-! ## A client to try -/

def plainHost : Host where
  reprFloat := fun _ => "0.0"
  isPrintable := fun _ => false
  parseFloat := fun _ => none
  entropyOf := fun _ _ => 0
  sha256Hex := fun _ => ""
  jsonLoads := fun _ => none
  verifyKey := fun _ _ _ => false
  fromIsoFormat := fun _ => none

theorem plainHost_floats : Json.FloatTexts plainHost := by
  intro bits
  have htext : (plainHost.reprFloat bits).toList = ['0', '.', '0'] := by simp [plainHost]
  refine Or.inr ⟨[], ['0'], ['.', '0'], [], ⟨htext, Or.inl rfl, Or.inl rfl, ?_, Or.inl rfl⟩, ?_⟩
  · exact Or.inr ⟨['0'], rfl, by simp [Json.Digits]⟩
  · simp

/-- The limits of an interpreter as it is installed. -/
def plainLimits : Limits := ⟨some 4300, some 900⟩

def plainClient : SigilClient where
  baseUrl := "http://sigil-core:8120"
  internalToken := "sdk"
  internalToken_ne := by decide
  serviceAccount := "sigil-python-sdk"
  tenantId := "t"
  agentId := "a1"
  serviceAccountId := ""
  failMode := .closed
  killSwitchFailMode := .opened
  timeout := .finite 5
  approvalTimeout := 300
  approvalTimeout_pos := by decide
  approvalPollInterval := 2
  approvalPollInterval_pos := by decide
  biscuitKeyring := OrderedDict.empty
  activeKid := ""
  redisUrlConfigured := false

/-- An empty directory, and the writer of an agent. -/
def emptyStore (agentId : String) : Store where
  buffer := .init
  overflow := .init (some "o") none "" agentId true
  disk := ⟨fun _ => none, fun _ => true⟩
  today := "2026-01-01"

/-- One event in the buffer. -/
def oneEvent : Store := { emptyStore "a1" with buffer := ⟨[.str "x"], false, by decide⟩ }

def acceptedAnswer : HttpAnswer := .response 202 (some (.dict []))

/-- Every batch is answered `http`. -/
def steady (http : HttpAnswer) : Trail.Future where
  live := fun _ => http
  replayed := fun _ => http
  listings := fun _ => some []
  days := fun _ => "2026-01-01"

end Sigil.Audit
