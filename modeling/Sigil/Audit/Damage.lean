import Sigil.Audit.Identity

/-! # Damaged files

A line that is not JSON is skipped. But a file is decoded before it is split into lines, and what
`json.loads` raises besides is not caught: one byte that is not UTF-8, or one line with too long an
integer or too deep a nesting, stops the file, the files after it, and the flush. Exactly what a
flush then fails to deliver.
-/
set_option autoImplicit false

namespace Sigil.Audit

open Dialogue (run attempt)
open OverflowWriter (pathJoin)
open Json (Limits)

/-! ## Lines of bytes -/

def isNewlineByte (b : UInt8) : Bool := b = 10 || b = 13

def isObject : PyVal → Bool
  | .dict _ => true
  | _ => false

/-- The JSON object on a line, if the line is UTF-8 and holds one. -/
def objectLine (h : Host) (line : List UInt8) : Option PyVal :=
  (decodeUtf8 line).bind fun text =>
    (Json.loads h (String.ofList (strip text.toList))).filter isObject

/-- The JSON objects on the lines of a file, whatever else is in it. -/
def objectLines (h : Host) (bytes : List UInt8) : List PyVal :=
  (bytes.splitOnP isNewlineByte).filterMap (objectLine h)

theorem splitOnP_front {α : Type} (p : α → Bool) (front rest : List α)
    (hfront : ∀ x ∈ front, p x = false) :
    (front ++ rest).splitOnP p = (rest.splitOnP p).modifyHead (front ++ ·) := by
  induction front with
  | nil => cases hs : rest.splitOnP p <;> simp [hs]
  | cons x front ih =>
    have hx : p x = false := hfront x List.mem_cons_self
    rw [List.cons_append, List.splitOnP_cons_eq_if_modifyHead, hx,
      ih fun y hy => hfront y (List.mem_cons_of_mem x hy)]
    cases rest.splitOnP p <;> rfl

theorem encode_newline (c : Char) (hc : isNewline c = true) :
    ∃ b, String.utf8EncodeChar c = [b] ∧ isNewlineByte b = true := by
  simp only [isNewline, Bool.or_eq_true, decide_eq_true_eq] at hc
  rcases hc with rfl | rfl
  · exact ⟨10, by decide, rfl⟩
  · exact ⟨13, by decide, rfl⟩

theorem encode_no_newline (c : Char) (hc : isNewline c = false) (b : UInt8)
    (hb : b ∈ String.utf8EncodeChar c) : isNewlineByte b = false := by
  have hnot : b.toNat ≠ 10 ∧ b.toNat ≠ 13 := by
    by_cases hwide : 0x80 ≤ c.toNat
    · have := encode_wide c hwide b hb
      omega
    · rw [encode_ascii c (by omega), List.mem_singleton] at hb
      have hbyte : b.toNat = c.toNat := by
        rw [hb, UInt8.toNat_ofNat']
        omega
      simp only [isNewline, Bool.or_eq_false_iff, decide_eq_false_iff_not] at hc
      rw [hbyte]
      exact ⟨fun h => hc.1 (Char.toNat_inj.mp h), fun h => hc.2 (Char.toNat_inj.mp h)⟩
  simp only [isNewlineByte, Bool.or_eq_false_iff, decide_eq_false_iff_not]
  exact ⟨fun h => hnot.1 (h ▸ rfl), fun h => hnot.2 (h ▸ rfl)⟩

/-- A text can be split before it is decoded. -/
theorem splitOnP_utf8Chars (cs : List Char) :
    (utf8Chars cs).splitOnP isNewlineByte = (cs.splitOnP isNewline).map utf8Chars := by
  induction cs with
  | nil => rfl
  | cons c cs ih =>
    rw [utf8Chars_cons, List.splitOnP_cons_eq_if_modifyHead]
    cases hc : isNewline c with
    | true =>
      obtain ⟨b, hbytes, hb⟩ := encode_newline c hc
      rw [hbytes, List.singleton_append, List.splitOnP_cons_eq_if_modifyHead, hb, ih]
      rfl
    | false =>
      rw [splitOnP_front _ _ _ (encode_no_newline c hc), ih]
      cases cs.splitOnP isNewline <;> simp

theorem lineEvents_cons (h : Host) (line : List Char) (lines : List (List Char)) :
    lineEvents h (line :: lines) =
      (Json.loads h (String.ofList line)).toList ++ lineEvents h lines := by
  rw [lineEvents, List.filterMap_cons]
  cases Json.loads h (String.ofList line) <;> rfl

theorem loads_empty (h : Host) : Json.loads h (String.ofList []) = none := rfl

/-- Of a file that is text, every object is read. -/
theorem objectLines_text (h : Host) (bytes : List UInt8) (text : String)
    (htext : decodeUtf8 bytes = some text) :
    objectLines h bytes = (eventsOf h bytes).filter isObject := by
  have hline : ∀ cs : List Char, objectLine h (utf8Chars cs) =
      (Json.loads h (String.ofList (strip cs))).filter isObject := by
    intro cs
    rw [objectLine, decodeUtf8_utf8Chars, Option.bind_some, String.toList_ofList]
  have hlines : ∀ lines : List (List Char), (lines.map utf8Chars).filterMap (objectLine h) =
      (lineEvents h ((lines.map strip).filter fun line => !line.isEmpty)).filter isObject := by
    intro lines
    induction lines with
    | nil => rfl
    | cons cs lines ih =>
      rw [List.map_cons, List.map_cons, List.filterMap_cons, hline, ih]
      cases hcs : strip cs with
      | nil => rw [loads_empty]; rfl
      | cons c cs' =>
        rw [List.filter_cons_of_pos (by rfl), lineEvents_cons, List.filter_append]
        cases Json.loads h (String.ofList (c :: cs')) with
        | none => rfl
        | some v => cases hv : isObject v <;> simp [Option.filter, hv]
  rw [objectLines, ← decodeUtf8_eq_some bytes text htext, splitOnP_utf8Chars, hlines,
    decodeUtf8_eq_some bytes text htext, eventsOf, htext]
  rfl

namespace Trail

variable {h : Host} {L : Limits} {c : SigilClient} {q : Quiet}

/-! ## What has been sent -/

/-- The events sent straight from the buffer. -/
def liveSent (t : Trail) : List PyVal :=
  (t.sent.filter fun b => b.1 = .buffer).flatMap Prod.snd

/-- The events sent from files. -/
def fileSent (t : Trail) : List PyVal :=
  (t.sent.filter fun b => b.1 ≠ .buffer).flatMap Prod.snd

theorem batchesOf_source (t : Trail) (path : String) (b : Source × List PyVal)
    (hb : b ∈ batchesOf h t path) : b.1 ≠ .buffer := by
  obtain ⟨batch, -, rfl⟩ := List.mem_map.mp hb
  exact Source.noConfusion

theorem Replayed.liveSent {paths : List String} {t t' : Trail} (hr : Replayed h paths t t') :
    t'.liveSent = t.liveSent := by
  have hnone : (paths.flatMap (batchesOf h t)).filter (fun b => b.1 = .buffer) = [] := by
    refine List.filter_eq_nil_iff.mpr fun b hb => ?_
    obtain ⟨path, -, hb⟩ := List.mem_flatMap.mp hb
    simpa using batchesOf_source t path b hb
  rw [Trail.liveSent, hr.sent, List.filter_append, hnone, List.append_nil]
  rfl

theorem Replayed.fileSent {paths : List String} {t t' : Trail} (hr : Replayed h paths t t') :
    t'.fileSent = t.fileSent ++ paths.flatMap (eventsIn h t) := by
  have hall : (paths.flatMap (batchesOf h t)).filter (fun b => b.1 ≠ .buffer) =
      paths.flatMap (batchesOf h t) := by
    refine List.filter_eq_self.mpr fun b hb => ?_
    obtain ⟨path, -, hb⟩ := List.mem_flatMap.mp hb
    simpa using batchesOf_source t path b hb
  rw [Trail.fileSent, hr.sent, List.filter_append, hall, List.flatMap_append, List.flatMap_assoc]
  simp only [batchesOf_events]
  rfl

/-! ## One flush -/

/-- The accepted batch, before the replay after it. -/
def afterBatch (c : SigilClient) (q : Quiet) (t : Trail) (events : List PyVal) : Trail :=
  t.batchAnswered .buffer events (c.logBatch events (q.http t))

theorem afterBatch_liveSent (t : Trail) (events : List PyVal) :
    (afterBatch c q t events).liveSent = t.liveSent ++ events := by
  show ((t.sent ++ [(Source.buffer, events)]).filter _).flatMap Prod.snd = _
  rw [List.filter_append, List.flatMap_append]
  simp [liveSent]

theorem afterBatch_fileSent (t : Trail) (events : List PyVal) :
    (afterBatch c q t events).fileSent = t.fileSent := by
  show ((t.sent ++ [(Source.buffer, events)]).filter _).flatMap Prod.snd = _
  rw [List.filter_append, List.flatMap_append]
  simp [fileSent]

theorem deliver_quiet (w : OverflowWriter) (hw : w.writable = true) (hdir : w.dir = q.dir)
    (events : List PyVal) (hsize : events.length ≤ 100) (t : Trail) :
    Ends ((q.paths t).all (t.readable h L))
        (run (q.env h c) (deliverWithin h L w events) t).result ∧
      Replayed h ((q.paths t).takeWhile (t.readable h L)) (afterBatch c q t events)
        (run (q.env h c) (deliverWithin h L w events) t).final := by
  obtain ⟨v, hr⟩ := logBatch_accepts c events (q.http t) hsize (q.accepts t)
  have hrun : run (q.env h c) (deliverWithin h L w events) t =
      { run (q.env h c)
          (Dialogue.ofExcept (c.logBatch events (q.http t)) >>= fun _ => replayWithin h L w)
          (afterBatch c q t events) with
        events := (run (q.env h c) (deliverWithin h L w events) t).events } := rfl
  rw [hrun, hr]
  exact replay_quiet w hw hdir (afterBatch c q t events)

theorem doFlush_quiet_empty (w : OverflowWriter) (rounds : ℕ) (t : Trail)
    (hb : t.store.buffer.buf = []) :
    (run (q.env h c) (doFlushWithin h L w (rounds + 1)) t).result = .returned () ∧
      (run (q.env h c) (doFlushWithin h L w (rounds + 1)) t).final = t.drain 100 := by
  have hrun : run (q.env h c) (doFlushWithin h L w (rounds + 1)) t =
      { run (q.env h c) (if (t.store.buffer.buf.take 100).isEmpty then pure ()
          else attempt (deliverWithin h L w (t.store.buffer.buf.take 100)) >>=
            sequel h L w rounds (t.store.buffer.buf.take 100)) (t.drain 100) with
        events := (run (q.env h c) (doFlushWithin h L w (rounds + 1)) t).events } := rfl
  rw [hrun, hb]
  exact ⟨rfl, rfl⟩

/-- One round: the batch, the replay, and then the next round or the end. -/
theorem doFlush_quiet_round (w : OverflowWriter) (hw : w.writable = true) (hdir : w.dir = q.dir)
    (rounds : ℕ) (t : Trail) (hb : t.store.buffer.buf ≠ []) :
    ∃ t', Replayed h ((q.paths t).takeWhile (t.readable h L))
        (afterBatch c q (t.drain 100) (t.store.buffer.buf.take 100)) t' ∧
      ∃ events, run (q.env h c) (doFlushWithin h L w (rounds + 1)) t =
        { run (q.env h c)
            (if (q.paths t).all (t.readable h L) then doFlushWithin h L w rounds else pure ()) t' with
          events := events } := by
  have hne : (t.store.buffer.buf.take 100).isEmpty = false := by
    cases hbuf : t.store.buffer.buf with
    | nil => exact absurd hbuf hb
    | cons x xs => rfl
  have hrun : run (q.env h c) (doFlushWithin h L w (rounds + 1)) t =
      { run (q.env h c) (if (t.store.buffer.buf.take 100).isEmpty then pure ()
          else attempt (deliverWithin h L w (t.store.buffer.buf.take 100)) >>=
            sequel h L w rounds (t.store.buffer.buf.take 100)) (t.drain 100) with
        events := (run (q.env h c) (doFlushWithin h L w (rounds + 1)) t).events } := rfl
  obtain ⟨hresult, hreplayed⟩ := deliver_quiet (h := h) (L := L) (c := c) w hw hdir
    (t.store.buffer.buf.take 100) (List.length_take_le _ _) (t.drain 100)
  refine ⟨_, hreplayed, (run (q.env h c) (doFlushWithin h L w (rounds + 1)) t).events, ?_⟩
  have hpaths : (q.paths (t.drain 100)).all ((t.drain 100).readable h L) =
      (q.paths t).all (t.readable h L) := rfl
  rw [hpaths] at hresult
  rw [hrun, hne, if_neg Bool.false_ne_true]
  cases hall : (q.paths t).all (t.readable h L) with
  | true =>
    rw [hall] at hresult
    rw [Dialogue.run_attempt_bind _ _ _ _ (.ok ()) hresult]
    rfl
  | false =>
    rw [hall] at hresult
    obtain ⟨e, he⟩ := hresult
    rw [Dialogue.run_attempt_bind _ _ _ _ (.error (.py e)) he]
    rfl

/-- Files that have all been read are gone. -/
theorem Replayed.paths_nil {t t' : Trail} (hr : Replayed h (q.paths t) t t') : q.paths t' = [] := by
  refine List.eq_nil_iff_forall_not_mem.mpr fun path hpath => ?_
  obtain ⟨name, hname, hoverflow, hjoin, hfile⟩ := (q.mem_paths t' path).mp hpath
  rw [hr.files] at hfile
  split at hfile
  · cases hfile
  · next hnot => exact hnot ((q.mem_paths t path).mpr ⟨name, hname, hoverflow, hjoin, hfile⟩)

/-- What a flush has done, by the events it has sent. -/
structure Flushed (live file : List PyVal) (t : Trail) (r : Dialogue.Result (Exc Empty) Unit)
    (t' : Trail) : Prop where
  returns : r = .returned ()
  live : t'.liveSent = t.liveSent ++ live
  file : t'.fileSent = t.fileSent ++ file

theorem doFlush_quiet_readable (w : OverflowWriter) (hw : w.writable = true) (hdir : w.dir = q.dir)
    (rounds : ℕ) (t : Trail) (hb : t.store.buffer.buf.length ≤ 100 * rounds)
    (hall : (q.paths t).all (t.readable h L) = true) :
    let r := run (q.env h c) (doFlushWithin h L w (rounds + 1)) t
    Flushed t.store.buffer.buf
      (if t.store.buffer.buf = [] then [] else (q.paths t).flatMap (eventsIn h t)) t
      r.result r.final := by
  induction rounds generalizing t with
  | zero =>
    have hnil : t.store.buffer.buf = [] := List.length_eq_zero_iff.mp (by omega)
    obtain ⟨hresult, hfinal⟩ := doFlush_quiet_empty (h := h) (L := L) (c := c) (q := q) w 0 t hnil
    rw [hnil, if_pos rfl]
    exact ⟨hresult, by rw [hfinal, List.append_nil]; rfl, by rw [hfinal, List.append_nil]; rfl⟩
  | succ rounds ih =>
    by_cases hempty : t.store.buffer.buf = []
    · obtain ⟨hresult, hfinal⟩ :=
        doFlush_quiet_empty (h := h) (L := L) (c := c) (q := q) w (rounds + 1) t hempty
      rw [hempty, if_pos rfl]
      exact ⟨hresult, by rw [hfinal, List.append_nil]; rfl, by rw [hfinal, List.append_nil]; rfl⟩
    · obtain ⟨t', hreplayed, events, hrun⟩ :=
        doFlush_quiet_round (h := h) (L := L) (c := c) w hw hdir (rounds + 1) t hempty
      have hwhile : (q.paths t).takeWhile (t.readable h L) = q.paths t :=
        List.takeWhile_eq_self_iff.mpr (List.all_eq_true.mp hall)
      rw [hwhile] at hreplayed
      rw [hall, if_pos rfl] at hrun
      have hbuffer : t'.store.buffer.buf = t.store.buffer.buf.drop 100 :=
        congrArg LogBuffer.buf hreplayed.buffer
      have hnone : q.paths t' = [] :=
        Replayed.paths_nil (t := afterBatch c q (t.drain 100) _) hreplayed
      have hlive : t'.liveSent = t.liveSent ++ t.store.buffer.buf.take 100 :=
        hreplayed.liveSent.trans (afterBatch_liveSent _ _)
      have hfile : t'.fileSent = t.fileSent ++ (q.paths t).flatMap (eventsIn h t) :=
        hreplayed.fileSent.trans (congrArg (· ++ _) (afterBatch_fileSent _ _))
      have hrest := ih t' (by rw [hbuffer, List.length_drop]; omega) (by rw [hnone]; rfl)
      rw [hrun, if_neg hempty]
      refine ⟨hrest.returns, ?_, ?_⟩
      · rw [hrest.live, hlive, hbuffer, List.append_assoc, List.take_append_drop]
      · rw [hrest.file, hfile, hnone, List.flatMap_nil, ite_self, List.append_nil]

/-- A file that cannot be read ends the flush after its first batch. -/
theorem doFlush_quiet_damaged (w : OverflowWriter) (hw : w.writable = true) (hdir : w.dir = q.dir)
    (rounds : ℕ) (t : Trail) (hb : t.store.buffer.buf ≠ [])
    (hall : (q.paths t).all (t.readable h L) = false) :
    let r := run (q.env h c) (doFlushWithin h L w (rounds + 1)) t
    Flushed (t.store.buffer.buf.take 100)
      (((q.paths t).takeWhile (t.readable h L)).flatMap (eventsIn h t)) t r.result r.final := by
  obtain ⟨t', hreplayed, events, hrun⟩ :=
    doFlush_quiet_round (h := h) (L := L) (c := c) w hw hdir rounds t hb
  rw [hall, if_neg Bool.false_ne_true] at hrun
  rw [hrun]
  exact ⟨rfl, hreplayed.liveSent.trans (afterBatch_liveSent _ _),
    hreplayed.fileSent.trans (congrArg (· ++ _) (afterBatch_fileSent _ _))⟩

/-! ## When damage does no harm -/

def objectsIn (h : Host) (t : Trail) (path : String) : List PyVal :=
  ((t.files path).map (objectLines h)).getD []

theorem eventsIn_objects (t : Trail) (path : String) (hread : t.readable h L path = true) :
    (eventsIn h t path).filter isObject = objectsIn h t path := by
  rw [readable] at hread
  rw [eventsIn, objectsIn]
  cases hfile : t.files path with
  | none => rfl
  | some bytes =>
    rw [hfile] at hread
    obtain ⟨text, htext⟩ := raisedBy_text h L bytes (Option.isNone_iff_eq_none.mp hread)
    exact (objectLines_text h bytes text htext).symm

theorem flatMap_objects (paths : List String) (t : Trail)
    (hread : ∀ path ∈ paths, t.readable h L path = true) :
    (paths.flatMap (eventsIn h t)).filter isObject = paths.flatMap (objectsIn h t) := by
  rw [List.filter_flatMap]
  exact List.flatMap_congr fun path hpath => eventsIn_objects t path (hread path hpath)

/-- The files a flush does not get to: with nothing to send all of them, otherwise those from the
first that cannot be read on. -/
def unreached (h : Host) (L : Limits) (q : Quiet) (t : Trail) : List String :=
  if t.store.buffer.buf = [] then q.paths t else (q.paths t).dropWhile (t.readable h L)

/-- A flush that raises nothing and delivers every buffered event, and every object on a line of a
file in the order of the files. -/
structure Undisturbed (h : Host) (q : Quiet) (t : Trail) (r : Dialogue.Result (Exc Empty) Unit)
    (t' : Trail) : Prop where
  returns : r = .returned ()
  buffered : t'.liveSent = t.store.buffer.buf
  lines : t'.fileSent.filter isObject = (q.paths t).flatMap (objectsIn h t)

/-- With an empty buffer nothing is sent, so nothing is replayed. -/
theorem undisturbed_empty (w : OverflowWriter) (rounds : ℕ) (t : Trail)
    (hempty : t.store.buffer.buf = []) (hlive : t.liveSent = []) (hfile : t.fileSent = []) :
    let r := run (q.env h c) (doFlushWithin h L w (rounds + 1)) t
    Undisturbed h q t r.result r.final ↔ ∀ path ∈ q.paths t, objectsIn h t path = [] := by
  intro r
  obtain ⟨hresult, hfinal⟩ :=
    doFlush_quiet_empty (h := h) (L := L) (c := c) (q := q) w rounds t hempty
  have hfile' : r.final.fileSent = [] := (congrArg fileSent hfinal).trans hfile
  have hlive' : r.final.liveSent = [] := (congrArg liveSent hfinal).trans hlive
  constructor
  · intro hu
    have hlines := hu.lines
    rw [hfile'] at hlines
    exact List.flatMap_eq_nil_iff.mp hlines.symm
  · intro hlines
    refine ⟨hresult, by rw [hlive', hempty], ?_⟩
    rw [hfile', List.flatMap_eq_nil_iff.mpr hlines]
    rfl

/-- If every file can be read everything is. -/
theorem undisturbed_readable (w : OverflowWriter) (hw : w.writable = true) (hdir : w.dir = q.dir)
    (rounds : ℕ) (t : Trail) (hcap : t.store.buffer.buf.length ≤ 100 * rounds)
    (hne : t.store.buffer.buf ≠ []) (hall : (q.paths t).all (t.readable h L) = true)
    (hlive : t.liveSent = []) (hfile : t.fileSent = []) :
    let r := run (q.env h c) (doFlushWithin h L w (rounds + 1)) t
    Undisturbed h q t r.result r.final := by
  intro r
  have hflushed :=
    doFlush_quiet_readable (h := h) (L := L) (c := c) (q := q) w hw hdir rounds t hcap hall
  rw [if_neg hne] at hflushed
  refine ⟨hflushed.returns, ?_, ?_⟩
  · rw [hflushed.live, hlive, List.nil_append]
  · rw [hflushed.file, hfile, List.nil_append]
    exact flatMap_objects _ t (List.all_eq_true.mp hall)

/-- The first file that cannot be read ends the flush. -/
theorem undisturbed_damaged (w : OverflowWriter) (hw : w.writable = true) (hdir : w.dir = q.dir)
    (rounds : ℕ) (t : Trail) (hne : t.store.buffer.buf ≠ [])
    (hall : (q.paths t).all (t.readable h L) = false) (hlive : t.liveSent = [])
    (hfile : t.fileSent = []) :
    let r := run (q.env h c) (doFlushWithin h L w (rounds + 1)) t
    Undisturbed h q t r.result r.final ↔
      (∀ path ∈ (q.paths t).dropWhile (t.readable h L), objectsIn h t path = []) ∧
        t.store.buffer.buf.length ≤ 100 := by
  intro r
  have hflushed :=
    doFlush_quiet_damaged (h := h) (L := L) (c := c) (q := q) w hw hdir rounds t hne hall
  have hfront : (((q.paths t).takeWhile (t.readable h L)).flatMap (eventsIn h t)).filter isObject =
      ((q.paths t).takeWhile (t.readable h L)).flatMap (objectsIn h t) :=
    flatMap_objects _ t fun path hpath => List.mem_takeWhile_imp hpath
  have hsplit : (q.paths t).flatMap (objectsIn h t) =
      ((q.paths t).takeWhile (t.readable h L)).flatMap (objectsIn h t) ++
        ((q.paths t).dropWhile (t.readable h L)).flatMap (objectsIn h t) := by
    rw [← List.flatMap_append, List.takeWhile_append_dropWhile]
  constructor
  · intro hu
    constructor
    · have hlines := hu.lines
      rw [hflushed.file, hfile, List.nil_append, hfront, hsplit] at hlines
      exact List.flatMap_eq_nil_iff.mp (List.self_eq_append_right.mp hlines)
    · have hbuffered := hu.buffered
      rw [hflushed.live, hlive, List.nil_append] at hbuffered
      exact List.take_eq_self_iff _ |>.mp hbuffered
  · rintro ⟨hlines, hsize⟩
    refine ⟨hflushed.returns, ?_, ?_⟩
    · rw [hflushed.live, hlive, List.nil_append]
      exact List.take_of_length_le hsize
    · rw [hflushed.file, hfile, List.nil_append, hfront, hsplit,
        List.flatMap_eq_nil_iff.mpr hlines, List.append_nil]

/-- **When damaged files block nothing.** Exactly when no file the flush does not get to has an
object on a line and, if one cannot be read, no more than one batch is buffered. -/
theorem flush_undisturbed_iff (store : Store) (hw : store.overflow.writable = true)
    (hdir : store.overflow.dir = q.dir) (rounds : ℕ) (hrounds : 10 < rounds) :
    let t := start store
    let r := run (q.env h c) (doFlushWithin h L store.overflow rounds) t
    Undisturbed h q t r.result r.final ↔
      (∀ path ∈ unreached h L q t, objectsIn h t path = []) ∧
        ((∃ path ∈ q.paths t, t.readable h L path = false) → t.store.buffer.buf.length ≤ 100) := by
  intro t r
  obtain ⟨rounds, rfl⟩ : ∃ k, rounds = k + 1 := ⟨rounds - 1, by omega⟩
  by_cases hempty : t.store.buffer.buf = []
  · have hfew : t.store.buffer.buf.length ≤ 100 := by
      rw [hempty]
      exact Nat.zero_le _
    rw [unreached, if_pos hempty, and_iff_left fun _ => hfew]
    exact undisturbed_empty store.overflow rounds t hempty rfl rfl
  · rw [unreached, if_neg hempty]
    cases hall : (q.paths t).all (t.readable h L) with
    | true =>
      have hread := List.all_eq_true.mp hall
      have hcap : t.store.buffer.buf.length ≤ 100 * rounds := by
        have hb := t.store.buffer.bounded
        unfold ringCap at hb
        omega
      refine iff_of_true
        (undisturbed_readable store.overflow hw hdir rounds t hcap hempty hall rfl rfl) ⟨?_, ?_⟩
      · rw [List.dropWhile_eq_nil_iff.mpr hread]
        exact fun _ hmem => absurd hmem List.not_mem_nil
      · rintro ⟨path, hpath, hnot⟩
        rw [hread path hpath] at hnot
        cases hnot
    | false =>
      have hdamaged : ∃ path ∈ q.paths t, t.readable h L path = false := by
        simpa using hall
      rw [forall_prop_of_true hdamaged]
      exact undisturbed_damaged store.overflow hw hdir rounds t hempty hall rfl rfl

/-! ## A sound file and damaged ones -/

theorem objectLines_append (bytes rest : List UInt8) :
    objectLines h (bytes ++ 10 :: rest) = objectLines h bytes ++ objectLines h rest := by
  rw [objectLines, List.splitOnP_append_cons _ _ rfl, List.filterMap_append]
  rfl

theorem objectLines_line (hf : Json.FloatTexts h) (e : PyVal) :
    objectLines h (OverflowWriter.line h e) = [Json.asJson h e].filter isObject := by
  have htext : decodeUtf8 (OverflowWriter.line h e) = some (PyVal.dumps h true e ++ "\n") :=
    decodeUtf8_utf8 _
  have hevents := eventsOf_lines h hf [e]
  rw [List.flatMap_singleton] at hevents
  rw [objectLines_text h _ _ htext, hevents, List.map_singleton]

/-- A line with an integer of too many digits cannot be read. -/
theorem raisedBy_longInteger (hf : Json.FloatTexts h) (n : ℕ) (hL : L.intDigits = some n) (i : ℤ)
    (hi : 10 ^ n ≤ i.natAbs) : raisedBy h L (OverflowWriter.line h (.int i)) = some .valueError := by
  have htext : decodeUtf8 (OverflowWriter.line h (.int i)) =
      some (PyVal.dumps h true (.int i) ++ "\n") := decodeUtf8_utf8 _
  have hlines : strippedLines (PyVal.dumps h true (.int i) ++ "\n").toList =
      [(toString i).toList] := by
    have hnl : "\n".toList = '\n' :: [] := rfl
    rw [String.toList_append, hnl, strippedLines_cons _ _ _ rfl, strippedLines_dumps h hf,
      strippedLines_nil]
    rfl
  simp only [raisedBy, htext, hlines, readLines, String.ofList_toList,
    Json.loads_longInteger h L n hL i hi]

def thirdDay : Date := { nextDay with day := 3, day_range := by decide }

/-- A line with an object, and one that is not JSON. -/
def soundBytes : List UInt8 := [0x7b, 0x7d, 10, 0x78, 10]

/-- A line with an integer of 4301 digits. -/
def longBytes : List UInt8 := OverflowWriter.line plainHost (.int (10 ^ 4300))

theorem long_unreadable : raisedBy plainHost plainLimits longBytes = some .valueError := by
  have hpow : ∀ n : ℕ, ((10 : ℤ) ^ n).natAbs = 10 ^ n := fun n => by rw [Int.natAbs_pow]; rfl
  exact raisedBy_longInteger plainHost_floats 4300 rfl _ (Nat.le_of_eq (hpow 4300).symm)

theorem long_objects : objectLines plainHost longBytes = [] := by
  rw [longBytes, objectLines_line plainHost_floats]
  rfl

/-- A sound file, one with a long integer and one that is not UTF-8. -/
def mixedFiles (path : String) : Option (List UInt8) :=
  if path = pathJoin "o" (fileName "a1" newYear) then some soundBytes
  else if path = pathJoin "o" (fileName "a1" nextDay) then some longBytes
  else if path = pathJoin "o" (fileName "a1" thirdDay) then some [0xff, 10]
  else none

def mixedStore : Store := { oneEvent with disk := ⟨mixedFiles, fun _ => true⟩ }

def threeFiles : Quiet :=
  { twoFiles with
    entries := [fileName "a1" newYear, fileName "a1" nextDay, fileName "a1" thirdDay]
    nodup := by decide
    plain := by decide }

theorem mixed_paths : threeFiles.paths (start mixedStore) =
    threeFiles.entries.map (pathJoin "o") := by
  have hnames : (threeFiles.present (start mixedStore)).filter isOverflowName =
      threeFiles.entries := by decide +kernel
  rw [Quiet.paths, overflowNames, hnames, List.mergeSort_of_pairwise (by decide +kernel)]
  rfl

theorem mixed_long : (start mixedStore).files (pathJoin "o" (fileName "a1" nextDay)) =
    some longBytes := by
  show mixedFiles (pathJoin "o" (fileName "a1" nextDay)) = some longBytes
  rw [mixedFiles, if_neg (by decide +kernel), if_pos rfl]

theorem mixed_unreached : unreached plainHost plainLimits threeFiles (start mixedStore) =
    [pathJoin "o" (fileName "a1" nextDay), pathJoin "o" (fileName "a1" thirdDay)] := by
  have hsound : (start mixedStore).readable plainHost plainLimits
      (pathJoin "o" (fileName "a1" newYear)) = true := by decide +kernel
  have hlong : (start mixedStore).readable plainHost plainLimits
      (pathJoin "o" (fileName "a1" nextDay)) = false := by
    rw [readable, mixed_long, Option.all_some, long_unreadable]
    rfl
  have hbuffered : (start mixedStore).store.buffer.buf ≠ [] := List.cons_ne_nil _ _
  rw [unreached, if_neg hbuffered, mixed_paths]
  simp only [threeFiles, List.map_cons, List.map_nil, List.dropWhile_cons, hsound, hlong, if_true,
    if_neg Bool.false_ne_true]

/-- The object in the sound file and the event in the buffer are delivered: there is no object in
the damaged files. -/
theorem flush_undisturbed_mixed :
    let t := start mixedStore
    let r := run (threeFiles.env plainHost plainClient)
      (doFlushWithin plainHost plainLimits mixedStore.overflow 11) t
    Undisturbed plainHost threeFiles t r.result r.final := by
  refine (flush_undisturbed_iff mixedStore rfl rfl 11 (by decide)).mpr
    ⟨fun path hpath => ?_, fun _ => ?_⟩
  · rw [mixed_unreached] at hpath
    rcases List.mem_cons.mp hpath with rfl | hpath
    · rw [objectsIn, mixed_long, Option.map_some, Option.getD_some, long_objects]
    · rw [List.mem_singleton.mp hpath]
      decide +kernel
  · decide

/-! ## One byte -/

/-- A byte that is not UTF-8 on one line, an event on the next. -/
def damagedBytes : List UInt8 := [0xff] ++ 10 :: OverflowWriter.line plainHost (.dict [])

def damagedPath : String := pathJoin "o" (fileName "a1" newYear)

/-- The damaged file, and one event in the buffer. -/
def damagedStore : Store :=
  { oneEvent with
    disk := ⟨fun path => if path = damagedPath then some damagedBytes else none, fun _ => true⟩ }

theorem damaged_file : (start damagedStore).files damagedPath = some damagedBytes := by
  show (if damagedPath = damagedPath then some damagedBytes else none) = _
  rw [if_pos rfl]

theorem damaged_paths (path : String) :
    path ∈ oneFile.paths (start damagedStore) ↔ path = damagedPath := by
  rw [Quiet.mem_paths]
  constructor
  · rintro ⟨name, hname, -, rfl, -⟩
    rw [List.mem_singleton.mp hname]
    rfl
  · rintro rfl
    refine ⟨_, List.mem_singleton_self _, fileName_overflow "a1" newYear, rfl, ?_⟩
    rw [damaged_file]
    rfl

theorem damaged_unreadable :
    (start damagedStore).readable plainHost plainLimits damagedPath = false := by
  have hline : OverflowWriter.line plainHost (.dict []) = [0x7b, 0x7d, 10] := by
    rw [line_eq]
    simp [PyVal.dumps, PyVal.dumpsEntries, utf8Chars, String.utf8EncodeChar]
  have hnone : decodeUtf8 damagedBytes = none := by
    rw [damagedBytes, hline]
    decide
  rw [readable, damaged_file, Option.all_some, raisedBy, hnone]
  rfl

/-- The event on the second line is not delivered. -/
theorem damaged_file_blocks :
    ¬ ∀ (q : Quiet) (store : Store), store.overflow.writable = true → store.overflow.dir = q.dir →
      Undisturbed plainHost q (start store)
        (run (q.env plainHost plainClient) (doFlushWithin plainHost plainLimits store.overflow 11)
          (start store)).result
        (run (q.env plainHost plainClient) (doFlushWithin plainHost plainLimits store.overflow 11)
          (start store)).final := by
  intro hall
  have hlines := (hall oneFile damagedStore rfl rfl).lines
  have hunread : (oneFile.paths (start damagedStore)).all
      ((start damagedStore).readable plainHost plainLimits) = false := by
    refine List.all_eq_false.mpr ⟨damagedPath, (damaged_paths _).mpr rfl, ?_⟩
    rw [damaged_unreadable]
    exact Bool.false_ne_true
  have hfile := (doFlush_quiet_damaged (h := plainHost) (L := plainLimits) (c := plainClient)
    (q := oneFile) damagedStore.overflow rfl rfl 10 (start damagedStore) (List.cons_ne_nil _ _)
    hunread).file
  have hnothing : (oneFile.paths (start damagedStore)).takeWhile
      ((start damagedStore).readable plainHost plainLimits) = [] := by
    refine List.eq_nil_iff_forall_not_mem.mpr fun path hpath => ?_
    have hread := List.mem_takeWhile_imp hpath
    rw [(damaged_paths path).mp (List.takeWhile_subset _ hpath), damaged_unreadable] at hread
    cases hread
  rw [hnothing] at hfile
  rw [hfile] at hlines
  have hobjects := List.flatMap_eq_nil_iff.mp hlines.symm damagedPath ((damaged_paths _).mpr rfl)
  rw [objectsIn, damaged_file, Option.map_some, Option.getD_some, damagedBytes, objectLines_append,
    objectLines_line plainHost_floats] at hobjects
  exact List.cons_ne_nil _ _ (List.append_eq_nil_iff.mp hobjects).2

end Trail

end Sigil.Audit
