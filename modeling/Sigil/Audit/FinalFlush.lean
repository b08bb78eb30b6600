import Sigil.Audit.Pipeline

/-! # The final flush

`flush_all` is a flush like any other: it stops at the first batch that is not delivered, and what
is left in the buffer stays there. Exactly when that happens, over server answers that accept a
batch or do not arrive.
-/
set_option autoImplicit false

namespace Sigil.Audit

open Dialogue (Stable Result run triple_done)
open Json (FloatTexts Limits asJson)

/-! ## Answers -/

def Accepts (a : HttpAnswer) : Prop := ∃ v, a = .response 202 (some v)

/-- The batch was accepted, or the answer did not arrive. -/
def Answered (a : HttpAnswer) : Prop := Accepts a ∨ a = .raised

theorem logBatch_accepts (c : SigilClient) (events : List PyVal) (a : HttpAnswer)
    (hsize : events.length ≤ 100) (ha : Accepts a) :
    ∃ v, (c.logBatch events a : Except (Exc Empty) PyVal) = .ok v := by
  obtain ⟨v, rfl⟩ := ha
  have hmax : ¬ SigilClient.maxBatchSize < events.length := Nat.not_lt.mpr hsize
  exact ⟨v, by rw [SigilClient.logBatch, if_neg hmax]; rfl⟩

theorem logBatch_raised (c : SigilClient) (events : List PyVal) (hsize : events.length ≤ 100) :
    ∃ m method url, (c.logBatch events .raised : Except (Exc Empty) PyVal) =
      .error (.transport m method url) := by
  have hmax : ¬ SigilClient.maxBatchSize < events.length := Nat.not_lt.mpr hsize
  exact ⟨_, _, _, by rw [SigilClient.logBatch, if_neg hmax]; rfl⟩

namespace Trail

variable {h : Host} {L : Limits} {c : SigilClient}

/-! ## How a delivery ends -/

/-- The next batch is accepted, and the replay after it finds no file at which it raises. -/
def Delivers (h : Host) (L : Limits) (w : OverflowWriter) (t : Trail) (f : Future) (k : ℕ) : Prop :=
  Accepts (f.live k) ∧ ∀ path ∈ listed w (f.listings k), ¬ t.Blocked h L path

theorem deliver_accepted (w : OverflowWriter) (hw : w.writable = true) (events : List PyVal)
    (hsize : events.length ≤ 100) (s : Trail × Future) (ha : Accepts (s.2.live 0)) :
    ∃ tr, run (env h c) (deliverWithin h L w events) s =
      { run (env h c) (replayFilesWithin h L (listed w (s.2.listings 0)))
          ((afterLive c events s).1, (afterLive c events s).2.next .listDir) with events := tr } := by
  obtain ⟨v, hr⟩ := logBatch_accepts c events (s.2.live 0) hsize ha
  have hrun : run (env h c) (deliverWithin h L w events) s =
      { run (env h c)
          (Dialogue.ofExcept (c.logBatch events (s.2.live 0)) >>= fun _ => replayWithin h L w)
          (afterLive c events s) with
        events := (run (env h c) (deliverWithin h L w events) s).events } := rfl
  obtain ⟨tr, hreplay⟩ := replay_run (h := h) (L := L) (c := c) w hw (afterLive c events s)
  refine ⟨(run (env h c) (deliverWithin h L w events) s).events, ?_⟩
  rw [hrun, hr]
  show { run (env h c) (replayWithin h L w) (afterLive c events s) with
    events := (run (env h c) (deliverWithin h L w events) s).events } = _
  rw [hreplay]
  rfl

theorem deliver_raised (w : OverflowWriter) (events : List PyVal) (hsize : events.length ≤ 100)
    (s : Trail × Future) (ha : s.2.live 0 = .raised) :
    (∃ m method url, (run (env h c) (deliverWithin h L w events) s).result =
      .raised (.transport m method url)) ∧
      (run (env h c) (deliverWithin h L w events) s).final = afterLive c events s := by
  obtain ⟨m, method, url, hr⟩ := logBatch_raised c events hsize
  have hrun : run (env h c) (deliverWithin h L w events) s =
      { run (env h c)
          (Dialogue.ofExcept (c.logBatch events (s.2.live 0)) >>= fun _ => replayWithin h L w)
          (afterLive c events s) with
        events := (run (env h c) (deliverWithin h L w events) s).events } := rfl
  rw [hrun, ha, hr]
  exact ⟨⟨m, method, url, rfl⟩, rfl⟩

/-- A delivered batch leaves the next ones to come, and replay raises at no other file. -/
theorem deliver_delivers (w : OverflowWriter) (hw : w.writable = true) (events : List PyVal)
    (hsize : events.length ≤ 100) (s : Trail × Future) (hd : Delivers h L w s.1 s.2 0) :
    (run (env h c) (deliverWithin h L w events) s).result = .returned () ∧
      ∀ k, Delivers h L w (run (env h c) (deliverWithin h L w events) s).final.1
        (run (env h c) (deliverWithin h L w events) s).final.2 k ↔
          Delivers h L w s.1 s.2 (k + 1) := by
  obtain ⟨tr, hrun⟩ := deliver_accepted (h := h) (L := L) (c := c) w hw events hsize s hd.1
  rw [hrun]
  refine ⟨(replayFiles_result _ _).2 hd.2, fun k => ?_⟩
  have hframe := replayFiles_frame (h := h) (L := L) (c := c) (listed w (s.2.listings 0))
    ((afterLive c events s).1, (afterLive c events s).2.next .listDir)
  have hblocked := replayFiles_blocked (h := h) (L := L) (c := c) (listed w (s.2.listings 0))
    ((afterLive c events s).1, (afterLive c events s).2.next .listDir) hd.2
  simp only [Delivers, hblocked, hframe.2.1, hframe.2.2]
  exact Iff.rfl

theorem deliver_stops (w : OverflowWriter) (hw : w.writable = true) (events : List PyVal)
    (hsize : events.length ≤ 100) (s : Trail × Future) (ha : Answered (s.2.live 0))
    (hd : ¬ Delivers h L w s.1 s.2 0) :
    ∃ e, (run (env h c) (deliverWithin h L w events) s).result = .raised e := by
  rcases ha with ha | ha
  · obtain ⟨tr, hrun⟩ := deliver_accepted (h := h) (L := L) (c := c) w hw events hsize s ha
    have hblocked : ∃ path ∈ listed w (s.2.listings 0), s.1.Blocked h L path := by
      by_contra hnone
      exact hd ⟨ha, fun path hp hg => hnone ⟨path, hp, hg⟩⟩
    obtain ⟨e, he⟩ := (replayFiles_result (h := h) (L := L) (c := c) _
      ((afterLive c events s).1, (afterLive c events s).2.next .listDir)).1 hblocked
    rw [hrun]
    exact ⟨.py e, he⟩
  · obtain ⟨⟨m, method, url, he⟩, -⟩ :=
      deliver_raised (h := h) (L := L) (c := c) w events hsize s ha
    exact ⟨_, he⟩

/-! ## What is left in the buffer -/

theorem writeAll_buffer (events : List PyVal) (s : Trail × Future) :
    (run (env h c) (writeAll events) s).final.1.store.buffer = s.1.store.buffer := by
  induction events generalizing s with
  | nil => rfl
  | cons event events ih => exact ih _

/-- A flush that stops after its first batch leaves the rest. -/
theorem stopped_iff (w : OverflowWriter) (t : Trail) (f : Future) (hstop : ¬ Delivers h L w t f 0) :
    t.store.buffer.buf.drop 100 = [] ↔
      ∀ k, 100 * (k + 1) < t.store.buffer.buf.length → Delivers h L w t f k := by
  rw [List.drop_eq_nil_iff]
  constructor
  · intro hle k hk
    omega
  · intro hall
    by_contra hgt
    exact hstop (hall 0 (by omega))

theorem sequel_error_buffer (w : OverflowWriter) (rounds : ℕ) (events : List PyVal)
    (e : Exc Empty) (s : Trail × Future) :
    (run (env h c) (sequel h L w rounds events (.error e)) s).final.1.store.buffer =
      s.1.store.buffer := by
  cases e with
  | transport m method url => exact writeAll_buffer events s
  | _ => rfl

/-- **What a flush leaves.** The buffer is empty in the end exactly when every batch but the last is
delivered. -/
theorem doFlush_empties_iff (w : OverflowWriter) (hw : w.writable = true) (rounds : ℕ)
    (s : Trail × Future) (hb : s.1.store.buffer.buf.length ≤ 100 * rounds)
    (hlive : ∀ k, Answered (s.2.live k)) :
    (run (env h c) (doFlushWithin h L w (rounds + 1)) s).final.1.store.buffer.buf = [] ↔
      ∀ k, 100 * (k + 1) < s.1.store.buffer.buf.length → Delivers h L w s.1 s.2 k := by
  induction rounds generalizing s with
  | zero =>
    have hnil : s.1.store.buffer.buf = [] := List.length_eq_zero_iff.mp (by omega)
    rw [(doFlush_empty w 0 s hnil).2]
    simp [Trail.drain, LogBuffer.drain, hnil]
  | succ rounds ih =>
    by_cases hempty : s.1.store.buffer.buf = []
    · rw [(doFlush_empty w (rounds + 1) s hempty).2]
      simp [Trail.drain, LogBuffer.drain, hempty]
    · obtain ⟨r, hr, tr, hrun⟩ := doFlush_round (h := h) (L := L) (c := c) w (rounds + 1) s hempty
      have hsize : (s.1.store.buffer.buf.take 100).length ≤ 100 := List.length_take_le _ _
      obtain ⟨hbuffer, hlives⟩ := deliver_run (h := h) (L := L) (c := c) w (s.1.store.buffer.buf.take 100)
        (s.1.drain 100, s.2)
      rw [hrun]
      by_cases hdel : Delivers h L w s.1 s.2 0
      · -- the batch arrives, and the flush goes on
        obtain ⟨hret, hnext⟩ := deliver_delivers (h := h) (L := L) (c := c) w hw _ hsize
          (s.1.drain 100, s.2) hdel
        obtain rfl : r = .ok () := Dialogue.Result.ofExcept_inj (hr.symm.trans hret)
        have hlen : (run (env h c) (deliverWithin h L w (s.1.store.buffer.buf.take 100))
            (s.1.drain 100, s.2)).final.1.store.buffer.buf.length =
            s.1.store.buffer.buf.length - 100 := by
          rw [hbuffer]
          exact List.length_drop
        refine (ih _ ?_ ?_).trans ?_
        · omega
        · rw [hlives]
          exact fun k => hlive (k + 1)
        · simp only [hnext, hlen]
          constructor
          · intro hall k hk
            cases k with
            | zero => exact hdel
            | succ k => exact hall k (by omega)
          · exact fun hall k hk => hall (k + 1) (by omega)
      · -- it does not, and the flush stops
        obtain ⟨e, he⟩ := deliver_stops (h := h) (L := L) (c := c) w hw _ hsize (s.1.drain 100, s.2)
          (hlive 0) hdel
        obtain rfl : r = .error e := Dialogue.Result.ofExcept_inj (hr.symm.trans he)
        rw [sequel_error_buffer, hbuffer]
        exact stopped_iff w s.1 s.2 hdel

/-! ## The final flush -/

theorem logBatch_not_api (events : List PyVal) (a : HttpAnswer) (ha : Answered a) :
    isApiError (c.logBatch events a) = false := by
  unfold SigilClient.logBatch
  split
  · rfl
  · rcases ha with ⟨v, rfl⟩ | rfl
    · rfl
    · rfl

/-- Nothing is refused, and nothing thrown out of the buffer. -/
theorem flush_unrefused {α : Type} (p : Flush α) (s : Trail × Future)
    (hs : s.1.refused = [] ∧ s.1.evicted = []) (hlive : ∀ k, Answered (s.2.live k)) :
    (run (env h c) p s).final.1.refused = [] ∧ (run (env h c) p s).final.1.evicted = [] := by
  have hall : Dialogue.Only (fun _ => True) p := fun _ _ _ _ _ => trivial
  have hI := hall.run (env h c) (I := fun s =>
    (s.1.refused = [] ∧ s.1.evicted = []) ∧ ∀ k, Answered (s.2.live k)) ?_ s ⟨hs, hlive⟩
  · exact hI.1
  · rintro q s ⟨⟨href, hev⟩, hlive⟩ -
    cases q with
    | logBatch source events =>
      cases source with
      | buffer =>
        refine ⟨⟨?_, hev⟩, fun k => hlive (k + 1)⟩
        show s.1.refused ++ (if Source.buffer = .buffer ∧
          isApiError (c.logBatch events (s.2.live 0)) = true then events else []) = []
        rw [logBatch_not_api events _ (hlive 0), href]
        rfl
      | file path =>
        refine ⟨⟨?_, hev⟩, hlive⟩
        show s.1.refused ++ (if Source.file path = .buffer ∧ _ then events else []) = []
        rw [href]
        rfl
    | unlink path =>
      refine ⟨?_, hlive⟩
      show (s.1.unlink path).refused = [] ∧ (s.1.unlink path).evicted = []
      unfold Trail.unlink
      split <;> exact ⟨href, hev⟩
    | _ => exact ⟨⟨href, hev⟩, hlive⟩

/-- **When the final flush leaves nothing behind.** With a writable overflow directory, and answers
that accept a batch or do not arrive, `flush_all` returns; and the buffer is empty then, with every
event accepted or on disk, exactly when every batch but the last is delivered: accepted, and with
no file in the directory at which replay raises. -/
theorem flush_leaves_nothing_iff (hf : FloatTexts h) (store : Store)
    (hterm : ∀ path bytes, store.disk.files path = some bytes → Terminated bytes)
    (hwritable : store.overflow.writable = true) (f : Future) (hlive : ∀ k, Answered (f.live k))
    (rounds : ℕ) (hrounds : 10 < rounds)
    (hw : (run (env h c) (doFlushWithin h L store.overflow rounds)
      (start store, f)).final.1.unwritten = []) :
    let r := run (env h c) (doFlushWithin h L store.overflow rounds) (start store, f)
    r.result = .returned () ∧
    (r.final.1.store.buffer.buf = [] ∧
      (∀ e ∈ store.buffer.buf, r.final.1.Accepted h e ∨ r.final.1.OnDisk h e) ↔
      ∀ k, 100 * (k + 1) < store.buffer.buf.length →
        Delivers h L store.overflow (start store) f k) := by
  intro r
  have hk := flush_kept (L := L) (c := c) hf store.overflow rounds hrounds (start store, f)
    (start_kept store hterm)
  obtain ⟨href, hev⟩ := flush_unrefused (h := h) (c := c) (doFlushWithin h L store.overflow rounds)
    (start store, f) ⟨rfl, rfl⟩ hlive
  have hknows : ∀ e ∈ store.buffer.buf,
      (run (env h c) (doFlushWithin h L store.overflow rounds) (start store, f)).final.1.Knows e :=
    fun e he => step_knows (h := h) (L := L) (c := c) rounds (start store, f) .flush e
      (Or.inl (Or.inl he))
  obtain ⟨rounds, rfl⟩ : ∃ k, rounds = k + 1 := ⟨rounds - 1, by omega⟩
  have hb : store.buffer.buf.length ≤ 100 * rounds := by
    have := store.buffer.bounded
    unfold ringCap at this
    omega
  have hempties := doFlush_empties_iff (h := h) (L := L) (c := c) store.overflow hwritable rounds
    (start store, f) hb hlive
  refine ⟨doFlush_returns store.overflow rounds (start store, f) hb, ?_⟩
  refine Iff.trans ⟨fun hp => hp.1, fun hempty => ⟨hempty, fun e he => ?_⟩⟩ hempties
  cases hk.accounted hw e (hknows e he) with
  | accepted he => exact Or.inl he
  | onDisk he => exact Or.inr he
  | buffered he =>
    rw [hempty] at he
    cases he
  | evicted he =>
    rw [hev] at he
    cases he
  | refused he =>
    rw [href] at he
    cases he

/-- A full batch, and one event more. -/
def manyEvents : Store :=
  { emptyStore "a1" with
    buffer := ⟨(List.range 101).map fun k : ℕ => PyVal.int (k : ℤ), true, by simp [ringCap]⟩ }

/-- The server accepts a batch and goes down. -/
def acceptedOnce : Future :=
  { steady .raised with live := fun k => if k = 0 then acceptedAnswer else .raised }

/-- The first batch is accepted, and the event after it goes to disk. -/
theorem flush_leaves_nothing_manyEvents :
    (run (env plainHost plainClient) (doFlushWithin plainHost plainLimits manyEvents.overflow 11)
        (start manyEvents, acceptedOnce)).final.1.store.buffer.buf = [] ∧
      ∀ e ∈ manyEvents.buffer.buf,
        (run (env plainHost plainClient)
          (doFlushWithin plainHost plainLimits manyEvents.overflow 11)
          (start manyEvents, acceptedOnce)).final.1.Accepted plainHost e ∨
        (run (env plainHost plainClient)
          (doFlushWithin plainHost plainLimits manyEvents.overflow 11)
          (start manyEvents, acceptedOnce)).final.1.OnDisk plainHost e := by
  have hanswered : ∀ k, Answered (acceptedOnce.live k) := by
    intro k
    by_cases hk : k = 0
    · exact Or.inl ⟨.dict [], by rw [hk]; rfl⟩
    · exact Or.inr (if_neg hk)
  have hall := flush_leaves_nothing_iff (L := plainLimits) (c := plainClient) plainHost_floats
    manyEvents (fun _ _ hb => by cases hb) rfl acceptedOnce hanswered 11 (by decide)
    (by decide +kernel)
  refine hall.2.mpr fun k hk => ?_
  have hfirst : k = 0 := by
    simp only [manyEvents, List.length_map, List.length_range] at hk
    omega
  have hnone : listed manyEvents.overflow (acceptedOnce.listings 0) = [] := by
    simp [listed, overflowNames, acceptedOnce, steady]
  rw [hfirst, Delivers, hnone]
  exact ⟨⟨.dict [], rfl⟩, fun _ hpath => absurd hpath List.not_mem_nil⟩

/-! ## More than one batch -/

/-- With room for all of them, all events are written. -/
theorem writeAll_room (events : List PyVal) (s : Trail × Future)
    (hwr : s.1.store.overflow.writable = true)
    (hopen : ∀ path, s.1.store.disk.canOpen path = true)
    (hroom : ∀ path, ((s.1.files path).getD []).length +
      (events.flatMap (OverflowWriter.line h)).length < maxOverflowFileBytes) :
    (run (env h c) (writeAll events) s).final.1.unwritten = s.1.unwritten := by
  induction events generalizing s with
  | nil => rfl
  | cons event events ih =>
    have hready : (s.1.store.onDay (s.2.days 0)).Ready := by
      refine ⟨hwr, hopen _, fun bytes hbytes => ?_⟩
      have hpath := hroom (s.1.store.overflow.currentPath (s.2.days 0))
      have hfile : s.1.files (s.1.store.overflow.currentPath (s.2.days 0)) = some bytes := hbytes
      rw [hfile] at hpath
      simp only [Option.getD_some] at hpath
      omega
    have hwrite := OverflowWriter.write_of_ready h s.1.store.overflow s.1.store.disk (s.2.days 0)
      event hready
    have hstep : (run (env h c) (writeAll (event :: events)) s).final =
        (run (env h c) (writeAll events)
          (s.1.write h (s.2.days 0) event, s.2.next (.overflowWrite event))).final := rfl
    have hun : (s.1.write h (s.2.days 0) event).unwritten = s.1.unwritten := by
      simp [Trail.write, hready]
    rw [hstep, ih, hun]
    · show ((s.1.store.onDay (s.2.days 0)).overflowWrite h event).overflow.writable = true
      simp only [Store.overflowWrite, Store.onDay, hwrite, hwr]
    · intro path
      show ((s.1.store.onDay (s.2.days 0)).overflowWrite h event).disk.canOpen path = true
      simp only [Store.overflowWrite, Store.onDay, hwrite, hopen]
    · intro path
      have hpath := hroom path
      rw [List.flatMap_cons, List.length_append] at hpath
      show ((((s.1.store.onDay (s.2.days 0)).overflowWrite h event).disk.files path).getD []).length +
        _ < _
      simp only [Store.overflowWrite, Store.onDay, hwrite]
      by_cases hp : path = s.1.store.overflow.currentPath (s.2.days 0)
      · rw [hp, Function.update_self, Option.getD_some, List.length_append]
        rw [hp] at hpath
        have hfile : s.1.store.disk.files = s.1.files := rfl
        rw [hfile]
        omega
      · rw [Function.update_of_ne hp]
        have hfile : s.1.store.disk.files = s.1.files := rfl
        rw [hfile]
        omega

/-- The server is down: the first batch is written, and that is all. -/
theorem doFlush_down (w : OverflowWriter) (rounds : ℕ) (s : Trail × Future)
    (hb : s.1.store.buffer.buf ≠ []) (ha : s.2.live 0 = .raised) :
    (run (env h c) (doFlushWithin h L w (rounds + 1)) s).final =
      (run (env h c) (writeAll (s.1.store.buffer.buf.take 100))
        (afterLive c (s.1.store.buffer.buf.take 100) (s.1.drain 100, s.2))).final := by
  obtain ⟨r, hr, tr, hrun⟩ := doFlush_round (h := h) (L := L) (c := c) w rounds s hb
  obtain ⟨⟨m, method, url, he⟩, hfinal⟩ := deliver_raised (h := h) (L := L) (c := c) w
    (s.1.store.buffer.buf.take 100) (List.length_take_le _ _) (s.1.drain 100, s.2) ha
  obtain rfl : r = .error (.transport m method url) := by
    rw [he] at hr
    cases r with
    | ok u => cases hr
    | error e' =>
      cases hr
      rfl
  rw [hrun, hfinal]
  rfl

def twoBatches : Store :=
  { emptyStore "a1" with buffer := ⟨List.replicate 101 .none, true, by simp [ringCap]⟩ }

theorem line_none_length : (OverflowWriter.line plainHost .none).length = 5 := by
  rw [line_eq]
  simp [PyVal.dumps, utf8Chars, String.utf8EncodeChar]

/-- The server is down, and 101 events are buffered: one stays behind. -/
theorem outage_leaves_event :
    ¬ ∀ (store : Store) (f : Future),
      (∀ path bytes, store.disk.files path = some bytes → Terminated bytes) →
      store.overflow.writable = true → (∀ k, Answered (f.live k)) →
      (∀ k, Answered (f.replayed k)) →
      (run (env plainHost plainClient) (doFlushWithin plainHost plainLimits store.overflow 11)
        (start store, f)).final.1.unwritten = [] →
      (run (env plainHost plainClient) (doFlushWithin plainHost plainLimits store.overflow 11)
        (start store, f)).final.1.store.buffer.buf = [] := by
  intro hall
  have hrounds : (11 : ℕ) = 10 + 1 := rfl
  rw [hrounds] at hall
  have hun : (run (env plainHost plainClient)
      (doFlushWithin plainHost plainLimits twoBatches.overflow (10 + 1))
      (start twoBatches, steady .raised)).final.1.unwritten = [] := by
    rw [doFlush_down twoBatches.overflow 10 (start twoBatches, steady .raised)
      (by simp [start, twoBatches]) rfl, writeAll_room _ _ rfl (fun _ => rfl) fun path => ?_]
    · rfl
    · simp [start, twoBatches, afterLive, files, Trail.drain, batchAnswered, emptyStore,
        line_none_length, maxOverflowFileBytes]
  have hempty := hall twoBatches (steady .raised) (fun _ _ hb => by cases hb) rfl
    (fun _ => Or.inr rfl) (fun _ => Or.inr rfl) hun
  have hdelivers := (doFlush_empties_iff (h := plainHost) (L := plainLimits) (c := plainClient)
    twoBatches.overflow rfl 10 (start twoBatches, steady .raised) (by simp [start, twoBatches])
    fun _ => Or.inr rfl).mp hempty
  obtain ⟨⟨v, hv⟩, -⟩ := hdelivers 0 (by simp [start, twoBatches])
  cases hv

end Trail

end Sigil.Audit
