import Sigil.Audit.Solo

/-! # The audit pipeline

A flush settles what it drains and comes to an end. So whatever pushes, writes and flushes a run is
made of, and whatever the server answers, every event is in a place at the end.
-/
set_option autoImplicit false

namespace Sigil.Audit

open Dialogue (Triple Stable Result Only Total Runs run triple_done triple_fail triple_spent triple_ask
  triple_query_bind attempt attempted total_query_bind only_query_bind only_done only_fail ofExcept)
open Json (FloatTexts Limits asJson)

namespace Trail

variable {h : Host} {L : Limits} {c : SigilClient} {others : Prop}

/-! ## Flush -/

/-- After the `try` block: only a transport error leaves its events in flight. -/
def Delivered (h : Host) (events : List PyVal) : Result (Exc Empty) Unit → Trail → Prop
  | .raised (.transport _ _ _), t => t.Kept h events
  | .unfinished, _ => True
  | _, t => t.Kept h []

theorem deliver_triple (hf : FloatTexts h) (w : OverflowWriter) (events : List PyVal)
    (hsize : 1 ≤ events.length ∧ events.length ≤ 100) :
    FlushTriple h c others (fun t => t.Kept h events) (deliverWithin h L w events)
      (Delivered h events) := by
  refine triple_query_bind
    (fun r t => match r with
      | .ok _ | .error (.api _ _) => t.Kept h []
      | .error (.transport _ _ _) => t.Kept h events
      | .error _ => False)
    (kept_stable events) (fun _ _ => trivial) ?_ ?_
  · rintro t r t' ht ⟨⟨now, heq⟩, -⟩
    obtain ⟨rfl, rfl⟩ := Prod.mk.inj heq
    rcases logBatch_cases c events now.http hsize.2 with
      ⟨v, hr⟩ | ⟨m, code, hr⟩ | ⟨m, method, url, hr⟩
    · simp only [hr]
      exact live_batch_kept events _ ht hsize (Or.inl ⟨v, rfl⟩)
    · simp only [hr]
      exact live_batch_kept events _ ht hsize (Or.inr ⟨m, code, rfl⟩)
    · simp only [hr]
      exact batch_kept .buffer events _ ht hsize
  · intro r
    cases r with
    | ok v =>
      intro t ht
      have hkeeps : ReplayKeeps h others (fun _ => True) fun t => t.Kept h [] := kept_replayKeeps hf
      have hreplay := replay_triple (L := L) (c := c) hkeeps w t ht
      refine Dialogue.wp_mono hreplay fun r t' ht' => ?_
      cases r with
      | raised e =>
        cases e <;> first | exact ht' | exact ht'.more
      | returned _ => exact ht'
      | unfinished => trivial
    | error e =>
      cases e with
      | transport m method url =>
        exact triple_fail (kept_stable events) (fun _ _ => trivial) fun t ht => ht
      | api m code => exact triple_fail (kept_stable []) (fun _ _ => trivial) fun t ht => ht
      | denied d => exact fun t ht => ht.elim
      | py e => exact fun t ht => ht.elim
      | raised x => exact x.elim

theorem writeAll_triple (events : List PyVal) :
    FlushTriple h c others (fun t => t.Kept h events) (writeAll events)
      (fun r t => r = .returned () → t.Kept h []) := by
  induction events with
  | nil => exact triple_done (kept_stable []) (fun _ _ => nofun) fun t ht _ => ht
  | cons event events ih =>
    refine triple_query_bind (fun _ t => t.Kept h events) (kept_stable _) (fun _ _ => nofun) ?_ ?_
    · rintro t r t' ht ⟨⟨now, heq⟩, -⟩
      obtain ⟨-, rfl⟩ := Prod.mk.inj heq
      exact write_settles now.day event ht
    · exact fun _ => ih

/-- **A flush settles what it drains.** -/
theorem doFlush_triple (hf : FloatTexts h) (w : OverflowWriter) (rounds : ℕ) :
    FlushTriple h c others (fun t => t.Kept h []) (doFlushWithin h L w rounds)
      (fun r t => r = .returned () → t.Kept h []) := by
  induction rounds with
  | zero => exact triple_spent (kept_stable []) fun _ _ => nofun
  | succ rounds ih =>
    refine triple_query_bind (fun events t => t.Kept h events ∧ events.length ≤ 100)
      (kept_stable []) (fun _ _ => nofun) ?_ ?_
    · rintro t r t' ht ⟨⟨now, heq⟩, -⟩
      obtain ⟨rfl, rfl⟩ := Prod.mk.inj heq
      exact ⟨drain_kept maxSendBatch ht, List.length_take_le _ _⟩
    · intro events
      cases events with
      | nil =>
        refine Triple.mono ?_ fun t ht => ht.1
        exact triple_done (kept_stable []) (fun _ _ => nofun) fun t ht _ => ht
      | cons event events =>
        intro t ht
        have hsize : 1 ≤ (event :: events).length ∧ (event :: events).length ≤ 100 :=
          ⟨Nat.succ_pos _, ht.2⟩
        refine Triple.bind (Triple.attempt (deliver_triple hf w (event :: events) hsize))
          ?_ ?_ ?_ t ht.1
        · intro r
          cases r with
          | ok _ => exact ih
          | error e =>
            cases e with
            | transport m method url => exact writeAll_triple (event :: events)
            | _ => exact triple_done (kept_stable []) (fun _ _ => nofun) fun t ht _ => ht
        · exact fun e t ht => ht.elim
        · exact fun _ _ => nofun

/-! ## A flush comes to an end -/

theorem deliver_total (h : Host) (L : Limits) (w : OverflowWriter) (events : List PyVal) :
    Total (deliverWithin h L w events) := by
  refine total_query_bind fun r => ?_
  cases r with
  | ok v => exact replay_total h L w
  | error e => exact trivial

/-- The state once the server has answered a drained batch. -/
def afterLive (c : SigilClient) (events : List PyVal) (s : Trail × Future) : Trail × Future :=
  (s.1.batchAnswered .buffer events (c.logBatch events (s.2.live 0)),
    { s.2 with live := fun k => s.2.live (k + 1) })

theorem deliver_run (w : OverflowWriter) (events : List PyVal) (s : Trail × Future) :
    (run (env h c) (deliverWithin h L w events) s).final.1.store.buffer = s.1.store.buffer ∧
      (run (env h c) (deliverWithin h L w events) s).final.2.live = fun k => s.2.live (k + 1) := by
  have hrun : (run (env h c) (deliverWithin h L w events) s).final =
      (run (env h c) (ofExcept (c.logBatch events (s.2.live 0)) >>= fun _ => replayWithin h L w)
        (afterLive c events s)).final := rfl
  rw [hrun]
  cases c.logBatch events (s.2.live 0) with
  | ok v => exact replay_frame w (afterLive c events s)
  | error e => exact ⟨rfl, rfl⟩

theorem writeAll_returns (events : List PyVal) (s : Trail × Future) :
    (run (env h c) (writeAll events) s).result = .returned () := by
  induction events generalizing s with
  | nil => rfl
  | cons event events ih => exact ih _

/-- What a flush does after the `try` block. -/
def sequel (h : Host) (L : Limits) (w : OverflowWriter) (rounds : ℕ) (events : List PyVal) :
    Except (Exc Empty) Unit → Flush Unit
  | .ok _ => doFlushWithin h L w rounds
  | .error (.transport _ _ _) => writeAll events
  | .error _ => pure ()

theorem doFlush_empty (w : OverflowWriter) (rounds : ℕ) (s : Trail × Future)
    (hb : s.1.store.buffer.buf = []) :
    (run (env h c) (doFlushWithin h L w (rounds + 1)) s).result = .returned () ∧
      (run (env h c) (doFlushWithin h L w (rounds + 1)) s).final = (s.1.drain 100, s.2) := by
  have hrun : run (env h c) (doFlushWithin h L w (rounds + 1)) s =
      { run (env h c) (if (s.1.store.buffer.buf.take 100).isEmpty then pure ()
          else attempt (deliverWithin h L w (s.1.store.buffer.buf.take 100)) >>=
            sequel h L w rounds (s.1.store.buffer.buf.take 100)) (s.1.drain 100, s.2) with
        events := (run (env h c) (doFlushWithin h L w (rounds + 1)) s).events } := rfl
  rw [hrun, hb]
  exact ⟨rfl, rfl⟩

/-- One round of a flush that finds events in the buffer. -/
theorem doFlush_round (w : OverflowWriter) (rounds : ℕ) (s : Trail × Future)
    (hb : s.1.store.buffer.buf ≠ []) :
    ∃ r, (run (env h c) (deliverWithin h L w (s.1.store.buffer.buf.take 100))
        (s.1.drain 100, s.2)).result = .ofExcept r ∧
      ∃ events, run (env h c) (doFlushWithin h L w (rounds + 1)) s =
        { run (env h c) (sequel h L w rounds (s.1.store.buffer.buf.take 100) r)
            (run (env h c) (deliverWithin h L w (s.1.store.buffer.buf.take 100))
              (s.1.drain 100, s.2)).final with events := events } := by
  have hne : (s.1.store.buffer.buf.take 100).isEmpty = false := by
    cases hbuf : s.1.store.buffer.buf with
    | nil => exact absurd hbuf hb
    | cons x xs => rfl
  obtain ⟨r, hr⟩ := (deliver_total h L w (s.1.store.buffer.buf.take 100)).run (env h c)
    (s.1.drain 100, s.2)
  have hrun : run (env h c) (doFlushWithin h L w (rounds + 1)) s =
      { run (env h c) (if (s.1.store.buffer.buf.take 100).isEmpty then pure ()
          else attempt (deliverWithin h L w (s.1.store.buffer.buf.take 100)) >>=
            sequel h L w rounds (s.1.store.buffer.buf.take 100)) (s.1.drain 100, s.2) with
        events := (run (env h c) (doFlushWithin h L w (rounds + 1)) s).events } := rfl
  refine ⟨r, hr, (run (env h c) (doFlushWithin h L w (rounds + 1)) s).events, ?_⟩
  rw [hrun, hne, if_neg Bool.false_ne_true, Dialogue.run_attempt_bind _ _ _ _ r hr]

/-- **A flush returns**, once it may go round often enough to empty the buffer. -/
theorem doFlush_returns (w : OverflowWriter) (rounds : ℕ) (s : Trail × Future)
    (hb : s.1.store.buffer.buf.length ≤ 100 * rounds) :
    (run (env h c) (doFlushWithin h L w (rounds + 1)) s).result = .returned () := by
  induction rounds generalizing s with
  | zero => exact (doFlush_empty w 0 s (List.length_eq_zero_iff.mp (by omega))).1
  | succ rounds ih =>
    by_cases hempty : s.1.store.buffer.buf = []
    · exact (doFlush_empty w (rounds + 1) s hempty).1
    · obtain ⟨r, -, events, hrun⟩ := doFlush_round (h := h) (L := L) (c := c) w (rounds + 1) s hempty
      rw [hrun]
      have hbuffer := (deliver_run (h := h) (L := L) (c := c) w (s.1.store.buffer.buf.take 100)
        (s.1.drain 100, s.2)).1
      cases r with
      | ok _ =>
        refine ih _ ?_
        rw [hbuffer]
        simp only [Trail.drain, LogBuffer.drain, List.length_drop]
        omega
      | error e =>
        cases e with
        | transport m method url => exact writeAll_returns _ _
        | _ => rfl

/-! ## Runs of the pipeline -/

inductive Op where
  | push (event : PyVal)
  | write (event : PyVal)
  | flush

def Op.event? : Op → Option PyVal
  | push event => some event
  | write event => some event
  | flush => none

def step (h : Host) (L : Limits) (c : SigilClient) (rounds : ℕ) (s : Trail × Future) :
    Op → Trail × Future
  | .push event => (s.1.push event, s.2)
  | .write event => (s.1.write h (s.2.days 0) event, s.2.next (.overflowWrite event))
  | .flush => (run (env h c) (doFlushWithin h L s.1.store.overflow rounds) s).final

def runOps (h : Host) (L : Limits) (c : SigilClient) (rounds : ℕ) (ops : List Op)
    (s : Trail × Future) : Trail × Future := ops.foldl (step h L c rounds) s

theorem flush_kept (hf : FloatTexts h) (w : OverflowWriter) (rounds : ℕ) (hrounds : 10 < rounds)
    (s : Trail × Future) (hk : s.1.Kept h []) :
    (run (env h c) (doFlushWithin h L w rounds) s).final.1.Kept h [] := by
  have hreturns : (run (env h c) (doFlushWithin h L w rounds) s).result = .returned () := by
    obtain ⟨rounds, rfl⟩ : ∃ k, rounds = k + 1 := ⟨rounds - 1, by omega⟩
    have hb := s.1.store.buffer.bounded
    exact doFlush_returns w rounds s (by unfold ringCap at hb; omega)
  exact (env_runs _ s).of_wp (doFlush_triple hf w rounds s.1 hk) hreturns

theorem step_kept (hf : FloatTexts h) (rounds : ℕ) (hrounds : 10 < rounds) (s : Trail × Future)
    (op : Op) (hk : s.1.Kept h []) : (step h L c rounds s op).1.Kept h [] := by
  cases op with
  | push event => exact push_kept event hk
  | write event => exact write_kept _ event hk
  | flush => exact flush_kept hf _ rounds hrounds s hk

/-- The trail knows of the event. -/
def Knows (t : Trail) (e : PyVal) : Prop := e ∈ t.pushed ∨ e ∈ t.written ∨ e ∈ t.unwritten

theorem write_knows (t : Trail) (day : String) (event e : PyVal) (hk : t.Knows e ∨ e = event) :
    (t.write h day event).Knows e := by
  rcases hk with (hp | hw | hu) | rfl
  · exact Or.inl hp
  · exact Or.inr (Or.inl (List.mem_append_left _ hw))
  · exact Or.inr (Or.inr (List.mem_append_left _ hu))
  · rcases write_cases h day e t with ⟨hw, -⟩ | ⟨hu, -⟩
    · exact Or.inr (Or.inl hw)
    · exact Or.inr (Or.inr hu)

theorem answer_knows (now : Choices) (q : FlushQuestion) (t : Trail) (e : PyVal) (hk : t.Knows e) :
    (answer h c now q t).2.Knows e := by
  cases q with
  | overflowWrite event => exact write_knows t now.day event e (Or.inl hk)
  | unlink path =>
    show (t.unlink path).Knows e
    unfold Trail.unlink
    split <;> exact hk
  | _ => exact hk

theorem step_knows (rounds : ℕ) (s : Trail × Future) (op : Op) (e : PyVal)
    (hk : s.1.Knows e ∨ op.event? = some e) : (step h L c rounds s op).1.Knows e := by
  cases op with
  | push event =>
    rcases hk with (hp | hrest) | heq
    · exact Or.inl (List.mem_append_left _ hp)
    · exact Or.inr hrest
    · cases heq
      exact Or.inl (List.mem_append_right _ (List.mem_singleton_self e))
  | write event => exact write_knows s.1 _ event e (hk.imp_right fun heq => (Option.some.inj heq).symm)
  | flush =>
    have hs : s.1.Knows e := hk.resolve_right nofun
    refine (env_runs (h := h) (c := c) (doFlushWithin h L s.1.store.overflow rounds)
      s).invariant (stable_alone fun t => t.Knows e) ?_ hs
    rintro t ⟨q, a⟩ t' ht ⟨⟨now, heq⟩, -⟩
    have := answer_knows (h := h) (c := c) now q t e ht
    rwa [heq] at this

theorem runOps_kept (hf : FloatTexts h) (rounds : ℕ) (hrounds : 10 < rounds) (ops : List Op)
    (s : Trail × Future) (hk : s.1.Kept h []) : (runOps h L c rounds ops s).1.Kept h [] := by
  induction ops generalizing s with
  | nil => exact hk
  | cons op ops ih => exact ih _ (step_kept hf rounds hrounds s op hk)

theorem runOps_knows (rounds : ℕ) (ops : List Op) (s : Trail × Future) (e : PyVal)
    (hk : s.1.Knows e ∨ e ∈ ops.filterMap Op.event?) : (runOps h L c rounds ops s).1.Knows e := by
  induction ops generalizing s with
  | nil => exact hk.resolve_right List.not_mem_nil
  | cons op ops ih =>
    refine ih _ ?_
    rcases hk with hk | he
    · exact Or.inl (step_knows rounds s op e (Or.inl hk))
    · obtain ⟨op', hop', hevent⟩ := List.mem_filterMap.mp he
      rcases List.mem_cons.mp hop' with rfl | hop'
      · exact Or.inl (step_knows rounds s op' e (Or.inr hevent))
      · exact Or.inr (List.mem_filterMap.mpr ⟨op', hop', hevent⟩)

theorem Kept.accounted {t : Trail} (hk : t.Kept h []) (hw : t.unwritten = []) (e : PyVal)
    (he : t.Knows e) : t.Accounted h e := by
  have hwritten : e ∈ t.written → t.Accounted h e := fun he =>
    (hk.sound.lines e he).elim .onDisk .accepted
  rcases he with he | he | he
  · cases hk.nil e he with
    | accepted he => exact .accepted he
    | buffered he => exact .buffered he
    | evicted he => exact .evicted he
    | refused he => exact .refused he
    | written he => exact hwritten he
    | unwritten he =>
      rw [hw] at he
      cases he
  · exact hwritten he
  · rw [hw] at he
    cases he

/-- **Every event is in a place.** In every run of pushes, writes and flushes in which no write was
turned away, whatever the server answers: at the end every event is accounted for; a file was
removed only once every event in it had been accepted; the buffer is within its bound; and every
batch had between 1 and 100 events. -/
theorem pipeline_accounted (hf : FloatTexts h) (store : Store)
    (hterm : ∀ path bytes, store.disk.files path = some bytes → Terminated bytes) (f : Future)
    (ops : List Op) (rounds : ℕ) (hrounds : 10 < rounds)
    (hw : (runOps h L c rounds ops (start store, f)).1.unwritten = []) :
    (∀ e, e ∈ store.buffer.buf ∨ e ∈ ops.filterMap Op.event? →
      (runOps h L c rounds ops (start store, f)).1.Accounted h e) ∧
    (∀ r ∈ (runOps h L c rounds ops (start store, f)).1.removed, ∀ v ∈ eventsOf h r.1, v ∈ r.2) ∧
    (runOps h L c rounds ops (start store, f)).1.store.buffer.buf.length ≤ 1000 ∧
    ∀ batch ∈ (runOps h L c rounds ops (start store, f)).1.sent,
      1 ≤ batch.2.length ∧ batch.2.length ≤ 100 := by
  have hk := runOps_kept (L := L) (c := c) hf rounds hrounds ops (start store, f)
    (start_kept store hterm)
  refine ⟨fun e he => ?_, hk.sound.removed, LogBuffer.bounded _, hk.sound.batches⟩
  refine hk.accounted hw e (runOps_knows rounds ops _ e ?_)
  exact he.imp_left fun hb => Or.inl hb

/-- An event pushed before an outage, and one after it. -/
theorem pipeline_accounted_outage :
    (runOps plainHost plainLimits plainClient 11 [.push (.str "x"), .flush, .push (.str "y")]
      (start (emptyStore "a1"), steady .raised)).1.Accounted plainHost (.str "x") :=
  (pipeline_accounted plainHost_floats (emptyStore "a1") (fun _ _ => nofun) (steady .raised)
    [.push (.str "x"), .flush, .push (.str "y")] 11 (by decide) rfl).1 (.str "x")
    (Or.inr (by simp [Op.event?]))

end Trail

end Sigil.Audit
