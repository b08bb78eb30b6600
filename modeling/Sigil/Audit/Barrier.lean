import Sigil.Audit.Concurrency

/-! # A flush as a barrier

`flush_all` is called where events must not stay behind in memory: when a task is left, and when the
client is closed. Other threads push and flush meanwhile, so the buffer need not be empty when it
returns. What holds then is said of the events that had been pushed when it began
(`flush_is_barrier`), unless an error has broken it off.
-/
set_option autoImplicit false

namespace Sigil.Audit

open Dialogue (Shared Guided Follows guided_done guided_fail guided_spent guided_ask
  guided_query_bind heardBy)

/-! ## How a flush ends -/

/-- The buffer was seen to be empty. -/
def FindsEmpty : FlushEvent → Prop
  | ⟨.drain n, events⟩ => 0 < n ∧ events = []
  | _ => False

/-- The answers a flush does not go on after: a batch of the buffer that was not accepted, and what
a replay raises at. -/
def BreaksOff (h : Host) (L : Json.Limits) : FlushEvent → Prop
  | ⟨.logBatch .buffer _, r⟩ => r.isOk = false
  | ⟨.logBatch (.file _) _, .error e⟩ => e.isUnreachable = false
  | ⟨.readFile _, some bytes⟩ => raisedBy h L bytes ≠ none
  | _ => False

inductive Progress where
  | going
  | emptied
  | broken

inductive Progress.Step (h : Host) (L : Json.Limits) :
    Progress → FlushEvent → Progress → Prop where
  | goesOn (e : FlushEvent) : Step h L .going e .going
  | empties (e : FlushEvent) (he : FindsEmpty e) : Step h L .going e .emptied
  | breaks (e : FlushEvent) (he : BreaksOff h L e) : Step h L .going e .broken
  | spills (event : PyVal) : Step h L .broken ⟨.overflowWrite event, ()⟩ .broken

/-- What raises has been broken off. -/
def Progress.After {α : Type} : Except (Exc Empty) α → Progress → Prop
  | .ok _, g => g = going
  | .error _, g => g = broken

section Guided

open Progress

variable {h : Host} {L : Json.Limits} {w : OverflowWriter}

theorem sendBatches_progress (path : String) (batches : List (List PyVal)) :
    Guided (Step h L) (sendBatches path batches) .going After := by
  induction batches with
  | nil => exact guided_done true rfl
  | cons batch batches ih =>
    apply guided_query_bind
    intro r
    cases r with
    | ok v => exact ⟨.going, .goesOn _, ih⟩
    | error e =>
      cases hu : e.isUnreachable with
      | true =>
        refine ⟨.going, .goesOn _, ?_⟩
        simp only [hu, if_true]
        exact guided_done false rfl
      | false =>
        refine ⟨.broken, .breaks _ hu, ?_⟩
        simp only [hu, if_neg Bool.false_ne_true]
        exact guided_fail e rfl

theorem unlink_progress (path : String) : Guided (Step h L) (unlink path) .going After :=
  guided_ask fun _ => ⟨.going, .goesOn _, guided_done () rfl⟩

theorem replayFile_progress (path : String) :
    Guided (Step h L) (replayFileWithin h L path) .going After := by
  apply guided_query_bind
  intro r
  cases r with
  | none => exact ⟨.going, .goesOn _, guided_done () rfl⟩
  | some bytes =>
    rcases replayRead_cases h L path bytes with ⟨e, hraised, hfail⟩ | ⟨-, text, -, hread⟩
    · refine ⟨.broken, .breaks _ ?_, ?_⟩
      · show raisedBy h L bytes ≠ none
        rw [hraised]
        exact Option.some_ne_none e
      · rw [hfail]
        exact guided_fail _ rfl
    · refine ⟨.going, .goesOn _, ?_⟩
      rw [hread]
      simp only [replayText]
      split
      · exact unlink_progress path
      · refine (sendBatches_progress path _).bind (fun allOk g hg => ?_) fun e g hg => hg
        obtain rfl := hg
        cases allOk with
        | true => exact unlink_progress path
        | false => exact guided_done () rfl

theorem replay_progress : Guided (Step h L) (replayWithin h L w) .going After := by
  unfold replayWithin
  split
  · exact guided_done () rfl
  · apply guided_query_bind
    intro r
    refine ⟨.going, .goesOn _, ?_⟩
    cases r with
    | none => exact guided_done () rfl
    | some listing =>
      show Guided (Step h L) (replayFilesWithin h L _) .going After
      generalize (overflowNames listing).map (OverflowWriter.pathJoin w.dir) = paths
      induction paths with
      | nil => exact guided_done () rfl
      | cons path paths ih =>
        refine (replayFile_progress path).bind (fun _ g hg => ?_) fun e g hg => hg
        obtain rfl := hg
        exact ih

theorem deliver_progress (events : List PyVal) :
    Guided (Step h L) (deliverWithin h L w events) .going After := by
  apply guided_query_bind
  intro r
  cases r with
  | ok v => exact ⟨.going, .goesOn _, replay_progress⟩
  | error e => exact ⟨.broken, .breaks _ rfl, guided_fail e rfl⟩

theorem writeAll_progress (events : List PyVal) :
    Guided (Step h L) (writeAll events) .broken fun _ g => g = .broken := by
  induction events with
  | nil => exact guided_done () rfl
  | cons event events ih => exact guided_query_bind fun _ => ⟨.broken, .spills event, ih⟩

theorem doFlush_progress (rounds : ℕ) :
    Guided (Step h L) (doFlushWithin h L w rounds) .going fun _ g => g ≠ .going := by
  induction rounds with
  | zero => exact guided_spent
  | succ rounds ih =>
    apply guided_query_bind
    intro events
    cases events with
    | nil => exact ⟨.emptied, .empties _ ⟨by decide, rfl⟩, guided_done () nofun⟩
    | cons event events =>
      refine ⟨.going, .goesOn _, (deliver_progress (event :: events)).attempt_bind ?_⟩
      intro x g hg
      cases x with
      | ok _ =>
        obtain rfl := hg
        exact ih
      | error e =>
        obtain rfl := hg
        cases e with
        | transport m method url =>
          refine (writeAll_progress (event :: events)).mono fun _ g hg => ?_
          rw [hg]
          exact nofun
        | _ => exact guided_done () nofun

end Guided

/-- What each stage tells about the flush so far. -/
def Progress.Past (h : Host) (L : Json.Limits) : Progress → List FlushEvent → Prop
  | going, _ => True
  | emptied, tr => ∃ e ∈ tr, FindsEmpty e
  | broken, tr => ∃ e ∈ tr, BreaksOff h L e

theorem Progress.past_step {h : Host} {L : Json.Limits} {g g' : Progress} {e : FlushEvent}
    (before : List FlushEvent) (hpast : g.Past h L before) (hs : Step h L g e g') :
    g'.Past h L (before ++ [e]) := by
  cases hs with
  | goesOn => trivial
  | empties _ he => exact ⟨e, by simp, he⟩
  | breaks _ he => exact ⟨e, by simp, he⟩
  | spills event =>
    obtain ⟨e, hmem, he⟩ := hpast
    exact ⟨e, List.mem_append_left _ hmem, he⟩

/-- A flush that has returned has seen the buffer empty, if nothing has broken it off. -/
theorem doFlush_findsEmpty {h : Host} {L : Json.Limits} {w : OverflowWriter} {rounds : ℕ}
    {tr : List FlushEvent} (hplays : Dialogue.Plays (doFlushWithin h L w rounds) tr (.returned ()))
    (hunbroken : ∀ e ∈ tr, ¬ BreaksOff h L e) : ∃ e ∈ tr, FindsEmpty e := by
  obtain ⟨g, hfollows, hends⟩ := doFlush_progress rounds tr _ hplays
  have hstart : Progress.Past h L .going [] := trivial
  have hpast : g.Past h L tr := hfollows.history (Progress.Past h L)
    (fun _ _ _ before hpast hs => Progress.past_step before hpast hs) [] hstart
  cases g with
  | going => exact absurd rfl (hends (.ok ()) rfl)
  | emptied => exact hpast
  | broken =>
    obtain ⟨e, hmem, he⟩ := hpast
    exact absurd he (hunbroken e hmem)

/-! ## What has left the buffer -/

section Barrier

variable {h : Host} {L : Json.Limits} {c : SigilClient} {ι : Type}

/-- The events that have left the buffer, and those in it, are those that were pushed. -/
def Left (t : Trail) (left : List PyVal) : Prop := t.pushed = left ++ t.store.buffer.buf

theorem push_left {t : Trail} {left : List PyVal} (ht : Left t left) (event : PyVal) :
    ∃ dropped, Left (t.push event) (left ++ dropped) := by
  by_cases hroom : t.store.buffer.buf.length < ringCap
  · refine ⟨[], ?_⟩
    simp only [Left, Trail.push, Store.push, LogBuffer.push, if_pos hroom, List.append_nil]
    rw [ht, List.append_assoc]
  · refine ⟨t.store.buffer.buf.take 1, ?_⟩
    simp only [Left, Trail.push, Store.push, LogBuffer.push, if_neg hroom]
    conv_lhs => rw [ht, ← List.take_append_drop 1 t.store.buffer.buf]
    simp only [List.append_assoc, List.drop_one]

theorem takes_left {t t' : Trail} {e : FlushEvent} {left : List PyVal} (ht : Left t left)
    (hstep : Takes h c t e t') : Left t' (left ++ drainedBy e) := by
  obtain ⟨hpushed, -, hbuf⟩ := takes_buffer hstep
  rw [Left, hpushed, List.append_assoc, ← hbuf]
  exact ht

/-- Where a drain finds nothing, everything has left. -/
theorem buffer_of_findsEmpty {t t' : Trail} {e : FlushEvent} (hstep : Takes h c t e t')
    (he : FindsEmpty e) : t.store.buffer.buf = [] := by
  obtain ⟨q, a⟩ := e
  obtain ⟨now, heq⟩ := hstep
  have hanswer : (Trail.answer h c now q t).1 = a := congrArg Prod.fst heq
  cases q with
  | drain n =>
    obtain ⟨hpos, hnil⟩ := he
    have htake : t.store.buffer.buf.take n = [] := hanswer.trans hnil
    rcases List.take_eq_nil_iff.mp htake with hn | hbuf
    · omega
    · exact hbuf
  | _ => exact he.elim

/-- Seen from the moment at which `earlier` had been pushed. -/
def Passed (earlier : List PyVal) (t : Trail) (tr : List (ι × FlushEvent)) : Prop :=
  ∃ left, Left t left ∧ earlier <+: t.pushed ∧ ((∃ e ∈ tr, FindsEmpty e.2) → earlier <+: left)

theorem passed_move {earlier : List PyVal} {t t' : Trail} {tr : List (ι × FlushEvent)}
    (ht : Passed earlier t tr) (hm : Elsewhere h t t') : Passed earlier t' tr := by
  obtain ⟨left, hleft, hpushed, hempty⟩ := ht
  cases hm with
  | push event =>
    obtain ⟨dropped, hleft'⟩ := push_left hleft event
    exact ⟨left ++ dropped, hleft', hpushed.trans (List.prefix_append _ _),
      fun hfound => (hempty hfound).trans (List.prefix_append _ _)⟩
  | write day event => exact ⟨left, hleft, hpushed, hempty⟩

theorem passed_answer {earlier : List PyVal} {t t' : Trail} {tr : List (ι × FlushEvent)}
    {e : FlushEvent} (ht : Passed earlier t tr) (hstep : Takes h c t e t') (i : ι) :
    Passed earlier t' (tr ++ [(i, e)]) := by
  obtain ⟨left, hleft, hpushed, hempty⟩ := ht
  obtain ⟨hpushed', -, -⟩ := takes_buffer hstep
  refine ⟨left ++ drainedBy e, takes_left hleft hstep, hpushed'.symm ▸ hpushed, ?_⟩
  rintro ⟨e', hmem, he'⟩
  rcases List.mem_append.mp hmem with hbefore | hnow
  · exact (hempty ⟨e', hbefore, he'⟩).trans (List.prefix_append _ _)
  · rw [List.mem_singleton.mp hnow] at he'
    rw [hleft, buffer_of_findsEmpty hstep he', List.append_nil] at hpushed
    exact hpushed.trans (List.prefix_append _ _)

variable [Fintype ι] [DecidableEq ι]

/-- **A flush is a barrier.** However many flushes run at once, beside threads that push and write:
when a flush returns that nothing has broken off, every event that had been pushed when it began has
left the buffer. It was evicted, is in an accepted batch, was refused or handed to the overflow
writer, or is in the hand of another flush that has not ended. -/
theorem flush_is_barrier (w : ι → OverflowWriter) (rounds : ι → ℕ) (store : Store)
    (tr₁ tr₂ : List (ι × FlushEvent)) (pool₁ pool₂ : ι → Flush Unit) (t₁ t₂ : Trail)
    (hbefore : Shared (Elsewhere h) (fun _ => Takes h c)
      (fun i => doFlushWithin h L (w i) (rounds i)) (Trail.start store) tr₁ pool₁ t₁)
    (hafter : Shared (Elsewhere h) (fun _ => Takes h c) pool₁ t₁ tr₂ pool₂ t₂)
    (i : ι) (hbegins : pool₁ i = doFlushWithin h L (w i) (rounds i))
    (hreturns : pool₂ i = .done ())
    (hunbroken : ∀ e ∈ heardBy i tr₂, ¬ BreaksOff h L e) :
    ∃ held : ι → List PyVal,
      (t₁.pushed : Multiset PyVal) ≤ t₂.evicted +
        ((tr₁ ++ tr₂).flatMap fun e => deliveredBy e.2) +
        ((tr₁ ++ tr₂).flatMap fun e => refusedBy e.2) +
        ((tr₁ ++ tr₂).flatMap fun e => spilledBy e.2) + ∑ j, (held j : Multiset PyVal) ∧
      (∀ j, (held j).length ≤ 100) ∧ ∀ j x, pool₂ j = Dialogue.ofExcept x → held j = [] := by
  obtain ⟨held, hbalanced, hlength, hends⟩ := settled_beside (fun t t' tr g ht hm => by
    cases hm with
    | push event => exact push_balanced ht event
    | write day event => exact ht) w rounds store (tr₁ ++ tr₂) pool₂ t₂ (hbefore.trans hafter)
  refine ⟨held, ?_, hlength, hends⟩
  have hmoves : ∀ {earlier} t t' (tr : List (ι × FlushEvent)), Passed earlier t tr →
      Elsewhere h t t' → Passed earlier t' tr := fun _ _ _ => passed_move
  have hanswers : ∀ {earlier} i t e t' (tr : List (ι × FlushEvent)), Passed earlier t tr →
      Takes h c t e t' → Passed earlier t' (tr ++ [(i, e)]) :=
    fun i _ _ _ _ ht hstep => passed_answer ht hstep i
  -- what has left the buffer when the flush begins
  obtain ⟨left₁, hleft₁, -, -⟩ := hbefore.invariant hmoves hanswers []
    ⟨[], rfl, List.nil_prefix, fun _ => List.nil_prefix⟩
  -- and when it has seen the buffer empty
  obtain ⟨left, hleft, -, hempty⟩ := hafter.invariant hmoves hanswers []
    ⟨left₁, hleft₁, List.prefix_rfl, fun hnone => by obtain ⟨e, hmem, -⟩ := hnone; cases hmem⟩
  have hplays := hafter.steps.returned i () hreturns
  rw [hbegins] at hplays
  obtain ⟨e, hmem, he⟩ := doFlush_findsEmpty hplays hunbroken
  have hpassed : t₁.pushed <+: left := hempty ⟨(i, e), (Dialogue.mem_heardBy i e tr₂).mp hmem, he⟩
  have hle : (t₁.pushed : Multiset PyVal) ≤ left := Multiset.coe_le.mpr hpassed.sublist.subperm
  have hsplit : (t₂.pushed : Multiset PyVal) = t₂.store.buffer.buf + left := by
    rw [hleft, ← Multiset.coe_add, add_comm]
  rw [hsplit] at hbalanced
  simp only [add_assoc] at hbalanced ⊢
  rwa [← add_left_cancel hbalanced]

end Barrier

/-- The second flush finds the buffer empty, as the first has the event in hand. -/
theorem flush_is_barrier_twoDrains : ∃ held : Bool → List PyVal,
    ({.str "x"} : Multiset PyVal) ≤ ∑ i, (held i : Multiset PyVal) := by
  have hunbroken : ∀ e ∈ heardBy true twoDrains, ¬ BreaksOff plainHost plainLimits e := by
    intro e hmem
    rw [Dialogue.mem_heardBy] at hmem
    rcases List.mem_pair.mp hmem with heq | heq
    · cases heq
    · cases heq
      exact id
  obtain ⟨held, hle, -⟩ := flush_is_barrier (fun _ => (emptyStore "a1").overflow) (fun _ => 1)
    (emptyStore "a1") [] twoDrains twoFlushes twoLeft _ drainedTwice
    (.move _ _ _ _ _ _ (.push _ (.str "x")) (.refl _ _)) twoDrains_run true rfl rfl hunbroken
  refine ⟨held, ?_⟩
  have hpushed : ((Trail.start (emptyStore "a1")).push (.str "x")).pushed = [.str "x"] := rfl
  have hevicted : drainedTwice.evicted = [] := rfl
  rw [hpushed, hevicted] at hle
  simpa [twoDrains, deliveredBy, refusedBy, spilledBy] using hle

end Sigil.Audit
