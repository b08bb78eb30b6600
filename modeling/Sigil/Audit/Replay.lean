import Sigil.Audit.Accounting

/-! # Replay

Replay keeps the invariant of the audit trail: on one thread, and beside other threads that write,
so long as a file is removed only as it was read.
-/
set_option autoImplicit false

namespace Sigil.Audit

open Dialogue (Triple Stable Result triple_done triple_fail triple_spent triple_ask
  triple_query_bind attempted)
open Json (FloatTexts Limits asJson)

/-! ## Slices -/

theorem slices_size (n : ℕ) (hn : 0 < n) (events batch : List PyVal)
    (hb : batch ∈ slices n events) : 1 ≤ batch.length ∧ batch.length ≤ n := by
  obtain ⟨k, hk, rfl⟩ := List.mem_map.mp hb
  have hlt : k < (events.length + (n - 1)) / n := List.mem_range.mp hk
  have hmul : (k + 1) * n ≤ events.length + (n - 1) :=
    (Nat.le_div_iff_mul_le hn).mp (Nat.succ_le_of_lt hlt)
  rw [Nat.succ_mul] at hmul
  rw [List.length_take, List.length_drop]
  omega

theorem slices_sub (n : ℕ) (events batch : List PyVal) (hb : batch ∈ slices n events) (v : PyVal)
    (hv : v ∈ batch) : v ∈ events := by
  obtain ⟨k, -, rfl⟩ := List.mem_map.mp hb
  exact List.mem_of_mem_drop (List.mem_of_mem_take hv)

theorem mem_slices (n : ℕ) (hn : 0 < n) (events : List PyVal) (v : PyVal) (hv : v ∈ events) :
    v ∈ (slices n events).flatten := by
  obtain ⟨i, hi, rfl⟩ := List.mem_iff_getElem.mp hv
  have hmod := Nat.mod_lt i hn
  have hdiv : i / n * n + i % n = i := Nat.div_add_mod' i n
  refine List.mem_flatten.mpr ⟨(events.drop (i / n * n)).take n, ?_, ?_⟩
  · refine List.mem_map.mpr ⟨i / n, List.mem_range.mpr ?_, rfl⟩
    refine (Nat.lt_div_iff_mul_lt hn).mpr ?_
    omega
  · refine List.mem_iff_getElem.mpr ⟨i % n, ?_, ?_⟩
    · rw [List.length_take, List.length_drop]
      omega
    · rw [List.getElem_take, List.getElem_drop]
      simp only [hdiv]

theorem slices_flatten (n : ℕ) (hn : 0 < n) (events : List PyVal) :
    (slices n events).flatten = events := by
  have hfront : ∀ m, ((List.range m).map fun k => (events.drop (k * n)).take n).flatten =
      events.take (m * n) := by
    intro m
    induction m with
    | zero => simp
    | succ m ih =>
      rw [List.range_succ, List.map_append, List.flatten_append, ih, Nat.succ_mul, List.take_add]
      simp
  have hall : events.length ≤ (events.length + (n - 1)) / n * n := by
    have hmod := Nat.mod_lt (events.length + (n - 1)) hn
    have hdiv := Nat.div_add_mod' (events.length + (n - 1)) n
    omega
  rw [slices, hfront, List.take_of_length_le hall]

theorem slices_nil (n : ℕ) (hn : 0 < n) : slices n [] = [] := by
  have hzero : ([] : List PyVal).length + (n - 1) < n := by
    rw [List.length_nil]
    omega
  rw [slices, Nat.div_eq_of_lt hzero, List.range_zero, List.map_nil]

namespace Trail

/-! ## The world of one thread -/

section World

variable (h : Host) (c : SigilClient) (others : Prop)

/-- Other threads write, if there are others. -/
inductive Moves : Trail → Trail → Prop where
  | write (t : Trail) (day : String) (event : PyVal) (ho : others) : Moves t (t.write h day event)

/-- Beside other threads, a file is removed only as it was read. -/
def Answers (t : Trail) (e : Dialogue.Event FlushQuestion FlushAnswer) (t' : Trail) : Prop :=
  (∃ now, answer h c now e.1 t = (e.2, t')) ∧
    (others → ∀ path, e.1 = .unlink path → t.files path = t.readBack path)

abbrev FlushTriple {α : Type} (pre : Trail → Prop) (p : Flush α)
    (post : Result (Exc Empty) α → Trail → Prop) : Prop :=
  Triple (Moves h others) (Answers h c others) pre p post

end World

variable {h : Host} {L : Limits} {c : SigilClient} {others : Prop}

theorem kept_stable (flight : List PyVal) : Stable (Moves h others) fun t => t.Kept h flight := by
  intro t t' hk hm
  cases hm with
  | write day event ho => exact write_kept day event hk

/-- Where there are no others, nothing happens between two steps. -/
theorem stable_alone (pre : Trail → Prop) : Stable (Moves h False) pre := by
  intro t t' _ hm
  cases hm with
  | write day event ho => exact ho.elim

/-! ## Replay -/

/-- What replay keeps of the files in `scope`: it reads them, sends batches of what it has read, and
removes a file when all of it has been accepted. -/
structure ReplayKeeps (h : Host) (others : Prop) (scope : String → Prop) (I : Trail → Prop) :
    Prop where
  moves : Stable (Moves h others) I
  read : ∀ t path, scope path → I t → I (t.read path)
  batch : ∀ t path bytes events r, scope path → I t → t.readBack path = some bytes →
    (∀ v ∈ events, v ∈ eventsOf h bytes) → 1 ≤ events.length ∧ events.length ≤ 100 →
    I (t.batchAnswered (.file path) events r)
  unlink : ∀ t path, scope path → I t → Expendable h t path → I (t.unlink path)

theorem kept_replayKeeps (hf : FloatTexts h) :
    ReplayKeeps h others (fun _ => True) fun t => t.Kept h [] where
  moves := kept_stable []
  read := fun _ path _ hk => read_kept path hk
  batch := fun _ path _ events r _ hk _ _ hsize => batch_kept (.file path) events r hk hsize
  unlink := fun _ path _ hk hgo => unlink_kept path hf hk hgo

/-- In the middle of a file: what was read is still known, and on one thread still there. -/
structure Holding (others : Prop) (I : Trail → Prop) (path : String) (bytes : List UInt8)
    (accepted : List PyVal) (t : Trail) : Prop where
  kept : I t
  read : t.readBack path = some bytes
  same : ¬ others → t.files path = some bytes
  accepted : ∀ v ∈ accepted, v ∈ t.accepted

section Rule

variable {scope : String → Prop} {I : Trail → Prop} (hI : ReplayKeeps h others scope I)

include hI

theorem holding_stable (path : String) (bytes : List UInt8) (sofar : List PyVal) :
    Stable (Moves h others) (Holding others I path bytes sofar) := by
  intro t t' ht hm
  have hkept := hI.moves t t' ht.kept hm
  cases hm with
  | write day event ho => exact ⟨hkept, ht.read, fun hno => absurd ho hno, ht.accepted⟩

theorem sendBatches_triple (path : String) (hpath : scope path) (bytes : List UInt8)
    (batches : List (List PyVal))
    (hsize : ∀ batch ∈ batches, 1 ≤ batch.length ∧ batch.length ≤ 100)
    (hfrom : ∀ batch ∈ batches, ∀ v ∈ batch, v ∈ eventsOf h bytes) (sofar : List PyVal) :
    FlushTriple h c others (Holding others I path bytes sofar) (sendBatches path batches)
      (fun r t => I t ∧
        (r = .returned true → Holding others I path bytes (sofar ++ batches.flatten) t)) := by
  have hstable (sofar : List PyVal) := holding_stable hI path bytes sofar
  induction batches generalizing sofar with
  | nil =>
    refine triple_done (hstable sofar) (fun t ht => ⟨ht.kept, nofun⟩) fun t ht => ?_
    refine ⟨ht.kept, fun _ => ?_⟩
    rwa [List.flatten_nil, List.append_nil]
  | cons batch batches ih =>
    have hbatch := hsize batch List.mem_cons_self
    have hrest := ih (fun b hb => hsize b (List.mem_cons_of_mem _ hb))
      fun b hb => hfrom b (List.mem_cons_of_mem _ hb)
    refine triple_query_bind
      (fun r t => Holding others I path bytes (sofar ++ if r.isOk then batch else []) t)
      (hstable sofar) (fun t ht => ⟨ht.kept, nofun⟩) ?_ ?_
    · rintro t r t' ht ⟨⟨now, heq⟩, -⟩
      obtain ⟨rfl, rfl⟩ := Prod.mk.inj heq
      refine ⟨hI.batch t path bytes batch _ hpath ht.kept ht.read (hfrom batch List.mem_cons_self)
        hbatch, ht.read, ht.same, fun v hv => ?_⟩
      rcases List.mem_append.mp hv with hv | hv
      · exact List.mem_append_left _ (ht.accepted v hv)
      · exact List.mem_append_right _ hv
    · intro r
      cases r with
      | ok _ =>
        have htail := hrest (sofar ++ batch)
        rw [List.append_assoc] at htail
        exact htail
      | error e =>
        -- the other batches are not tried
        cases hu : e.isUnreachable with
        | true =>
          simp only [hu]
          exact triple_done (hstable _) (fun t ht => ⟨ht.kept, nofun⟩) fun t ht =>
            ⟨ht.kept, nofun⟩
        | false =>
          simp only [hu]
          exact triple_fail (hstable _) (fun t ht => ⟨ht.kept, nofun⟩) fun t ht =>
            ⟨ht.kept, nofun⟩

/-- What is removed is what was read, and all of it has been accepted. -/
theorem unlink_triple (path : String) (hpath : scope path) (bytes : List UInt8) (text : String)
    (htext : decodeUtf8 bytes = some text) :
    FlushTriple h c others (Holding others I path bytes (eventsOf h bytes)) (Audit.unlink path)
      (fun _ t => I t) := by
  refine triple_ask (fun _ t => I t) (holding_stable hI path bytes _) (fun t ht => ht.kept) ?_ ?_
  · rintro t r t' ht ⟨⟨now, heq⟩, hguard⟩
    obtain ⟨-, rfl⟩ := Prod.mk.inj heq
    have hsame : t.files path = some bytes := by
      by_cases ho : others
      · rw [hguard ho path rfl, ht.read]
      · exact ht.same ho
    refine hI.unlink t path hpath ht.kept fun b hb => ?_
    rw [hsame] at hb
    obtain rfl := Option.some.inj hb
    exact ⟨⟨text, htext⟩, ht.accepted⟩
  · exact fun _ => triple_done hI.moves (fun t ht => ht) fun t ht => ht

theorem replayText_triple (path : String) (hpath : scope path) (bytes : List UInt8) (text : String)
    (htext : decodeUtf8 bytes = some text) :
    FlushTriple h c others (Holding others I path bytes []) (replayText h path text)
      (fun _ t => I t) := by
  have hevents : eventsOf h bytes = lineEvents h (strippedLines text.toList) := by
    rw [eventsOf, htext]
  rw [replayText]
  split
  · next hempty =>
    have hnone : eventsOf h bytes = [] := by
      rw [hevents, List.isEmpty_iff.mp hempty]
      rfl
    refine (unlink_triple hI path hpath bytes text htext).mono fun t ht => ?_
    rwa [hnone]
  · have hfrom : ∀ batch ∈ slices 100 (lineEvents h (strippedLines text.toList)),
        ∀ v ∈ batch, v ∈ eventsOf h bytes := by
      rw [hevents]
      exact fun batch hb v hv => slices_sub 100 _ batch hb v hv
    refine Triple.bind (sendBatches_triple hI path hpath bytes _
      (slices_size 100 (by decide) _) hfrom []) ?_ (fun e t ht => ht.1) fun t ht => ht.1
    intro allOk
    cases allOk with
    | true =>
      refine (unlink_triple hI path hpath bytes text htext).mono fun t ht => ?_
      have hall := ht.2 rfl
      refine ⟨hall.kept, hall.read, hall.same, fun v hv => hall.accepted v ?_⟩
      rw [hevents] at hv
      exact mem_slices 100 (by decide) _ v hv
    | false =>
      refine Triple.mono ?_ fun t ht => ht.1
      exact triple_done hI.moves (fun t ht => ht) fun t ht => ht

theorem replayFile_triple (path : String) (hpath : scope path) :
    FlushTriple h c others I (replayFileWithin h L path) (fun _ t => I t) := by
  refine triple_query_bind
    (fun r t => I t ∧ ∀ bytes, r = some bytes → Holding others I path bytes [] t)
    hI.moves (fun t ht => ht) ?_ ?_
  · rintro t r t' ht ⟨⟨now, heq⟩, -⟩
    obtain ⟨rfl, rfl⟩ := Prod.mk.inj heq
    have hread := hI.read t path hpath ht
    refine ⟨hread, fun bytes hb => ⟨hread, ?_, fun _ => hb, nofun⟩⟩
    rw [← hb]
    exact Function.update_self _ _ _
  · intro r
    cases r with
    | none =>
      refine Triple.mono ?_ fun t ht => ht.1
      exact triple_done hI.moves (fun t ht => ht) fun t ht => ht
    | some bytes =>
      refine Triple.mono ?_ fun t ht => ht.2 bytes rfl
      rcases replayRead_cases h L path bytes with ⟨e, -, hfail⟩ | ⟨-, text, htext, hread⟩
      · rw [hfail]
        refine Triple.mono ?_ fun t ht => ht.kept
        exact triple_fail hI.moves (fun t ht => ht) fun t ht => ht
      · rw [hread]
        exact replayText_triple hI path hpath bytes text htext

theorem replayFiles_triple (paths : List String) (hpaths : ∀ path ∈ paths, scope path) :
    FlushTriple h c others I (replayFilesWithin h L paths) (fun _ t => I t) := by
  induction paths with
  | nil => exact triple_done hI.moves (fun t ht => ht) fun t ht => ht
  | cons path paths ih =>
    have hrest := ih fun p hp => hpaths p (List.mem_cons_of_mem _ hp)
    exact Triple.bind (replayFile_triple hI path (hpaths path List.mem_cons_self))
      (fun _ => hrest) (fun e t ht => ht) fun t ht => ht

end Rule

/-- **The rule of replay.** -/
theorem replay_triple {I : Trail → Prop} (hI : ReplayKeeps h others (fun _ => True) I)
    (w : OverflowWriter) : FlushTriple h c others I (replayWithin h L w) (fun _ t => I t) := by
  have hdone : FlushTriple h c others I (pure ()) (fun _ t => I t) :=
    triple_done hI.moves (fun t ht => ht) fun t ht => ht
  unfold replayWithin
  split
  · exact hdone
  · refine triple_query_bind (fun _ t => I t) hI.moves (fun t ht => ht) ?_ ?_
    · rintro t r t' ht ⟨⟨now, heq⟩, -⟩
      obtain ⟨-, rfl⟩ := Prod.mk.inj heq
      exact ht
    · intro r
      cases r with
      | none => exact hdone
      | some listing => exact replayFiles_triple hI _ fun _ _ => trivial

end Trail

end Sigil.Audit
