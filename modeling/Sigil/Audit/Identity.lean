import Sigil.Audit.Delivery
import Sigil.Library.Grouping
import Sigil.Python.Canonical
import Mathlib.Data.List.Sort
import Mathlib.Data.String.Basic

/-! # Written and replayed

Events written to a directory over some days, and replayed. The files are named after the agent and
the day, so the order of their names is the order in time, and the batches put together are the
events as they were written.
-/
set_option autoImplicit false

namespace Sigil.Audit

open Dialogue (run)
open Json (FloatTexts asJson)
open OverflowWriter (pathJoin line)
open Grouping (group groups groups_eq)

/-! ## Dates -/

/-- A UTC date; `%Y` has four digits from the year 1000 on. -/
structure Date where
  year : ℕ
  month : ℕ
  day : ℕ
  year_range : 1000 ≤ year ∧ year ≤ 9999
  month_range : 1 ≤ month ∧ month ≤ 12
  day_range : 1 ≤ day ∧ day ≤ 31

/-- `n` in `width` decimal digits -/
def decPad : ℕ → ℕ → List Char
  | 0, _ => []
  | width + 1, n => decPad width (n / 10) ++ [Nat.digitChar (n % 10)]

/-- `strftime("%Y-%m-%d")` -/
def Date.format (d : Date) : String :=
  String.ofList (decPad 4 d.year ++ '-' :: (decPad 2 d.month ++ '-' :: decPad 2 d.day))

def Date.Before (a b : Date) : Prop :=
  a.year < b.year ∨ a.year = b.year ∧ (a.month < b.month ∨ a.month = b.month ∧ a.day < b.day)

theorem digitChar_lt : ∀ n, n < 10 → ∀ m, m < 10 → n < m → Nat.digitChar n < Nat.digitChar m := by
  decide

/-- Numbers of the same width are in the order of their digits, whatever follows. -/
theorem decPad_lt (width n m : ℕ) (hnm : n < m) (hm : m < 10 ^ width) (cs ds : List Char) :
    decPad width n ++ cs < decPad width m ++ ds := by
  induction width generalizing n m cs ds with
  | zero => omega
  | succ width ih =>
    rw [decPad, decPad, List.append_assoc, List.append_assoc]
    have hm10 : m / 10 < 10 ^ width := by
      rw [pow_succ] at hm
      omega
    by_cases hlt : n / 10 < m / 10
    · exact ih _ _ hlt hm10 _ _
    · have heq : n / 10 = m / 10 := by omega
      rw [heq]
      refine List.append_left_lt (List.cons_lt_cons_iff.mpr (Or.inl ?_))
      exact digitChar_lt _ (Nat.mod_lt n (by decide)) _ (Nat.mod_lt m (by decide)) (by omega)

/-- Later dates have later texts. -/
theorem format_lt (a b : Date) (hab : a.Before b) (cs ds : List Char) :
    a.format.toList ++ cs < b.format.toList ++ ds := by
  have hyears : b.year < 10 ^ 4 := Nat.lt_succ_of_le b.year_range.2
  have hmonths : b.month < 10 ^ 2 := Nat.lt_of_le_of_lt b.month_range.2 (by decide)
  have hdays : b.day < 10 ^ 2 := Nat.lt_of_le_of_lt b.day_range.2 (by decide)
  simp only [Date.format, String.toList_ofList, List.append_assoc, List.cons_append]
  rcases hab with hyear | ⟨hyear, hmonth | ⟨hmonth, hday⟩⟩
  · exact decPad_lt 4 _ _ hyear hyears _ _
  · rw [hyear]
    refine List.append_left_lt (List.cons_lt_cons_iff.mpr (Or.inr ⟨rfl, ?_⟩))
    exact decPad_lt 2 _ _ hmonth hmonths _ _
  · rw [hyear, hmonth]
    refine List.append_left_lt (List.cons_lt_cons_iff.mpr (Or.inr ⟨rfl, ?_⟩))
    refine List.append_left_lt (List.cons_lt_cons_iff.mpr (Or.inr ⟨rfl, ?_⟩))
    exact decPad_lt 2 _ _ hday hdays _ _

theorem Date.ext_of_not_before (a b : Date) (hab : ¬ a.Before b) (hba : ¬ b.Before a) : a = b := by
  obtain ⟨y, m, d, _, _, _⟩ := a
  obtain ⟨y', m', d', _, _, _⟩ := b
  simp only [Date.Before] at hab hba
  obtain ⟨rfl, rfl, rfl⟩ : y = y' ∧ m = m' ∧ d = d' := by omega
  rfl

theorem decPad_digit (width n : ℕ) (c : Char) (hc : c ∈ decPad width n) : c ≠ '/' := by
  have hdigit : ∀ d, d < 10 → Nat.digitChar d ≠ '/' := by decide
  induction width generalizing n with
  | zero => cases hc
  | succ width ih =>
    rcases List.mem_append.mp hc with hc | hc
    · exact ih _ hc
    · rw [List.mem_singleton.mp hc]
      exact hdigit _ (Nat.mod_lt n (by decide))

theorem format_plain (d : Date) : '/' ∉ d.format.toList := by
  intro hmem
  rw [Date.format, String.toList_ofList] at hmem
  rcases List.mem_append.mp hmem with hy | hmem
  · exact decPad_digit _ _ _ hy rfl
  rcases List.mem_cons.mp hmem with hc | hmem
  · cases hc
  rcases List.mem_append.mp hmem with hm | hmem
  · exact decPad_digit _ _ _ hm rfl
  rcases List.mem_cons.mp hmem with hc | hd
  · cases hc
  · exact decPad_digit _ _ _ hd rfl

/-! ## The day's file -/

/-- The name of the file of a day. -/
def fileName (agentId : String) (d : Date) : String := agentId ++ "_" ++ d.format ++ ".ndjson"

theorem fileName_toList (agentId : String) (d : Date) : (fileName agentId d).toList =
    (agentId ++ "_").toList ++ (d.format.toList ++ ".ndjson".toList) := by
  rw [fileName, String.toList_append, String.toList_append, List.append_assoc]

theorem fileName_plain (agentId : String) (hid : '/' ∉ agentId.toList) (d : Date) :
    '/' ∉ (fileName agentId d).toList := by
  have hfixed : '/' ∉ "_".toList ∧ '/' ∉ ".ndjson".toList := by decide
  rw [fileName_toList, String.toList_append]
  simp only [List.mem_append, not_or]
  exact ⟨⟨hid, hfixed.1⟩, format_plain d, hfixed.2⟩

theorem fileName_overflow (agentId : String) (d : Date) :
    isOverflowName (fileName agentId d) = true := by
  rw [isOverflowName, fileName_toList, List.isSuffixOf_iff_suffix, ← List.append_assoc]
  exact List.suffix_append _ _

/-- Dates in order have names in order. -/
theorem fileName_le (agentId : String) (a b : Date) (hab : ¬ b.Before a) :
    fileName agentId a ≤ fileName agentId b := by
  by_cases hlt : a.Before b
  · refine le_of_lt (String.lt_iff_toList_lt.mpr ?_)
    rw [fileName_toList, fileName_toList]
    exact List.append_left_lt (format_lt a b hlt _ _)
  · rw [Date.ext_of_not_before a b hlt hab]

/-! ## Writing over some days -/

namespace Trail

variable {h : Host} {c : SigilClient} {q : Quiet}

/-- `write` for each event, on its date. -/
def writes (h : Host) (history : List (Date × PyVal)) (t : Trail) : Trail :=
  history.foldl (fun t e => t.write h e.1.format e.2) t

theorem writes_unwritten (history : List (Date × PyVal)) (t : Trail)
    (hun : (writes h history t).unwritten = []) : t.unwritten = [] := by
  induction history generalizing t with
  | nil => exact hun
  | cons e history ih => exact (List.append_eq_nil_iff.mp (ih _ hun)).1

/-- An event that is not left unwritten is a new line of the day's file. -/
theorem write_files (t : Trail) (day : String) (event : PyVal)
    (hun : (t.write h day event).unwritten = []) : (t.write h day event).files =
      Function.update t.files (t.store.overflow.currentPath day)
        (some ((t.files (t.store.overflow.currentPath day)).getD [] ++ line h event)) := by
  rcases write_cases h day event t with ⟨-, hfiles⟩ | ⟨hmem, -⟩
  · exact hfiles
  · rw [hun] at hmem
    cases hmem

/-- The path of the file an event was written to. -/
def dayPath (w : OverflowWriter) (e : Date × PyVal) : String := w.currentPath e.1.format

/-- A file has grown by the lines of the events written to it. -/
theorem writes_files (history : List (Date × PyVal)) (t : Trail)
    (hun : (writes h history t).unwritten = []) (path : String) :
    (writes h history t).files path =
      if group (dayPath t.store.overflow) history path = [] then t.files path
      else some ((t.files path).getD [] ++
        (group (dayPath t.store.overflow) history path).flatMap fun e => line h e.2) := by
  induction history generalizing t with
  | nil => rfl
  | cons e history ih =>
    have hfiles : (t.write h e.1.format e.2).files =
        Function.update t.files (dayPath t.store.overflow e)
          (some ((t.files (dayPath t.store.overflow e)).getD [] ++ line h e.2)) :=
      write_files t e.1.format e.2 (writes_unwritten history _ hun)
    have hpath : dayPath (t.write h e.1.format e.2).store.overflow = dayPath t.store.overflow := by
      funext e'
      exact write_currentPath h e.1.format e.2 t e'.1.format
    have hrest := ih _ hun
    rw [hpath, hfiles] at hrest
    refine hrest.trans ?_
    by_cases hp : dayPath t.store.overflow e = path
    · have hgroup : group (dayPath t.store.overflow) (e :: history) path =
          e :: group (dayPath t.store.overflow) history path := by
        rw [group, List.filter_cons_of_pos (by simp [hp]), group]
      rw [hgroup, if_neg (List.cons_ne_nil _ _), List.flatMap_cons, ← hp, Function.update_self]
      split
      · next hnil => rw [hnil, List.flatMap_nil, List.append_nil]
      · rw [Option.getD_some, List.append_assoc]
    · have hgroup : group (dayPath t.store.overflow) (e :: history) path =
          group (dayPath t.store.overflow) history path := by
        rw [group, List.filter_cons_of_neg (by simp [hp]), group]
      rw [hgroup, Function.update_of_ne (Ne.symm hp)]

theorem write_overflow (t : Trail) (day : String) (event : PyVal)
    (hun : (t.write h day event).unwritten = []) :
    (t.write h day event).store.overflow = t.store.overflow := by
  have hready : (t.store.onDay day).Ready := by
    by_contra hnot
    simp [write, hnot] at hun
  simp only [write, Store.overflowWrite, Store.onDay,
    OverflowWriter.write_of_ready h t.store.overflow t.store.disk day event hready]

theorem writes_overflow (history : List (Date × PyVal)) (t : Trail)
    (hun : (writes h history t).unwritten = []) :
    (writes h history t).store.overflow = t.store.overflow := by
  induction history generalizing t with
  | nil => rfl
  | cons e history ih =>
    exact (ih _ hun).trans (write_overflow t _ _ (writes_unwritten history _ hun))

theorem writes_sent (history : List (Date × PyVal)) (t : Trail) :
    (writes h history t).sent = t.sent := by
  induction history generalizing t with
  | nil => rfl
  | cons e history ih => exact ih _

/-- Events with floats that are read back as they were, written in the order of their dates to an
empty directory, with no write turned away. -/
structure Writing (h : Host) (q : Quiet) (store : Store) (history : List (Date × PyVal)) : Prop where
  agentId : '/' ∉ store.overflow.agentId.toList
  writable : store.overflow.writable = true
  dir : store.overflow.dir = q.dir
  empty : ∀ name, '/' ∉ name.toList → store.disk.files (pathJoin q.dir name) = none
  dates : history.Pairwise fun a b => ¬ b.1.Before a.1
  data : ∀ e ∈ history,
    JsonData (fun bits => h.floatBits (PyVal.dumpsFloat h bits) = bits) e.2
  written : (writes h history (start store)).unwritten = []
  shown : q.Shows (writes h history (start store))

/-- The name of the file an event was written to. -/
def dayName (store : Store) (e : Date × PyVal) : String := fileName store.overflow.agentId e.1

namespace Writing

variable {store : Store} {history : List (Date × PyVal)} (hw : Writing h q store history)

include hw

theorem file (name : String) (hname : '/' ∉ name.toList) :
    (writes h history (start store)).files (pathJoin q.dir name) =
      if group (dayName store) history name = [] then none
      else some (((group (dayName store) history name).map Prod.snd).flatMap (line h)) := by
  have hgroup : group (dayPath store.overflow) history (pathJoin q.dir name) =
      group (dayName store) history name := by
    refine List.filter_congr fun e _ => ?_
    have hplain := fileName_plain store.overflow.agentId hw.agentId e.1
    have hpath : dayPath store.overflow e = pathJoin q.dir (dayName store e) := by
      rw [← hw.dir]
      rfl
    rw [hpath]
    exact decide_eq_decide.mpr ⟨pathJoin_inj q.dir _ _ hplain hname, congrArg _⟩
  have hnone : (start store).files (pathJoin q.dir name) = none := hw.empty name hname
  have hfiles := writes_files history (start store) hw.written (pathJoin q.dir name)
  rw [hnone] at hfiles
  rw [hfiles, List.flatMap_map]
  show (if group (dayPath store.overflow) history _ = [] then _ else
    some ([] ++ (group (dayPath store.overflow) history _).flatMap _)) = _
  rw [hgroup, List.nil_append]

theorem eventsIn_name (hf : FloatTexts h) (name : String) (hname : '/' ∉ name.toList) :
    eventsIn h (writes h history (start store)) (pathJoin q.dir name) =
      (group (dayName store) history name).map Prod.snd := by
  rw [eventsIn, hw.file name hname]
  split
  · next hnil => rw [hnil]; rfl
  · rw [Option.map_some, Option.getD_some, eventsOf_lines h hf, List.map_map]
    refine List.map_congr_left fun e he => ?_
    exact Json.asJson_data h (fun _ hbits => hbits) (hw.data e (List.mem_of_mem_filter he))

theorem readable_name (name : String) (hname : '/' ∉ name.toList) :
    (writes h history (start store)).readable h .off (pathJoin q.dir name) = true := by
  rw [readable, hw.file name hname]
  split
  · rfl
  · rw [Option.all_some, lines_utf8, raisedBy_off h _ _ (decodeUtf8_utf8 _)]
    rfl

/-- The files are there under the names of their days. -/
theorem mem_names (e : Date × PyVal) (he : e ∈ history) :
    dayName store e ∈ overflowNames (q.present (writes h history (start store))) := by
  have hplain : '/' ∉ (dayName store e).toList :=
    fileName_plain store.overflow.agentId hw.agentId e.1
  have hfile : ((writes h history (start store)).files
      (pathJoin q.dir (dayName store e))).isSome = true := by
    have hmem : e ∈ group (dayName store) history (dayName store e) :=
      List.mem_filter.mpr ⟨he, by simp⟩
    rw [hw.file _ hplain, if_neg (List.ne_nil_of_mem hmem)]
    rfl
  simp only [overflowNames, Quiet.present, List.mem_mergeSort, List.mem_filter]
  exact ⟨⟨hw.shown _ hplain hfile, hfile⟩, fileName_overflow _ _⟩

end Writing

theorem overflowNames_sorted (listing : List String) (hnodup : listing.Nodup) :
    (overflowNames listing).Pairwise (· < ·) := by
  have hle : (overflowNames listing).Pairwise (· ≤ ·) :=
    List.pairwise_mergeSort' (· ≤ ·) (listing.filter isOverflowName)
  have hne : (overflowNames listing).Pairwise (· ≠ ·) :=
    (List.mergeSort_perm _ _).nodup_iff.mpr (hnodup.filter _)
  exact hle.imp₂ (fun _ _ hab hne => lt_of_le_of_ne hab hne) hne

/-- A replay that delivers some events, and nothing else. -/
structure Recovers (q : Quiet) (events : List PyVal) (r : Dialogue.Result (Exc Empty) Unit)
    (t : Trail) : Prop where
  returns : r = .returned ()
  sent : t.sent.flatMap Prod.snd = events
  size : ∀ batch ∈ t.sent, 1 ≤ batch.2.length ∧ batch.2.length ≤ 100
  removed : ∀ name, '/' ∉ name.toList → isOverflowName name = true →
    t.files (pathJoin q.dir name) = none

theorem batchesOf_events (t : Trail) (path : String) :
    (batchesOf h t path).flatMap Prod.snd = eventsIn h t path := by
  rw [batchesOf, List.flatMap_map, List.flatMap_id', slices_flatten 100 (by decide)]

theorem batchesOf_size (t : Trail) (path : String) (batch : Source × List PyVal)
    (hb : batch ∈ batchesOf h t path) : 1 ≤ batch.2.length ∧ batch.2.length ≤ 100 := by
  obtain ⟨b, hslice, rfl⟩ := List.mem_map.mp hb
  exact slices_size 100 (by decide) _ b hslice

/-- **Write, then replay.** What is sent is what was written, in the order it was written. -/
theorem replay_writes (hf : FloatTexts h) (store : Store) (history : List (Date × PyVal))
    (hw : Writing h q store history) :
    let t := writes h history (start store)
    let r := run (q.env h c) (replay h t.store.overflow) t
    Recovers q (history.map Prod.snd) r.result r.final := by
  intro t r
  have hoverflow : t.store.overflow = store.overflow := writes_overflow history _ hw.written
  obtain ⟨hresult, hreplayed⟩ := replay_quiet (h := h) (L := .off) (c := c) (q := q) t.store.overflow
    (hoverflow ▸ hw.writable) (hoverflow ▸ hw.dir) t
  have hplain : ∀ name ∈ overflowNames (q.present t), '/' ∉ name.toList := by
    intro name hname
    simp only [overflowNames, Quiet.present, List.mem_mergeSort, List.mem_filter] at hname
    exact q.plain name hname.1.1
  have hreadable : ∀ path ∈ q.paths t, t.readable h .off path = true := by
    intro path hpath
    obtain ⟨name, hname, rfl⟩ := List.mem_map.mp hpath
    exact hw.readable_name name (hplain name hname)
  have hall : (q.paths t).all (t.readable h .off) = true := List.all_eq_true.mpr hreadable
  have hwhile : (q.paths t).takeWhile (t.readable h .off) = q.paths t :=
    List.takeWhile_eq_self_iff.mpr hreadable
  rw [hall] at hresult
  rw [hwhile] at hreplayed
  have hsent : r.final.sent = (q.paths t).flatMap (batchesOf h t) := by
    rw [hreplayed.sent, writes_sent]
    exact List.nil_append _
  -- the groups of the names, in order, are the history
  have hnames := overflowNames_sorted (q.present t) (q.nodup.filter _)
  have hkeys : history.Pairwise fun a b => dayName store a ≤ dayName store b :=
    hw.dates.imp fun hab => fileName_le store.overflow.agentId _ _ hab
  have hgroups := groups_eq (dayName store) (overflowNames (q.present t)) hnames history hkeys
    hw.mem_names
  refine ⟨hresult, ?_, fun batch hb => ?_, fun name hname hoverflowName => ?_⟩
  · have hevents : (q.paths t).flatMap (eventsIn h t) =
        ((overflowNames (q.present t)).flatMap (group (dayName store) history)).map Prod.snd := by
      rw [Quiet.paths, List.flatMap_map, List.map_flatMap]
      exact List.flatMap_congr fun name hname => hw.eventsIn_name hf name (hplain name hname)
    rw [hsent, List.flatMap_assoc]
    simp only [batchesOf_events]
    rw [hevents]
    exact congrArg (List.map Prod.snd) hgroups
  · rw [hsent] at hb
    obtain ⟨path, -, hb⟩ := List.mem_flatMap.mp hb
    exact batchesOf_size t path batch hb
  · rw [hreplayed.files]
    by_cases hfile : (t.files (pathJoin q.dir name)).isSome = true
    · exact if_pos ((q.mem_paths t _).mpr
        ⟨name, hw.shown name hname hfile, hoverflowName, rfl, hfile⟩)
    · rw [Option.not_isSome_iff_eq_none.mp hfile, ite_self]

/-! ## Two days -/

def newYear : Date := ⟨2026, 1, 1, by decide, by decide, by decide⟩

def nextDay : Date := ⟨2026, 1, 2, by decide, by decide, by decide⟩

/-- A directory with at most the one file. -/
def oneFile : Quiet where
  dir := "o"
  entries := [fileName "a1" newYear]
  nodup := List.nodup_singleton _
  plain := fun _ hname => List.mem_singleton.mp hname ▸ fileName_plain "a1" (by decide) newYear
  http := fun _ => acceptedAnswer
  accepts := fun _ => ⟨.dict [], rfl⟩

theorem oneFile_shows (t : Trail)
    (ht : ∀ path, (t.files path).isSome = true → path = pathJoin "o" (fileName "a1" newYear)) :
    oneFile.Shows t := by
  intro name hname hfile
  have hplain := fileName_plain "a1" (by decide) newYear
  exact List.mem_singleton.mpr (pathJoin_inj "o" _ _ hname hplain (ht _ hfile))

/-- A directory with at most the files of two days. -/
def twoFiles : Quiet where
  dir := "o"
  entries := [fileName "a1" newYear, fileName "a1" nextDay]
  nodup := by decide
  plain := by decide
  http := fun _ => acceptedAnswer
  accepts := fun _ => ⟨.dict [], rfl⟩

/-- An event with a line break in it and an empty one, and on the next day one with a number. -/
def twoDays : List (Date × PyVal) :=
  [(newYear, .dict [(.str "k", .str "a\nb")]), (newYear, .dict []),
    (nextDay, .dict [(.str "n", .int 7)])]

theorem twoDays_written :
    (writes plainHost twoDays (start (emptyStore "a1"))).unwritten = [] := by
  decide +kernel

theorem jsonData_entry {ok : UInt64 → Prop} (key : String) (v : PyVal) (hv : JsonData ok v) :
    JsonData ok (.dict [(.str key, v)]) := by
  refine .dict _ (fun kv hkv => ?_) (List.nodup_singleton _) fun kv hkv => ?_
  · exact ⟨key, by rw [List.mem_singleton.mp hkv]⟩
  · rw [List.mem_singleton.mp hkv]
    exact hv

theorem twoDays_writing : Writing plainHost twoFiles (emptyStore "a1") twoDays where
  agentId := by decide
  writable := rfl
  dir := rfl
  empty := fun _ _ => rfl
  dates := by simp [twoDays, Date.Before, newYear, nextDay]
  data := by
    simp only [twoDays, List.forall_mem_cons]
    exact ⟨jsonData_entry "k" _ (.str _), .dict [] nofun List.nodup_nil nofun,
      jsonData_entry "n" _ (.int 7), nofun⟩
  written := twoDays_written
  shown := by
    intro name hname hfile
    by_contra hnot
    -- a name that is not listed is not that of a day
    have hnone : group (dayPath (start (emptyStore "a1")).store.overflow) twoDays
        (pathJoin "o" name) = [] := by
      refine List.filter_eq_nil_iff.mpr fun e he => ?_
      have hday : dayName (emptyStore "a1") e ∈ twoFiles.entries := by
        revert e
        decide
      intro heq
      have hplain := twoFiles.plain _ hday
      have hsame := pathJoin_inj "o" _ _ hplain hname (of_decide_eq_true heq)
      exact hnot (hsame ▸ hday)
    have hfiles := writes_files (h := plainHost) twoDays (start (emptyStore "a1")) twoDays_written
      (pathJoin "o" name)
    rw [if_pos hnone] at hfiles
    rw [show twoFiles.dir = "o" from rfl, hfiles] at hfile
    cases hfile

/-- The files of both days are sent and removed. -/
theorem replay_writes_twoDays :
    let t := writes plainHost twoDays (start (emptyStore "a1"))
    let r := run (twoFiles.env plainHost plainClient) (replay plainHost t.store.overflow) t
    Recovers twoFiles (twoDays.map Prod.snd) r.result r.final :=
  replay_writes plainHost_floats (emptyStore "a1") twoDays twoDays_writing

end Trail

end Sigil.Audit
