import Sigil.Python.RoundTrip
import Mathlib.Data.List.Nodup
import Mathlib.Data.List.Perm.Subperm

/-! # Canonical JSON

On JSON data, where every key is a string and no key occurs twice, `json.dumps` loses nothing and
sorting the keys forgets the order of the entries and nothing else. So two values have the same
canonical text exactly if they are equal as JSON values.
-/
set_option autoImplicit false

namespace Sigil

/-! ## JSON data -/

/-- The values JSON has, with floats of a certain kind. -/
inductive JsonData (float : UInt64 → Prop) : PyVal → Prop where
  | none : JsonData float .none
  | bool (b : Bool) : JsonData float (.bool b)
  | int (i : ℤ) : JsonData float (.int i)
  | float (bits : UInt64) (h : float bits) : JsonData float (.float bits)
  | str (s : String) : JsonData float (.str s)
  | list (xs : List PyVal) (h : ∀ x ∈ xs, JsonData float x) : JsonData float (.list xs)
  | dict (kvs : List (PyKey × PyVal)) (hkeys : ∀ kv ∈ kvs, ∃ s, kv.1 = .str s)
      (hnodup : (kvs.map Prod.fst).Nodup) (h : ∀ kv ∈ kvs, JsonData float kv.2) :
      JsonData float (.dict kvs)

mutual

/-- Equal as JSON values: `True` is not `1`, and the order of the entries of a dictionary does not
matter. -/
def SameJson : PyVal → PyVal → Prop
  | .none, .none => True
  | .bool a, .bool b => a = b
  | .int i, .int j => i = j
  | .float a, .float b => a = b
  | .str s, .str t => s = t
  | .list xs, .list ys => SameItems xs ys
  | .dict kvs, .dict kvs' => kvs.length = kvs'.length ∧ SameEntries kvs kvs'
  | _, _ => False

def SameItems : List PyVal → List PyVal → Prop
  | [], [] => True
  | x :: xs, y :: ys => SameJson x y ∧ SameItems xs ys
  | _, _ => False

/-- Every entry of the first dictionary is in the second. -/
def SameEntries : List (PyKey × PyVal) → List (PyKey × PyVal) → Prop
  | [], _ => True
  | (k, v) :: kvs, kvs' => (∃ w, (k, w) ∈ kvs' ∧ SameJson v w) ∧ SameEntries kvs kvs'

end

theorem sameEntries_iff (kvs kvs' : List (PyKey × PyVal)) :
    SameEntries kvs kvs' ↔ ∀ kv ∈ kvs, ∃ w, (kv.1, w) ∈ kvs' ∧ SameJson kv.2 w := by
  induction kvs with
  | nil => simp [SameEntries]
  | cons kv kvs ih =>
    obtain ⟨k, v⟩ := kv
    rw [SameEntries, ih, List.forall_mem_cons]

namespace Json

/-! ## Nothing is lost -/

theorem assignPair_new (k : PyKey) (v : PyVal) (kvs : List (PyKey × PyVal))
    (hk : k ∉ kvs.map Prod.fst) : assignPair k v kvs = kvs ++ [(k, v)] := by
  induction kvs with
  | nil => rfl
  | cons kv kvs ih =>
    obtain ⟨k', v'⟩ := kv
    rw [List.map_cons, List.mem_cons, not_or] at hk
    rw [assignPair, if_neg (Ne.symm hk.1), ih hk.2, List.cons_append]

/-- A dictionary without repeated keys is made as its pairs stand. -/
theorem dictOf_nodup (pairs : List (PyKey × PyVal)) (h : (pairs.map Prod.fst).Nodup) :
    dictOf pairs = .dict pairs := by
  have hfold : ∀ pairs kvs : List (PyKey × PyVal), ((kvs ++ pairs).map Prod.fst).Nodup →
      pairs.foldl (fun kvs kv => assignPair kv.1 kv.2 kvs) kvs = kvs ++ pairs := by
    intro pairs
    induction pairs with
    | nil => exact fun kvs _ => (List.append_nil kvs).symm
    | cons kv pairs ih =>
      intro kvs hnodup
      have hnew : kv.1 ∉ kvs.map Prod.fst := by
        rw [List.map_append, List.map_cons] at hnodup
        exact fun hmem => (List.nodup_append.mp hnodup).2.2 _ hmem _ List.mem_cons_self rfl
      rw [List.foldl_cons, assignPair_new _ _ _ hnew]
      rw [ih, List.append_assoc]
      · rfl
      · rw [List.append_assoc]
        exact hnodup
  rw [dictOf, hfold pairs [] h, List.nil_append]

theorem asJson_data (h : Host) {float : UInt64 → Prop}
    (hfloat : ∀ bits, float bits → h.floatBits (PyVal.dumpsFloat h bits) = bits) {v : PyVal}
    (hv : JsonData float v) : asJson h v = v := by
  induction hv with
  | none => rfl
  | bool b => rfl
  | int i => rfl
  | float bits hbits => rw [asJson, hfloat bits hbits]
  | str s => rfl
  | list xs _ ih =>
    have hitems : ∀ ys, (∀ y ∈ ys, asJson h y = y) → asJsonItems h ys = ys := by
      intro ys
      induction ys with
      | nil => exact fun _ => rfl
      | cons y ys ihys =>
        intro hys
        rw [asJsonItems, hys y List.mem_cons_self,
          ihys fun z hz => hys z (List.mem_cons_of_mem y hz)]
    rw [asJson, hitems xs ih]
  | dict kvs hkeys hnodup _ ih =>
    have hentries : ∀ ys : List (PyKey × PyVal), (∀ kv ∈ ys, ∃ s, kv.1 = .str s) →
        (∀ kv ∈ ys, asJson h kv.2 = kv.2) → asJsonEntries h ys = ys := by
      intro ys
      induction ys with
      | nil => exact fun _ _ => rfl
      | cons kv ys ihys =>
        intro hstr hys
        obtain ⟨k, v⟩ := kv
        obtain ⟨s, rfl⟩ : ∃ s, k = .str s := hstr _ List.mem_cons_self
        rw [asJsonEntries, show asJson h v = v from hys _ List.mem_cons_self,
          ihys (fun kv hkv => hstr kv (List.mem_cons_of_mem _ hkv))
            fun kv hkv => hys kv (List.mem_cons_of_mem _ hkv)]
        rfl
    rw [asJson, hentries kvs hkeys ih, dictOf_nodup kvs hnodup]

end Json

namespace PyVal

/-! ## Sorting forgets the order -/

/-- The value with its keys sorted. -/
def sorted (v : PyVal) : PyVal := v.sortKeys.getD .none

def byKey (a b : PyKey × PyVal) : Bool :=
  decide ((keyString a.1).getD "" ≤ (keyString b.1).getD "")

def sortedEntry (kv : PyKey × PyVal) : PyKey × PyVal := (kv.1, sorted kv.2)

theorem sortKeysItems_eq (xs : List PyVal) (h : ∀ x ∈ xs, x.sortKeys = some (sorted x)) :
    sortKeysItems xs = some (xs.map sorted) := by
  induction xs with
  | nil => rfl
  | cons x xs ih =>
    rw [sortKeysItems, h x List.mem_cons_self, Option.bind_some,
      ih fun y hy => h y (List.mem_cons_of_mem x hy)]
    rfl

theorem sortKeysEntries_eq (kvs : List (PyKey × PyVal))
    (h : ∀ kv ∈ kvs, kv.2.sortKeys = some (sorted kv.2)) :
    sortKeysEntries kvs = some (kvs.map sortedEntry) := by
  induction kvs with
  | nil => rfl
  | cons kv kvs ih =>
    obtain ⟨k, v⟩ := kv
    rw [sortKeysEntries, show v.sortKeys = some (sorted v) from h _ List.mem_cons_self,
      Option.bind_some, ih fun kv hkv => h kv (List.mem_cons_of_mem _ hkv)]
    rfl

theorem sortedItems_eq (kvs : List (PyKey × PyVal)) (h : ∀ kv ∈ kvs, ∃ s, kv.1 = .str s) :
    sortedItems kvs = some (kvs.mergeSort byKey) := by
  have hall : (kvs.all fun kv => (keyString kv.1).isSome) = true := by
    rw [List.all_eq_true]
    intro kv hkv
    obtain ⟨s, hs⟩ := h kv hkv
    rw [hs]
    rfl
  rw [sortedItems]
  split_ifs with hlen
  · cases kvs with
    | nil => rw [List.mergeSort_nil]
    | cons kv kvs =>
      cases kvs with
      | nil => rw [List.mergeSort_singleton]
      | cons kv' kvs => simp at hlen
  · rfl

theorem byKey_trans (a b c : PyKey × PyVal) (hab : byKey a b) (hbc : byKey b c) : byKey a c :=
  decide_eq_true (String.le_trans (of_decide_eq_true hab) (of_decide_eq_true hbc))

theorem byKey_total (a b : PyKey × PyVal) : (byKey a b || byKey b a) = true := by
  rw [Bool.or_eq_true, byKey, byKey, decide_eq_true_eq, decide_eq_true_eq]
  exact String.le_total _ _

/-- Entries with string keys, no two of them with the same key. -/
structure Entries (kvs : List (PyKey × PyVal)) : Prop where
  keys : ∀ kv ∈ kvs, ∃ s, kv.1 = .str s
  nodup : (kvs.map Prod.fst).Nodup

theorem Entries.eq_of_key {kvs : List (PyKey × PyVal)} (h : Entries kvs) {a b : PyKey × PyVal}
    (ha : a ∈ kvs) (hb : b ∈ kvs) (hkey : a.1 = b.1) : a = b :=
  List.inj_on_of_nodup_map h.nodup ha hb hkey

theorem Entries.map_sorted {kvs : List (PyKey × PyVal)} (h : Entries kvs) :
    Entries (kvs.map sortedEntry) where
  keys := by
    rw [List.forall_mem_map]
    exact h.keys
  nodup := by
    rw [List.map_map]
    exact h.nodup

/-- Sorting entries gives the same for the same entries, and for no others. -/
theorem mergeSort_eq_iff {kvs kvs' : List (PyKey × PyVal)} (h : Entries kvs) :
    kvs.mergeSort byKey = kvs'.mergeSort byKey ↔ kvs.Perm kvs' := by
  have hperm := List.mergeSort_perm kvs byKey
  have hperm' := List.mergeSort_perm kvs' byKey
  constructor
  · intro heq
    rw [heq] at hperm
    exact hperm.symm.trans hperm'
  · intro hp
    have hsorted := List.pairwise_mergeSort byKey_trans byKey_total kvs
    have hsorted' := List.pairwise_mergeSort byKey_trans byKey_total kvs'
    refine List.Perm.eq_of_pairwise ?_ hsorted hsorted' (hperm.trans (hp.trans hperm'.symm))
    intro a b ha hb hab hba
    have ha : a ∈ kvs := List.mem_mergeSort.mp ha
    have hb : b ∈ kvs := hp.mem_iff.mpr (List.mem_mergeSort.mp hb)
    obtain ⟨s, hs⟩ := h.keys a ha
    obtain ⟨t, ht⟩ := h.keys b hb
    refine h.eq_of_key ha hb ?_
    rw [byKey, hs, ht, decide_eq_true_eq] at hab hba
    rw [hs, ht, show s = t from String.le_antisymm hab hba]

theorem perm_iff {kvs kvs' : List (PyKey × PyVal)} (h : Entries kvs) :
    kvs.Perm kvs' ↔ kvs.length = kvs'.length ∧ ∀ kv ∈ kvs, kv ∈ kvs' := by
  constructor
  · exact fun hp => ⟨hp.length_eq, fun kv hkv => hp.mem_iff.mp hkv⟩
  · rintro ⟨hlen, hsub⟩
    exact (List.subperm_of_subset (List.Nodup.of_map _ h.nodup) hsub).perm_of_length_le hlen.ge

variable {float : UInt64 → Prop} {v w : PyVal}

theorem sortKeys_data (hv : JsonData float v) :
    v.sortKeys = some (sorted v) ∧ JsonData float (sorted v) := by
  induction hv with
  | none => exact ⟨rfl, .none⟩
  | bool b => exact ⟨rfl, .bool b⟩
  | int i => exact ⟨rfl, .int i⟩
  | float bits hbits => exact ⟨rfl, .float bits hbits⟩
  | str s => exact ⟨rfl, .str s⟩
  | list xs _ ih =>
    have hsort : (list xs).sortKeys = some (.list (xs.map sorted)) := by
      rw [sortKeys, sortKeysItems_eq xs fun x hx => (ih x hx).1]
      rfl
    rw [sorted, hsort]
    refine ⟨rfl, .list _ ?_⟩
    rw [List.forall_mem_map]
    exact fun x hx => (ih x hx).2
  | dict kvs hkeys hnodup _ ih =>
    have hentries := Entries.map_sorted ⟨hkeys, hnodup⟩
    have hsort : (dict kvs).sortKeys = some (.dict ((kvs.map sortedEntry).mergeSort byKey)) := by
      rw [sortKeys, sortKeysEntries_eq kvs fun kv hkv => (ih kv hkv).1, Option.bind_some,
        sortedItems_eq _ hentries.keys]
      rfl
    have hperm := List.mergeSort_perm (kvs.map sortedEntry) byKey
    rw [sorted, hsort]
    refine ⟨rfl, .dict _ ?_ ?_ ?_⟩
    · exact fun kv hkv => hentries.keys kv (hperm.mem_iff.mp hkv)
    · exact (hperm.map Prod.fst).nodup_iff.mpr hentries.nodup
    · intro kv hkv
      obtain ⟨kv', hkv', rfl⟩ := List.mem_map.mp (hperm.mem_iff.mp hkv)
      exact (ih kv' hkv').2

theorem sorted_list {xs : List PyVal} (h : ∀ x ∈ xs, JsonData float x) :
    sorted (.list xs) = .list (xs.map sorted) := by
  rw [sorted, sortKeys, sortKeysItems_eq xs fun x hx => (sortKeys_data (h x hx)).1]
  rfl

theorem sorted_dict {kvs : List (PyKey × PyVal)} (hkvs : Entries kvs)
    (h : ∀ kv ∈ kvs, JsonData float kv.2) :
    sorted (.dict kvs) = .dict ((kvs.map sortedEntry).mergeSort byKey) := by
  rw [sorted, sortKeys, sortKeysEntries_eq kvs fun kv hkv => (sortKeys_data (h kv hkv)).1,
    Option.bind_some, sortedItems_eq _ hkvs.map_sorted.keys]
  rfl

/-- **What sorting forgets** is the order of the entries, and nothing else. -/
theorem sorted_eq_iff (hv : JsonData float v) (hw : JsonData float w) :
    sorted v = sorted w ↔ SameJson v w := by
  induction hv generalizing w with
  | list xs hxs ih =>
    cases hw with
    | list ys hys =>
      rw [sorted_list hxs, sorted_list hys, PyVal.list.injEq, SameJson]
      clear hxs
      induction xs generalizing ys with
      | nil => cases ys <;> simp [SameItems]
      | cons x xs ihxs =>
        cases ys with
        | nil => simp [SameItems]
        | cons y ys =>
          rw [List.map_cons, List.map_cons, List.cons.injEq, SameItems,
            ih x List.mem_cons_self (hys y List.mem_cons_self),
            ihxs (fun z hz => ih z (List.mem_cons_of_mem x hz)) ys
              fun z hz => hys z (List.mem_cons_of_mem y hz)]
    | dict kvs hkeys hnodup h => rw [sorted_list hxs, sorted_dict ⟨hkeys, hnodup⟩ h]; simp [SameJson]
    | _ => rw [sorted_list hxs]; simp [sorted, sortKeys, SameJson]
  | dict kvs hkeys hnodup h ih =>
    cases hw with
    | dict kvs' hkeys' hnodup' h' =>
      have hentries : Entries (kvs.map sortedEntry) := Entries.map_sorted ⟨hkeys, hnodup⟩
      rw [sorted_dict ⟨hkeys, hnodup⟩ h, sorted_dict ⟨hkeys', hnodup'⟩ h', PyVal.dict.injEq,
        mergeSort_eq_iff hentries, perm_iff hentries, SameJson, sameEntries_iff, List.length_map,
        List.length_map, List.forall_mem_map]
      refine and_congr_right fun _ => forall₂_congr fun kv hkv => ?_
      -- an entry with the same sorted value is one with the same value
      rw [List.mem_map]
      constructor
      · rintro ⟨⟨k, w⟩, hmem, heq⟩
        rw [sortedEntry, sortedEntry, Prod.mk.injEq] at heq
        obtain ⟨rfl, hsorted⟩ := heq
        exact ⟨w, hmem, (ih kv hkv (h' _ hmem)).mp hsorted.symm⟩
      · rintro ⟨w, hmem, hsame⟩
        refine ⟨(kv.1, w), hmem, ?_⟩
        rw [sortedEntry, sortedEntry, (ih kv hkv (h' _ hmem)).mpr hsame]
    | list ys hys => rw [sorted_dict ⟨hkeys, hnodup⟩ h, sorted_list hys]; simp [SameJson]
    | _ => rw [sorted_dict ⟨hkeys, hnodup⟩ h]; simp [sorted, sortKeys, SameJson]
  | none | bool b | int i | float bits hbits | str s =>
    cases hw with
    | list ys hys => rw [sorted_list hys]; simp [sorted, sortKeys, SameJson]
    | dict kvs' hkeys' hnodup' h' =>
      rw [sorted_dict ⟨hkeys', hnodup'⟩ h']
      simp [sorted, sortKeys, SameJson]
    | _ => simp [sorted, sortKeys, SameJson]

/-! ## The canonical text -/

theorem canonicalJson_data (h : Host) (hv : JsonData float v) :
    canonicalJson h v = some (dumps h false (sorted v)) := by
  rw [canonicalJson, (sortKeys_data hv).1]
  rfl

/-- Where there are no floats it does not matter how they are written. -/
theorem dumps_reprFloat (h : Host) (f : UInt64 → String) (a : Bool)
    (hv : JsonData (fun _ => False) v) :
    dumps { h with reprFloat := f } a v = dumps h a v := by
  induction hv with
  | none => rfl
  | bool b => rfl
  | int i => rfl
  | float bits hbits => exact hbits.elim
  | str s => rfl
  | list xs _ ih =>
    have hitems : ∀ ys, (∀ y ∈ ys, dumps { h with reprFloat := f } a y = dumps h a y) →
        dumpsItems { h with reprFloat := f } a ys = dumpsItems h a ys := by
      intro ys
      induction ys with
      | nil => exact fun _ => rfl
      | cons y ys ihys =>
        intro hys
        rw [dumpsItems, dumpsItems, hys y List.mem_cons_self,
          ihys fun z hz => hys z (List.mem_cons_of_mem y hz)]
    rw [dumps, dumps, hitems xs ih]
  | dict kvs _ _ _ ih =>
    have hentries : ∀ ys : List (PyKey × PyVal),
        (∀ kv ∈ ys, dumps { h with reprFloat := f } a kv.2 = dumps h a kv.2) →
        dumpsEntries { h with reprFloat := f } a ys = dumpsEntries h a ys := by
      intro ys
      induction ys with
      | nil => exact fun _ => rfl
      | cons kv ys ihys =>
        intro hys
        obtain ⟨k, v⟩ := kv
        rw [dumpsEntries, dumpsEntries, hys _ List.mem_cons_self,
          ihys fun kv hkv => hys kv (List.mem_cons_of_mem _ hkv)]
    rw [dumps, dumps, hentries kvs ih]

/-- Different data has different texts: it can be read back. -/
theorem dumps_injective (h : Host) (a : Bool) (hv : JsonData (fun _ => False) v)
    (hw : JsonData (fun _ => False) w) (heq : dumps h a v = dumps h a w) : v = w := by
  let h' : Host := { h with reprFloat := fun _ => "nan" }
  have hfloats : Json.FloatTexts h' := fun _ => Or.inl (List.mem_cons_self)
  have hnone : ∀ bits : UInt64, False → h'.floatBits (dumpsFloat h' bits) = bits :=
    fun _ hbits => hbits.elim
  have hreadv := Json.loads_dumps h' hfloats a v
  have hreadw := Json.loads_dumps h' hfloats a w
  rw [dumps_reprFloat h _ a hv, Json.asJson_data h' hnone hv] at hreadv
  rw [dumps_reprFloat h _ a hw, Json.asJson_data h' hnone hw, ← heq, hreadv] at hreadw
  exact Option.some.inj hreadw

/-- **Canonical JSON identifies a value**, up to the order of the entries of its dictionaries. -/
theorem canonicalJson_eq_iff (h : Host) (hv : JsonData (fun _ => False) v)
    (hw : JsonData (fun _ => False) w) :
    canonicalJson h v = canonicalJson h w ↔ SameJson v w := by
  rw [canonicalJson_data h hv, canonicalJson_data h hw, Option.some.injEq, ← sorted_eq_iff hv hw]
  constructor
  · exact dumps_injective h false (sortKeys_data hv).2 (sortKeys_data hw).2
  · intro heq
    rw [heq]

end PyVal

end Sigil
