import Mathlib.Data.List.Basic
import Mathlib.Data.List.Nodup
import Mathlib.Data.List.Infix
import Mathlib.Data.List.Perm.Basic

/-! # Insertion-ordered dictionaries with first-in-first-out eviction

An `OrderedDict κ ν` is a list of entries, oldest first, whose keys are pairwise distinct; the
distinctness is a field, so every operation below re-establishes it. Assigning to a present key
changes its value and leaves it where it stands; assigning to an absent key appends. `evict cap`
drops entries from the old end until at most `cap` are left.

The two facts a bounded registry rests on are `size_evict_le` and `mem_assign_self`: after an
assignment followed by an eviction the size is at most `cap`, and the assigned key is present,
provided the dictionary was within a positive `cap` before.
-/
set_option autoImplicit false

namespace OrderedDict

variable {κ ν : Type}

/-! ## Entry lists -/

/-- Assign in place when the key is present, append otherwise. -/
def assignEntries [DecidableEq κ] (k : κ) (v : ν) : List (κ × ν) → List (κ × ν)
  | [] => [(k, v)]
  | (k', v') :: es => if k' = k then (k, v) :: es else (k', v') :: assignEntries k v es

/-- Drop the oldest entry for as long as there are more than `cap`. -/
def evictEntries (cap : ℕ) : List (κ × ν) → List (κ × ν)
  | [] => []
  | e :: es => if cap < (e :: es).length then evictEntries cap es else e :: es

theorem keys_assignEntries [DecidableEq κ] (k : κ) (v : ν) (es : List (κ × ν)) :
    (assignEntries k v es).map Prod.fst =
      if k ∈ es.map Prod.fst then es.map Prod.fst else es.map Prod.fst ++ [k] := by
  induction es with
  | nil => simp [assignEntries]
  | cons e es ih =>
    obtain ⟨k', v'⟩ := e
    by_cases h : k' = k
    · simp [assignEntries, h]
    · have h' : ¬ k = k' := fun hk => h hk.symm
      simp only [assignEntries, h, if_false, List.map_cons, ih, List.mem_cons, h', false_or]
      split <;> simp

theorem evictEntries_eq_drop (cap : ℕ) (es : List (κ × ν)) :
    evictEntries cap es = es.drop (es.length - cap) := by
  induction es with
  | nil => simp [evictEntries]
  | cons e es ih =>
    by_cases h : cap < (e :: es).length
    · have hs : (e :: es).length - cap = (es.length - cap) + 1 := by
        simp only [List.length_cons] at h ⊢
        omega
      rw [evictEntries, if_pos h, hs, List.drop_succ_cons, ih]
    · have hs : (e :: es).length - cap = 0 := by omega
      rw [evictEntries, if_neg h, hs, List.drop_zero]

theorem keys_evictEntries (cap : ℕ) (es : List (κ × ν)) :
    (evictEntries cap es).map Prod.fst = (es.map Prod.fst).drop (es.length - cap) := by
  rw [evictEntries_eq_drop, List.map_drop]

end OrderedDict

/-- Entries oldest first, keys pairwise distinct. -/
structure OrderedDict (κ ν : Type) where
  entries : List (κ × ν)
  nodup : (entries.map Prod.fst).Nodup

namespace OrderedDict

variable {κ ν : Type}

/-! ## Operations -/

def empty : OrderedDict κ ν := ⟨[], List.nodup_nil⟩

def keys (d : OrderedDict κ ν) : List κ := d.entries.map Prod.fst

def values (d : OrderedDict κ ν) : List ν := d.entries.map Prod.snd

def size (d : OrderedDict κ ν) : ℕ := d.entries.length

def get? [DecidableEq κ] (d : OrderedDict κ ν) (k : κ) : Option ν := d.entries.lookup k

def assign [DecidableEq κ] (d : OrderedDict κ ν) (k : κ) (v : ν) : OrderedDict κ ν where
  entries := assignEntries k v d.entries
  nodup := by
    rw [keys_assignEntries]
    split
    · exact d.nodup
    · next h =>
      exact List.nodup_append.mpr
        ⟨d.nodup, by simp, by simpa using fun a ha => ne_of_mem_of_not_mem ha h⟩

def evict (d : OrderedDict κ ν) (cap : ℕ) : OrderedDict κ ν where
  entries := evictEntries cap d.entries
  nodup := by
    rw [keys_evictEntries]
    exact d.nodup.sublist (List.drop_sublist _ _)

/-! ## Keys and sizes -/

@[simp] theorem keys_empty : (empty : OrderedDict κ ν).keys = [] := rfl

@[simp] theorem length_keys (d : OrderedDict κ ν) : d.keys.length = d.size := List.length_map _

theorem keys_assign [DecidableEq κ] (d : OrderedDict κ ν) (k : κ) (v : ν) :
    (d.assign k v).keys = if k ∈ d.keys then d.keys else d.keys ++ [k] :=
  keys_assignEntries k v d.entries

theorem keys_evict (d : OrderedDict κ ν) (cap : ℕ) :
    (d.evict cap).keys = d.keys.drop (d.size - cap) :=
  keys_evictEntries cap d.entries

theorem size_evict_le (d : OrderedDict κ ν) (cap : ℕ) : (d.evict cap).size ≤ cap := by
  rw [← length_keys, keys_evict, List.length_drop, length_keys]
  omega

theorem keys_evict_of_le (d : OrderedDict κ ν) (cap : ℕ) (h : d.size ≤ cap) :
    (d.evict cap).keys = d.keys := by
  rw [keys_evict, Nat.sub_eq_zero_of_le h, List.drop_zero]

/-! ## Looking up -/

theorem assignEntries_of_not_mem [DecidableEq κ] (k : κ) (v : ν) (es : List (κ × ν))
    (hk : k ∉ es.map Prod.fst) : assignEntries k v es = es ++ [(k, v)] := by
  induction es with
  | nil => rfl
  | cons e es ih =>
    obtain ⟨k', v'⟩ := e
    rw [List.map_cons, List.mem_cons, not_or] at hk
    rw [assignEntries, if_neg (fun heq => hk.1 heq.symm), ih hk.2, List.cons_append]

theorem lookup_eq_some_iff [DecidableEq κ] (k : κ) (v : ν) (es : List (κ × ν))
    (hes : (es.map Prod.fst).Nodup) : es.lookup k = some v ↔ (k, v) ∈ es := by
  induction es with
  | nil => simp
  | cons e es ih =>
    obtain ⟨k', v'⟩ := e
    rw [List.map_cons, List.nodup_cons] at hes
    have hrest := ih hes.2
    rw [List.lookup_cons, List.mem_cons]
    by_cases hk : k = k'
    · subst hk
      have habsent : (k, v) ∉ es := fun hmem => hes.1 (List.mem_map.mpr ⟨(k, v), hmem, rfl⟩)
      simp [habsent, eq_comm]
    · have hbeq : (k == k') = false := beq_eq_false_iff_ne.mpr hk
      rw [hbeq]
      simp [hk, hrest]

/-- The keys are distinct, so what is looked up is what is there. -/
theorem get?_eq_some_iff [DecidableEq κ] (d : OrderedDict κ ν) (k : κ) (v : ν) :
    d.get? k = some v ↔ (k, v) ∈ d.entries :=
  lookup_eq_some_iff k v d.entries d.nodup

theorem get?_eq_of_perm [DecidableEq κ] (d d' : OrderedDict κ ν) (h : d.entries.Perm d'.entries)
    (k : κ) : d.get? k = d'.get? k := by
  apply Option.ext
  intro v
  rw [get?_eq_some_iff, get?_eq_some_iff, h.mem_iff]

/-- Bindings of new, distinct keys are appended in the order in which they are assigned. -/
theorem entries_foldl_assign [DecidableEq κ] (d : OrderedDict κ ν) (bs : List (κ × ν))
    (hbs : ((d.entries ++ bs).map Prod.fst).Nodup) :
    (bs.foldl (fun d b => d.assign b.1 b.2) d).entries = d.entries ++ bs := by
  induction bs generalizing d with
  | nil => simp
  | cons b bs ih =>
    have hb : b.1 ∉ d.entries.map Prod.fst := by
      rw [List.map_append, List.map_cons] at hbs
      have hdisj := (List.nodup_append.mp hbs).2.2
      exact fun hmem => hdisj b.1 hmem b.1 List.mem_cons_self rfl
    have hassign : (d.assign b.1 b.2).entries = d.entries ++ [b] :=
      assignEntries_of_not_mem b.1 b.2 d.entries hb
    have hrest := ih (d.assign b.1 b.2) (by rwa [hassign, List.append_assoc])
    rw [List.foldl_cons, hrest, hassign, List.append_assoc]
    rfl

/-! ## Assignment followed by eviction -/

/-- The assigned key survives: in place it costs nothing, appended it is the youngest entry. -/
theorem mem_assign_self [DecidableEq κ] (d : OrderedDict κ ν) (k : κ) (v : ν) (cap : ℕ)
    (hcap : 0 < cap) (h : d.size ≤ cap) : k ∈ ((d.assign k v).evict cap).keys := by
  by_cases hk : k ∈ d.keys
  · have hkeys : (d.assign k v).keys = d.keys := by rw [keys_assign, if_pos hk]
    have hsize : (d.assign k v).size ≤ cap := by rw [← length_keys, hkeys, length_keys]; exact h
    rw [keys_evict_of_le _ _ hsize, hkeys]
    exact hk
  · have hkeys : (d.assign k v).keys = d.keys ++ [k] := by rw [keys_assign, if_neg hk]
    have hsize : (d.assign k v).size = d.size + 1 := by
      rw [← length_keys, hkeys, List.length_append, length_keys, List.length_singleton]
    rw [keys_evict, hkeys, hsize, List.drop_append_of_le_length (by rw [length_keys]; omega)]
    exact List.mem_append_right _ (List.mem_singleton_self k)

end OrderedDict
