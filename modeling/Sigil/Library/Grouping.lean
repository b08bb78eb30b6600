import Mathlib.Data.List.Perm.Basic
import Mathlib.Data.List.Nodup
import Mathlib.Order.Lattice

/-! # Lists grouped by a key

Elements are put into one group for each key, in the order they come in. Reading the groups one
after the other gives every element back, and gives them back in order if the keys were in order.
-/
set_option autoImplicit false

namespace Grouping

variable {α β : Type} [DecidableEq β] (key : α → β)

/-- The elements with a key. -/
def group (xs : List α) (k : β) : List α := xs.filter fun x => key x = k

/-- The groups of some keys, one after the other. -/
def groups (ks : List β) (xs : List α) : List α := ks.flatMap (group key xs)

theorem groups_nil (ks : List β) : groups key ks [] = [] := by
  induction ks with
  | nil => rfl
  | cons k ks ih => exact ih

theorem groups_append (ks ks' : List β) (xs : List α) :
    groups key (ks ++ ks') xs = groups key ks xs ++ groups key ks' xs := List.flatMap_append

theorem groups_key (k : β) (ks : List β) (xs : List α) :
    groups key (k :: ks) xs = group key xs k ++ groups key ks xs := List.flatMap_cons

/-- An element is in no group of another key. -/
theorem groups_cons_of_not_mem (ks : List β) (x : α) (xs : List α) (hk : key x ∉ ks) :
    groups key ks (x :: xs) = groups key ks xs := by
  refine List.flatMap_congr fun k hmem => ?_
  have hne : key x ≠ k := fun heq => hk (heq ▸ hmem)
  rw [group, List.filter_cons_of_neg (by simp [hne]), group]

/-- An element comes first in its group. -/
theorem groups_cons (ks ks' : List β) (x : α) (xs : List α) (hnodup : (ks ++ key x :: ks').Nodup) :
    groups key (ks ++ key x :: ks') (x :: xs) =
      groups key ks xs ++ x :: groups key (key x :: ks') xs := by
  obtain ⟨-, hright, hdisjoint⟩ := List.nodup_append.mp hnodup
  have hks : key x ∉ ks := fun hmem => hdisjoint _ hmem _ List.mem_cons_self rfl
  have hks' : key x ∉ ks' := (List.nodup_cons.mp hright).1
  have hhead : group key (x :: xs) (key x) = x :: group key xs (key x) := by
    rw [group, List.filter_cons_of_pos (by simp), group]
  rw [groups_append, groups_key, groups_key, groups_cons_of_not_mem key ks x xs hks,
    groups_cons_of_not_mem key ks' x xs hks', hhead, List.cons_append]

/-- Nothing is lost and nothing comes twice. -/
theorem groups_perm (ks : List β) (hnodup : ks.Nodup) (xs : List α)
    (hkeys : ∀ x ∈ xs, key x ∈ ks) : (groups key ks xs).Perm xs := by
  induction xs with
  | nil => rw [groups_nil]
  | cons x xs ih =>
    have hrest := ih fun y hy => hkeys y (List.mem_cons_of_mem x hy)
    obtain ⟨ks₁, ks₂, rfl⟩ := List.append_of_mem (hkeys x List.mem_cons_self)
    rw [groups_cons key ks₁ ks₂ x xs hnodup]
    rw [groups_append] at hrest
    exact List.perm_middle.trans (hrest.cons x)

/-- Keys that come in order leave the elements in order. -/
theorem groups_eq [LinearOrder β] (ks : List β) (hks : ks.Pairwise (· < ·)) (xs : List α)
    (hxs : xs.Pairwise fun x y => key x ≤ key y) (hkeys : ∀ x ∈ xs, key x ∈ ks) :
    groups key ks xs = xs := by
  induction xs with
  | nil => exact groups_nil key ks
  | cons x xs ih =>
    obtain ⟨hfirst, hxs⟩ := List.pairwise_cons.mp hxs
    have hrest := ih hxs fun y hy => hkeys y (List.mem_cons_of_mem x hy)
    have hnodup : ks.Nodup := hks.imp fun hlt => ne_of_lt hlt
    obtain ⟨ks₁, ks₂, rfl⟩ := List.append_of_mem (hkeys x List.mem_cons_self)
    -- no later element belongs before this one
    have hbefore : groups key ks₁ xs = [] := by
      refine List.flatMap_eq_nil_iff.mpr fun k hk => List.filter_eq_nil_iff.mpr fun y hy => ?_
      have hlt : k < key x := (List.pairwise_append.mp hks).2.2 k hk _ List.mem_cons_self
      have hne : key y ≠ k := (ne_of_lt (lt_of_lt_of_le hlt (hfirst y hy))).symm
      simpa using hne
    rw [groups_append, hbefore, List.nil_append] at hrest
    rw [groups_cons key ks₁ ks₂ x xs hnodup, hbefore, hrest, List.nil_append]

end Grouping
