import Sigil.Library.Dialogue
import Mathlib.Data.List.Pairwise
import Mathlib.Logic.Function.Basic

/-! # Pools of dialogues

Dialogues run concurrently by taking turns: one step of a pool answers the question one of its
members is asking, with any answer. What a member has heard in any interleaving is a conversation
of its own (`Steps.plays`), so a fact about all conversations of a dialogue holds of it in every
pool, at every moment.
-/
set_option autoImplicit false

namespace Dialogue

variable {Q : Type} {A : Q → Type} {ε α ι : Type} [DecidableEq ι]

inductive Steps : (ι → Dialogue Q A ε α) → List (ι × Event Q A) → (ι → Dialogue Q A ε α) → Prop where
  | refl (pool : ι → Dialogue Q A ε α) : Steps pool [] pool
  | step (pool pool' : ι → Dialogue Q A ε α) (i : ι) (q : Q) (k : A q → Dialogue Q A ε α) (a : A q)
      (tr : List (ι × Event Q A)) (hi : pool i = .ask q k)
      (h : Steps (Function.update pool i (k a)) tr pool') : Steps pool ((i, ⟨q, a⟩) :: tr) pool'

/-- The part of a trace that belongs to one member. -/
def heardBy (i : ι) (tr : List (ι × Event Q A)) : List (Event Q A) :=
  (tr.filter fun e => e.1 = i).map Prod.snd

theorem heardBy_cons_self (i : ι) (e : Event Q A) (tr : List (ι × Event Q A)) :
    heardBy i ((i, e) :: tr) = e :: heardBy i tr := by simp [heardBy]

theorem heardBy_cons_of_ne (i j : ι) (hne : j ≠ i) (e : Event Q A) (tr : List (ι × Event Q A)) :
    heardBy i ((j, e) :: tr) = heardBy i tr := by simp [heardBy, hne]

theorem mem_heardBy (i : ι) (e : Event Q A) (tr : List (ι × Event Q A)) :
    e ∈ heardBy i tr ↔ (i, e) ∈ tr := by
  simp [heardBy]

theorem heardBy_map_self (i : ι) (tr : List (Event Q A)) :
    heardBy i (tr.map fun e => (i, e)) = tr := by
  simp [heardBy, List.filter_map, Function.comp_def]

/-- Each member has held a conversation of its own. -/
theorem Steps.plays {pool pool' : ι → Dialogue Q A ε α} {tr : List (ι × Event Q A)}
    (h : Steps pool tr pool') (i : ι) : Plays (pool i) (heardBy i tr) .unfinished := by
  induction h with
  | refl pool => exact .cut _
  | step pool pool' j q k a tr hj _ ih =>
    by_cases hij : j = i
    · subst hij
      rw [heardBy_cons_self, hj]
      rw [Function.update_self] at ih
      exact .ask q k a _ _ ih
    · rw [heardBy_cons_of_ne i j hij]
      rwa [Function.update_of_ne (Ne.symm hij)] at ih

/-- A member that has returned has held its whole conversation. -/
theorem Steps.returned {pool pool' : ι → Dialogue Q A ε α} {tr : List (ι × Event Q A)}
    (h : Steps pool tr pool') (i : ι) (x : α) (hi : pool' i = .done x) :
    Plays (pool i) (heardBy i tr) (.returned x) := by
  induction h with
  | refl pool =>
    rw [hi]
    exact .done x
  | step pool pool' j q k a tr hj _ ih =>
    have hrest := ih hi
    by_cases hij : j = i
    · subst hij
      rw [heardBy_cons_self, hj]
      rw [Function.update_self] at hrest
      exact .ask q k a _ _ hrest
    · rw [heardBy_cons_of_ne i j hij]
      rwa [Function.update_of_ne (Ne.symm hij)] at hrest

/-- A member may hold a conversation of its own while the others wait. -/
theorem Plays.steps {p : Dialogue Q A ε α} {tr : List (Event Q A)} {r : Result ε α}
    (h : Plays p tr r) (i : ι) (pool : ι → Dialogue Q A ε α) (hi : pool i = p) :
    ∃ q, Steps pool (tr.map fun e => (i, e)) (Function.update pool i q) := by
  induction h generalizing pool with
  | done a => exact ⟨pool i, by rw [Function.update_eq_self]; exact .refl pool⟩
  | fail e => exact ⟨pool i, by rw [Function.update_eq_self]; exact .refl pool⟩
  | cut p => exact ⟨pool i, by rw [Function.update_eq_self]; exact .refl pool⟩
  | ask q k a tr r _ ih =>
    obtain ⟨p', hsteps⟩ := ih (Function.update pool i (k a)) (Function.update_self i (k a) pool)
    rw [Function.update_idem] at hsteps
    exact ⟨p', .step pool _ i q k a _ hi hsteps⟩

theorem Steps.trans {pool pool' pool'' : ι → Dialogue Q A ε α} {tr tr' : List (ι × Event Q A)}
    (h : Steps pool tr pool') (h' : Steps pool' tr' pool'') : Steps pool (tr ++ tr') pool'' := by
  induction h with
  | refl pool => exact h'
  | step pool pool' i q k a tr hi _ ih => exact .step pool pool'' i q k a _ hi (ih h')

theorem sublist_heardBy (i : ι) (a b : Event Q A) (tr : List (ι × Event Q A))
    (h : [(i, a), (i, b)].Sublist tr) : [a, b].Sublist (heardBy i tr) := by
  have hfilter := (h.filter fun e => decide (e.1 = i)).map Prod.snd
  simpa [heardBy] using hfilter

/-- A relation between earlier and later events of a trace, member by member. -/
theorem pairwise_by_member {R : ι × Event Q A → ι × Event Q A → Prop} (tr : List (ι × Event Q A))
    (hsame : ∀ i a b, [a, b].Sublist (heardBy i tr) → R (i, a) (i, b))
    (hother : ∀ i j a b, i ≠ j → a ∈ heardBy i tr → b ∈ heardBy j tr → R (i, a) (j, b)) :
    tr.Pairwise R := by
  rw [List.pairwise_iff_forall_sublist]
  rintro ⟨i, a⟩ ⟨j, b⟩ hsub
  by_cases hij : i = j
  · subst hij
    exact hsame i a b (sublist_heardBy i a b tr hsub)
  · refine hother i j a b hij ?_ ?_
    · exact (mem_heardBy i a tr).mpr (hsub.subset (by simp))
    · exact (mem_heardBy j b tr).mpr (hsub.subset (by simp))

/-- An element that holds a key held once is the only one with that key. -/
theorem eq_of_nodup_filterMap {β γ : Type} {f : β → Option γ} {l : List β}
    (hl : (l.filterMap f).Nodup) {a b : β} (ha : a ∈ l) (hb : b ∈ l) {c : γ} (hac : f a = some c)
    (hbc : f b = some c) : a = b := by
  by_contra hne
  have hpairs : l.Pairwise fun a b => ∀ x, f a = some x → ∀ y, f b = some y → x ≠ y :=
    List.pairwise_filterMap.mp hl
  have hsymm : Std.Symm fun a b => ∀ x, f a = some x → ∀ y, f b = some y → x ≠ y :=
    ⟨fun a b hab x hx y hy => (hab y hy x hx).symm⟩
  exact hpairs.forall ha hb hne c hac c hbc rfl

theorem no_two_of_length_le_one {β γ : Type} {f : β → Option γ} {l : List β}
    (hl : (l.filterMap f).length ≤ 1) {a b : β} (hab : [a, b].Sublist l) {x y : γ}
    (hx : f a = some x) (hy : f b = some y) : False := by
  have htwo := (hab.filterMap f).length_le
  rw [List.filterMap_cons_some hx, List.filterMap_cons_some hy] at htwo
  have hlen : (x :: y :: List.filterMap f []).length = 2 := rfl
  omega

theorem length_le_one_of_pairwise {β : Type} {l : List β} (hl : l.Pairwise fun _ _ => False) :
    l.length ≤ 1 := by
  match l with
  | [] => exact Nat.zero_le 1
  | [_] => exact Nat.le_refl 1
  | _ :: _ :: _ => exact absurd (List.rel_of_pairwise_cons hl List.mem_cons_self) not_false

end Dialogue
