import Sigil.Library.Pool
import Sigil.Library.Monitor
import Mathlib.Algebra.BigOperators.Group.Finset.Basic
import Mathlib.Tactic.Abel

/-! # Pools in a shared world

The members of a pool take turns at one world, which also moves on its own. Each member is read by a
monitor of its own. `Shared.guided` is the rule for invariants that speak of the world and of where
all monitors stand: it is enough to look at one step of one member.
-/
set_option autoImplicit false

namespace Dialogue

variable {Q : Type} {A : Q → Type} {ε α ι σ Γ : Type} [DecidableEq ι]

inductive Shared (moves : σ → σ → Prop) (answers : ι → σ → Event Q A → σ → Prop) :
    (ι → Dialogue Q A ε α) → σ → List (ι × Event Q A) → (ι → Dialogue Q A ε α) → σ → Prop where
  | refl (pool : ι → Dialogue Q A ε α) (s : σ) : Shared moves answers pool s [] pool s
  | move (pool pool' : ι → Dialogue Q A ε α) (s s' s'' : σ) (tr : List (ι × Event Q A))
      (hm : moves s s') (h : Shared moves answers pool s' tr pool' s'') :
      Shared moves answers pool s tr pool' s''
  | step (pool pool' : ι → Dialogue Q A ε α) (s s' s'' : σ) (i : ι) (q : Q)
      (k : A q → Dialogue Q A ε α) (a : A q) (tr : List (ι × Event Q A)) (hi : pool i = .ask q k)
      (ha : answers i s ⟨q, a⟩ s')
      (h : Shared moves answers (Function.update pool i (k a)) s' tr pool' s'') :
      Shared moves answers pool s ((i, ⟨q, a⟩) :: tr) pool' s''

variable {moves : σ → σ → Prop} {answers : ι → σ → Event Q A → σ → Prop}
  {pool pool' : ι → Dialogue Q A ε α} {s s' : σ} {tr : List (ι × Event Q A)}

/-- Without its world it is a pool like any other. -/
theorem Shared.steps (h : Shared moves answers pool s tr pool' s') : Steps pool tr pool' := by
  induction h with
  | refl pool s => exact .refl pool
  | move pool pool' s s' s'' tr _ _ ih => exact ih
  | step pool pool' s s' s'' i q k a tr hi _ _ ih => exact .step pool pool' i q k a tr hi ih

theorem Shared.trans {pool'' : ι → Dialogue Q A ε α} {s'' : σ} {tr' : List (ι × Event Q A)}
    (h : Shared moves answers pool s tr pool' s') (h' : Shared moves answers pool' s' tr' pool'' s'') :
    Shared moves answers pool s (tr ++ tr') pool'' s'' := by
  induction h with
  | refl pool s => exact h'
  | move pool pool' s s₁ s₂ tr hm _ ih => exact .move pool pool'' s s₁ s'' _ hm (ih h')
  | step pool pool' s s₁ s₂ i q k a tr hi ha _ ih =>
    exact .step pool pool'' s s₁ s'' i q k a _ hi ha (ih h')

/-- What every move and every answer preserves, said of the world and of the trace so far. -/
theorem Shared.invariant {I : σ → List (ι × Event Q A) → Prop}
    (h : Shared moves answers pool s tr pool' s')
    (hmove : ∀ s s' tr, I s tr → moves s s' → I s' tr)
    (hanswer : ∀ i s e s' tr, I s tr → answers i s e s' → I s' (tr ++ [(i, e)]))
    (before : List (ι × Event Q A)) (hs : I s before) : I s' (before ++ tr) := by
  induction h generalizing before with
  | refl pool s => rwa [List.append_nil]
  | move pool pool' s s' s'' tr hm _ ih => exact ih before (hmove s s' before hs hm)
  | step pool pool' s s' s'' i q k a tr hi ha _ ih =>
    have hnext := ih (before ++ [(i, ⟨q, a⟩)]) (hanswer i s ⟨q, a⟩ s' before hs ha)
    rwa [List.append_assoc, List.singleton_append] at hnext

/-! ## Monitors beside each other -/

def Deterministic (step : Γ → Event Q A → Γ → Prop) : Prop :=
  ∀ g e g₁ g₂, step g e g₁ → step g e g₂ → g₁ = g₂

section Guided

variable {step : Γ → Event Q A → Γ → Prop} (hdet : Deterministic step)

include hdet

/-- Once its question is answered, what is left of a guided dialogue is guided. -/
theorem Guided.answered {q : Q} {k : A q → Dialogue Q A ε α} {g : Γ} {post : Except ε α → Γ → Prop}
    (h : Guided step (.ask q k) g post) (a : A q) :
    ∃ g', step g ⟨q, a⟩ g' ∧ Guided step (k a) g' post := by
  obtain ⟨g', hfollows, -⟩ := h [⟨q, a⟩] .unfinished (.ask q k a [] _ (.cut _))
  cases hfollows with
  | cons _ g₁ _ _ _ hstep _ =>
    refine ⟨g₁, hstep, fun tr r hplays => ?_⟩
    obtain ⟨g₂, hrest, hpost⟩ := h (⟨q, a⟩ :: tr) r (.ask q k a tr r hplays)
    cases hrest with
    | cons _ g₃ _ _ _ hstep' htr =>
      rw [hdet g ⟨q, a⟩ g₃ g₁ hstep' hstep] at htr
      exact ⟨g₂, htr, hpost⟩

/-- **The rule of monitors.** An invariant of the world, the trace and the stages of all members
holds all along, if no move of the world and no step of a single member breaks it. -/
theorem Shared.guided {P : ι → Except ε α → Γ → Prop}
    {J : σ → List (ι × Event Q A) → (ι → Γ) → Prop} (h : Shared moves answers pool s tr pool' s')
    (hmove : ∀ s s' tr g, J s tr g → moves s s' → J s' tr g)
    (hanswer : ∀ i s e s' tr g γ, J s tr g → answers i s e s' → step (g i) e γ →
      J s' (tr ++ [(i, e)]) (Function.update g i γ))
    (before : List (ι × Event Q A)) (g : ι → Γ) (hg : ∀ i, Guided step (pool i) (g i) (P i))
    (hs : J s before g) :
    ∃ g', J s' (before ++ tr) g' ∧ ∀ i, Guided step (pool' i) (g' i) (P i) := by
  induction h generalizing before g with
  | refl pool s => exact ⟨g, by rwa [List.append_nil], hg⟩
  | move pool pool' s s' s'' tr hm _ ih => exact ih before g hg (hmove s s' before g hs hm)
  | step pool pool' s s' s'' i q k a tr hi ha _ ih =>
    have hmember := hg i
    rw [hi] at hmember
    obtain ⟨γ, hstep, hrest⟩ := hmember.answered hdet a
    have hnext := ih (before ++ [(i, ⟨q, a⟩)]) (Function.update g i γ) (fun j => ?_)
      (hanswer i s ⟨q, a⟩ s' before g γ hs ha hstep)
    · rwa [List.append_assoc, List.singleton_append] at hnext
    · by_cases hj : j = i
      · subst hj
        rwa [Function.update_self, Function.update_self]
      · rw [Function.update_of_ne hj, Function.update_of_ne hj]
        exact hg j

end Guided

/-- Where the monitor of a dialogue stands that has ended. -/
theorem Guided.ended {step : Γ → Event Q A → Γ → Prop} {x : Except ε α} {g : Γ}
    {post : Except ε α → Γ → Prop} (h : Guided step (ofExcept x : Dialogue Q A ε α) g post) :
    post x g := by
  have hplays : Plays (ofExcept x : Dialogue Q A ε α) [] (.ofExcept x) := by
    cases x with
    | ok a => exact .done a
    | error e => exact .fail e
  obtain ⟨g', hfollows, hpost⟩ := h [] _ hplays
  cases hfollows with
  | nil => exact hpost x rfl

/-! ## What the members have in sum -/

theorem sum_update_add {M : Type} [AddCommMonoid M] [Fintype ι] (f : Γ → M) (g : ι → Γ) (i : ι)
    (γ : Γ) : (∑ j, f (Function.update g i γ j)) + f (g i) = (∑ j, f (g j)) + f γ := by
  have hrest : ∀ j ∈ Finset.univ.erase i, f (Function.update g i γ j) = f (g j) := by
    intro j hj
    rw [Function.update_of_ne (Finset.ne_of_mem_erase hj)]
  have hnew := Finset.add_sum_erase Finset.univ (fun j => f (Function.update g i γ j))
    (Finset.mem_univ i)
  have hold := Finset.add_sum_erase Finset.univ (fun j => f (g j)) (Finset.mem_univ i)
  rw [← hnew, ← hold, Finset.sum_congr rfl hrest, Function.update_self]
  abel

end Dialogue
