import Sigil.Library.Shared

/-! # Two pools beside each other

Members of two kinds take turns at one world, each kind with questions of its own. Either pool sees
the other as moves of the world (`Beside.left`, `Beside.right`), so that the rules for one pool hold
of both.
-/
set_option autoImplicit false

namespace Dialogue

variable {Q Q' : Type} {A : Q → Type} {A' : Q' → Type} {ε ε' α α' ι κ σ : Type} [DecidableEq ι]
  [DecidableEq κ]

inductive Beside (answers : ι → σ → Event Q A → σ → Prop) (answers' : κ → σ → Event Q' A' → σ → Prop) :
    (ι → Dialogue Q A ε α) → (κ → Dialogue Q' A' ε' α') → σ → List (ι × Event Q A) →
      List (κ × Event Q' A') → (ι → Dialogue Q A ε α) → (κ → Dialogue Q' A' ε' α') → σ → Prop where
  | refl (p : ι → Dialogue Q A ε α) (p' : κ → Dialogue Q' A' ε' α') (s : σ) :
      Beside answers answers' p p' s [] [] p p' s
  | left (p p₁ : ι → Dialogue Q A ε α) (p' p₁' : κ → Dialogue Q' A' ε' α') (s s' s'' : σ) (i : ι)
      (q : Q) (k : A q → Dialogue Q A ε α) (a : A q) (tr : List (ι × Event Q A))
      (tr' : List (κ × Event Q' A')) (hi : p i = .ask q k) (ha : answers i s ⟨q, a⟩ s')
      (h : Beside answers answers' (Function.update p i (k a)) p' s' tr tr' p₁ p₁' s'') :
      Beside answers answers' p p' s ((i, ⟨q, a⟩) :: tr) tr' p₁ p₁' s''
  | right (p p₁ : ι → Dialogue Q A ε α) (p' p₁' : κ → Dialogue Q' A' ε' α') (s s' s'' : σ) (i : κ)
      (q : Q') (k : A' q → Dialogue Q' A' ε' α') (a : A' q) (tr : List (ι × Event Q A))
      (tr' : List (κ × Event Q' A')) (hi : p' i = .ask q k) (ha : answers' i s ⟨q, a⟩ s')
      (h : Beside answers answers' p (Function.update p' i (k a)) s' tr tr' p₁ p₁' s'') :
      Beside answers answers' p p' s tr ((i, ⟨q, a⟩) :: tr') p₁ p₁' s''

variable {answers : ι → σ → Event Q A → σ → Prop} {answers' : κ → σ → Event Q' A' → σ → Prop}
  {p p₁ : ι → Dialogue Q A ε α} {p' p₁' : κ → Dialogue Q' A' ε' α'} {s s' : σ}
  {tr : List (ι × Event Q A)} {tr' : List (κ × Event Q' A')}

theorem Beside.left_shared (h : Beside answers answers' p p' s tr tr' p₁ p₁' s') :
    Shared (fun s s' => ∃ i e, answers' i s e s') answers p s tr p₁ s' := by
  induction h with
  | refl p p' s => exact .refl p s
  | left p p₁ p' p₁' s s' s'' i q k a tr tr' hi ha _ ih => exact .step p p₁ s s' s'' i q k a tr hi ha ih
  | right p p₁ p' p₁' s s' s'' i q k a tr tr' hi ha _ ih =>
    exact .move p p₁ s s' s'' tr ⟨i, ⟨q, a⟩, ha⟩ ih

theorem Beside.right_shared (h : Beside answers answers' p p' s tr tr' p₁ p₁' s') :
    Shared (fun s s' => ∃ i e, answers i s e s') answers' p' s tr' p₁' s' := by
  induction h with
  | refl p p' s => exact .refl p' s
  | left p p₁ p' p₁' s s' s'' i q k a tr tr' hi ha _ ih =>
    exact .move p' p₁' s s' s'' tr' ⟨i, ⟨q, a⟩, ha⟩ ih
  | right p p₁ p' p₁' s s' s'' i q k a tr tr' hi ha _ ih =>
    exact .step p' p₁' s s' s'' i q k a tr' hi ha ih

/-- What every answer to either pool preserves, said of the world and of both traces so far. -/
theorem Beside.invariant {I : σ → List (ι × Event Q A) → List (κ × Event Q' A') → Prop}
    (h : Beside answers answers' p p' s tr tr' p₁ p₁' s')
    (hleft : ∀ i s e s' tr tr', I s tr tr' → answers i s e s' → I s' (tr ++ [(i, e)]) tr')
    (hright : ∀ i s e s' tr tr', I s tr tr' → answers' i s e s' → I s' tr (tr' ++ [(i, e)]))
    (before : List (ι × Event Q A)) (before' : List (κ × Event Q' A')) (hs : I s before before') :
    I s' (before ++ tr) (before' ++ tr') := by
  induction h generalizing before before' with
  | refl p p' s => rwa [List.append_nil, List.append_nil]
  | left p p₁ p' p₁' s s' s'' i q k a tr tr' hi ha _ ih =>
    have hnext := ih (before ++ [(i, ⟨q, a⟩)]) before' (hleft i s ⟨q, a⟩ s' before before' hs ha)
    rwa [List.append_assoc, List.singleton_append] at hnext
  | right p p₁ p' p₁' s s' s'' i q k a tr tr' hi ha _ ih =>
    have hnext := ih before (before' ++ [(i, ⟨q, a⟩)]) (hright i s ⟨q, a⟩ s' before before' hs ha)
    rwa [List.append_assoc, List.singleton_append] at hnext

/-- A member of the second pool may hold its whole conversation while all others wait. -/
theorem Plays.beside {d : Dialogue Q' A' ε' α'} {tr' : List (Event Q' A')} {a : α'}
    (h : Plays d tr' (.returned a)) (i : κ) (hi : p' i = d)
    (hworld : Follows (answers' i) s tr' s') :
    Beside answers answers' p p' s [] (tr'.map fun e => (i, e)) p
      (Function.update p' i (.done a)) s' := by
  generalize hr : (Result.returned a : Result ε' α') = r at h
  induction h generalizing p' s with
  | done b =>
    cases hr
    cases hworld
    rw [← hi, Function.update_eq_self]
    exact .refl p p' s'
  | fail e => cases hr
  | cut d => cases hr
  | ask q k b tr r _ ih =>
    cases hworld with
    | cons _ s₁ _ _ _ ha hrest =>
      have hasks : Function.update p' i (k b) i = k b := Function.update_self i (k b) p'
      have hsteps := ih hasks hrest hr
      rw [Function.update_idem] at hsteps
      exact .right p p p' _ s s₁ s' i q k b [] _ hi ha hsteps

end Dialogue
