import Sigil.Library.Agreement
import Sigil.Library.Monitor

/-! # Conversations told in full

When the questions of a dialogue are put in other words (`interpret`), what is heard is a
conversation of it with every event told in full: `Told` says so, and `Follows.told` carries what
each stage of a monitor says over from the one to the other. Nothing is raised here: the exceptions
of a dialogue can be made results with `attempt`.
-/
set_option autoImplicit false

namespace Dialogue

variable {Q : Type} {A : Q → Type} {Q' : Type} {A' : Q' → Type} {ε α β Γ : Type}

/-! ## Taking conversations apart -/

theorem Plays.bind_inv {p : Dialogue Q A ε α} {f : α → Dialogue Q A ε β} {tr : List (Event Q A)}
    {b : β} (h : Plays (p >>= f) tr (.returned b)) :
    ∃ a tr₁ tr₂, tr = tr₁ ++ tr₂ ∧ Plays p tr₁ (.returned a) ∧ Plays (f a) tr₂ (.returned b) := by
  induction p generalizing tr with
  | done a => exact ⟨a, [], tr, rfl, .done a, h⟩
  | fail e => cases h
  | spent => cases h
  | ask q k ih =>
    cases h with
    | ask _ _ a tr' _ hk =>
      obtain ⟨a', tr₁, tr₂, rfl, hp, hf⟩ := ih a hk
      exact ⟨a', ⟨q, a⟩ :: tr₁, tr₂, rfl, .ask q k a tr₁ _ hp, hf⟩

/-- However it ends: the sequel has been reached, or not yet. -/
theorem Plays.bind_cases {p : Dialogue Q A ε α} {f : α → Dialogue Q A ε β} {tr : List (Event Q A)}
    {r : Result ε β} (h : Plays (p >>= f) tr r) :
    (∃ a tr₁ tr₂, tr = tr₁ ++ tr₂ ∧ Plays p tr₁ (.returned a) ∧ Plays (f a) tr₂ r) ∨
      ∃ x, Plays p tr x := by
  induction p generalizing tr with
  | done a => exact Or.inl ⟨a, [], tr, rfl, .done a, h⟩
  | fail e => cases h <;> exact Or.inr ⟨_, .cut _⟩
  | spent =>
    cases h
    exact Or.inr ⟨_, .cut _⟩
  | ask q k ih =>
    cases h with
    | cut => exact Or.inr ⟨_, .cut _⟩
    | ask _ _ a tr' _ hk =>
      obtain ⟨a', tr₁, tr₂, rfl, hp, hf⟩ | ⟨x, hp⟩ := ih a hk
      · exact Or.inl ⟨a', ⟨q, a⟩ :: tr₁, tr₂, rfl, .ask q k a tr₁ _ hp, hf⟩
      · exact Or.inr ⟨x, .ask q k a tr' x hp⟩

theorem Plays.attempt_inv {ε' : Type} {p : Dialogue Q A ε α} {tr : List (Event Q A)}
    {x : Except ε α} (h : Plays (p.attempt : Dialogue Q A ε' (Except ε α)) tr (.returned x)) :
    Plays p tr (.ofExcept x) := by
  induction p generalizing tr with
  | done a =>
    cases h
    exact .done a
  | fail e =>
    cases h
    exact .fail e
  | spent => cases h
  | ask q k ih =>
    cases h with
    | ask _ _ a tr' _ hk => exact .ask q k a tr' _ (ih a hk)

theorem Plays.query_inv {q : Q} {tr : List (Event Q A)} {a : A q}
    (h : Plays (query q : Dialogue Q A ε (A q)) tr (.returned a)) : tr = [⟨q, a⟩] := by
  cases h with
  | ask _ _ b tr' _ hk =>
    cases hk
    rfl

theorem plays_query (q : Q) (a : A q) :
    Plays (query q : Dialogue Q A ε (A q)) [⟨q, a⟩] (.returned a) :=
  .ask q .done a [] _ (.done a)

/-- Handlers that agree on what may be raised. -/
theorem handle_congr {p : Dialogue Q A ε α} (h h' : ε → Option (Dialogue Q A ε α))
    (hsame : ∀ tr e, Plays p tr (.raised e) → h e = h' e) : p.handle h = p.handle h' := by
  induction p with
  | done a => rfl
  | fail e => rw [handle, handle, hsame [] e (.fail e)]
  | spent => rfl
  | ask q k ih =>
    have hrest (a : A q) : (k a).handle h = (k a).handle h' :=
      ih a fun tr e he => hsame (⟨q, a⟩ :: tr) e (.ask q k a tr _ he)
    rw [handle, handle, funext hrest]

/-! ## Telling -/

/-- Each event of the first conversation is told by a part of the second. -/
inductive Told (f : (q : Q) → Dialogue Q' A' ε (A q)) :
    List (Event Q A) → List (Event Q' A') → Prop where
  | nil : Told f [] []
  | cons (e : Event Q A) (tr : List (Event Q A)) (part tr' : List (Event Q' A'))
      (hpart : Plays (f e.1) part (.returned e.2)) (htr : Told f tr tr') :
      Told f (e :: tr) (part ++ tr')

theorem Plays.interpret_inv {f : (q : Q) → Dialogue Q' A' ε (A q)} {p : Dialogue Q A ε α}
    {tr' : List (Event Q' A')} {a : α} (h : Plays (p.interpret f) tr' (.returned a)) :
    ∃ tr, Plays p tr (.returned a) ∧ Told f tr tr' := by
  induction p generalizing tr' with
  | done b =>
    cases h
    exact ⟨[], .done a, .nil⟩
  | fail e => cases h
  | spent => cases h
  | ask q k ih =>
    obtain ⟨b, part, rest, rfl, hpart, hrest⟩ := h.bind_inv
    obtain ⟨tr, hp, htold⟩ := ih b hrest
    exact ⟨⟨q, b⟩ :: tr, .ask q k b tr _ hp, .cons ⟨q, b⟩ tr part rest hpart htold⟩

/-- What a stage tells about the conversation so far, as it was told in full. -/
theorem Follows.told {step : Γ → Event Q A → Γ → Prop} {f : (q : Q) → Dialogue Q' A' ε (A q)}
    {s s' : Γ} {tr : List (Event Q A)} {tr' : List (Event Q' A')}
    (past : Γ → List (Event Q' A') → Prop)
    (hstep : ∀ s e s' before part, past s before → step s e s' →
      Plays (f e.1) part (.returned e.2) → past s' (before ++ part))
    (htr : Follows step s tr s') (htold : Told f tr tr') (before : List (Event Q' A'))
    (hs : past s before) : past s' (before ++ tr') := by
  induction htold generalizing s before with
  | nil =>
    cases htr
    rwa [List.append_nil]
  | cons e tr part tr' hpart _ ih =>
    cases htr with
    | cons _ s₁ _ _ _ he hrest =>
      have hnext := ih hrest (before ++ part) (hstep s e s₁ before part hs he hpart)
      rwa [List.append_assoc] at hnext

end Dialogue
