import Sigil.Library.Dialogue

/-! # Dialogues under a monitor

A monitor reads a conversation event by event and moves between stages; `Follows` says that it can
read the whole of it. `Guided` says that whatever is heard of a dialogue can be read, and where the
monitor stands when the dialogue ends; it has one rule for each way of building a dialogue.
-/
set_option autoImplicit false

namespace Dialogue

variable {Q : Type} {A : Q → Type} {ε α β : Type} {Γ : Type}

/-! ## Reading a conversation -/

inductive Follows (step : Γ → Event Q A → Γ → Prop) : Γ → List (Event Q A) → Γ → Prop where
  | nil (s : Γ) : Follows step s [] s
  | cons (s s' s'' : Γ) (e : Event Q A) (tr : List (Event Q A)) (he : step s e s')
      (htr : Follows step s' tr s'') : Follows step s (e :: tr) s''

section Follows

variable {step : Γ → Event Q A → Γ → Prop} {s s' s'' : Γ} {tr tr' : List (Event Q A)}

theorem Follows.append (htr : Follows step s tr s') (htr' : Follows step s' tr' s'') :
    Follows step s (tr ++ tr') s'' := by
  induction htr with
  | nil s => exact htr'
  | cons s s₁ s₂ e tr he _ ih => exact .cons s s₁ s'' e _ he (ih htr')

theorem Follows.split (htr : Follows step s (tr ++ tr') s'') :
    ∃ s', Follows step s tr s' ∧ Follows step s' tr' s'' := by
  induction tr generalizing s with
  | nil => exact ⟨s, .nil s, htr⟩
  | cons e tr ih =>
    cases htr with
    | cons _ s₁ _ _ _ he hrest =>
      obtain ⟨s', hleft, hright⟩ := ih hrest
      exact ⟨s', .cons s s₁ s' e tr he hleft, hright⟩

/-- Where the monitor stands before and after one of the events. -/
theorem Follows.at {e : Event Q A} (htr : Follows step s (tr ++ e :: tr') s'') :
    ∃ s₁ s₂, Follows step s tr s₁ ∧ step s₁ e s₂ ∧ Follows step s₂ tr' s'' := by
  obtain ⟨s₁, hleft, hright⟩ := htr.split
  cases hright with
  | cons _ s₂ _ _ _ he hrest => exact ⟨s₁, s₂, hleft, he, hrest⟩

/-- Within stages that no event leaves, only events of their kind are read. -/
theorem Follows.confined {within : Γ → Prop} {ok : Event Q A → Prop}
    (hstep : ∀ s e s', within s → step s e s' → ok e ∧ within s') (hs : within s)
    (htr : Follows step s tr s') : ∀ e ∈ tr, ok e := by
  induction htr with
  | nil s => simp
  | cons s s₁ s₂ e tr he _ ih =>
    obtain ⟨hok, hnext⟩ := hstep s e s₁ hs he
    intro e' he'
    rcases List.mem_cons.mp he' with rfl | he'
    · exact hok
    · exact ih hnext e' he'

/-- What a stage tells about the events read so far. -/
theorem Follows.history (past : Γ → List (Event Q A) → Prop)
    (hstep : ∀ s e s' before, past s before → step s e s' → past s' (before ++ [e]))
    (before : List (Event Q A)) (hs : past s before) (htr : Follows step s tr s') :
    past s' (before ++ tr) := by
  induction htr generalizing before with
  | nil s => rwa [List.append_nil]
  | cons s s₁ s₂ e tr he _ ih =>
    have hrest := ih (before ++ [e]) (hstep s e s₁ before hs he)
    rwa [List.append_assoc] at hrest

end Follows

/-! ## Guided dialogues -/

theorem Result.unfinished_ne (x : Except ε α) : (Result.unfinished : Result ε α) ≠ .ofExcept x := by
  cases x <;> exact nofun

/-- Whatever is heard of `p` can be read from `s`; when `p` ends, the monitor is where `post` says. -/
def Guided (step : Γ → Event Q A → Γ → Prop) (p : Dialogue Q A ε α) (s : Γ)
    (post : Except ε α → Γ → Prop) : Prop :=
  Ensures p fun tr r => ∃ s', Follows step s tr s' ∧ ∀ x, r = .ofExcept x → post x s'

section Guided

variable {step : Γ → Event Q A → Γ → Prop} {s : Γ} {post : Except ε α → Γ → Prop}

theorem guided_end (x : Except ε α) (h : post x s) :
    Guided step (ofExcept x : Dialogue Q A ε α) s post := by
  have hend : ∀ y : Except ε α, (Result.ofExcept x : Result ε α) = .ofExcept y → post y s := by
    intro y hy
    rwa [← Result.ofExcept_inj hy]
  have hcut : ∀ y : Except ε α, (Result.unfinished : Result ε α) = .ofExcept y → post y s :=
    fun y hy => absurd hy (Result.unfinished_ne y)
  cases x with
  | ok a => exact ensures_done ⟨s, .nil s, hend⟩ ⟨s, .nil s, hcut⟩
  | error e => exact ensures_fail ⟨s, .nil s, hend⟩ ⟨s, .nil s, hcut⟩

theorem guided_done (a : α) (h : post (.ok a) s) :
    Guided step (.done a : Dialogue Q A ε α) s post := guided_end (.ok a) h

theorem guided_fail (e : ε) (h : post (.error e) s) :
    Guided step (.fail e : Dialogue Q A ε α) s post := guided_end (.error e) h

theorem guided_spent : Guided step (.spent : Dialogue Q A ε α) s post :=
  ensures_spent ⟨s, .nil s, fun x hx => absurd hx (Result.unfinished_ne x)⟩

theorem guided_ask {q : Q} {k : A q → Dialogue Q A ε α}
    (h : ∀ a, ∃ s', step s ⟨q, a⟩ s' ∧ Guided step (k a) s' post) :
    Guided step (.ask q k) s post := by
  refine ensures_ask ⟨s, .nil s, fun x hx => absurd hx (Result.unfinished_ne x)⟩ fun a => ?_
  obtain ⟨s', he, hk⟩ := h a
  refine hk.mono ?_
  rintro tr r ⟨s'', htr, hpost⟩
  exact ⟨s'', .cons s s' s'' _ tr he htr, hpost⟩

theorem guided_query_bind {q : Q} {f : A q → Dialogue Q A ε α}
    (h : ∀ a, ∃ s', step s ⟨q, a⟩ s' ∧ Guided step (f a) s' post) :
    Guided step (query q >>= f) s post := guided_ask h

theorem Guided.mono {p : Dialogue Q A ε α} {post' : Except ε α → Γ → Prop}
    (hp : Guided step p s post) (h : ∀ x s', post x s' → post' x s') : Guided step p s post' := by
  refine Ensures.mono hp ?_
  rintro tr r ⟨s', htr, hpost⟩
  exact ⟨s', htr, fun x hx => h x s' (hpost x hx)⟩

theorem Guided.bind {p : Dialogue Q A ε α} {f : α → Dialogue Q A ε β}
    {mid : Except ε α → Γ → Prop} {post : Except ε β → Γ → Prop} (hp : Guided step p s mid)
    (hret : ∀ a s', mid (.ok a) s' → Guided step (f a) s' post)
    (hraise : ∀ e s', mid (.error e) s' → post (.error e) s') : Guided step (p >>= f) s post := by
  refine Ensures.bind hp ?_ ?_ ?_
  · rintro tr a ⟨s', htr, hmid⟩
    refine Ensures.mono (hret a s' (hmid (.ok a) rfl)) ?_
    rintro tr' r ⟨s'', htr', hpost⟩
    exact ⟨s'', htr.append htr', hpost⟩
  · rintro tr e ⟨s', htr, hmid⟩
    refine ⟨s', htr, fun x hx => ?_⟩
    rw [← Result.ofExcept_inj (x := .error e) hx]
    exact hraise e s' (hmid (.error e) rfl)
  · rintro tr ⟨s', htr, -⟩
    exact ⟨s', htr, fun x hx => absurd hx (Result.unfinished_ne x)⟩

theorem Guided.handle {p : Dialogue Q A ε α} {h : ε → Option (Dialogue Q A ε α)}
    {mid : Except ε α → Γ → Prop} (hp : Guided step p s mid)
    (hret : ∀ a s', mid (.ok a) s' → post (.ok a) s')
    (hraise : ∀ e s', mid (.error e) s' → Guided step ((h e).getD (.fail e)) s' post) :
    Guided step (p.handle h) s post := by
  refine Ensures.handle hp ?_ ?_ ?_
  · rintro tr a ⟨s', htr, hmid⟩
    refine ⟨s', htr, fun x hx => ?_⟩
    rw [← Result.ofExcept_inj (x := .ok a) hx]
    exact hret a s' (hmid (.ok a) rfl)
  · rintro tr e ⟨s', htr, hmid⟩
    refine Ensures.mono (hraise e s' (hmid (.error e) rfl)) ?_
    rintro tr' r ⟨s'', htr', hpost⟩
    exact ⟨s'', htr.append htr', hpost⟩
  · rintro tr ⟨s', htr, -⟩
    exact ⟨s', htr, fun x hx => absurd hx (Result.unfinished_ne x)⟩

/-- After an attempt the monitor stands where `p` has left it, however that ended. -/
theorem Guided.attempt_bind {ε' : Type} {p : Dialogue Q A ε α}
    {f : Except ε α → Dialogue Q A ε' β} {mid : Except ε α → Γ → Prop}
    {post : Except ε' β → Γ → Prop} (hp : Guided step p s mid)
    (hf : ∀ x s', mid x s' → Guided step (f x) s' post) :
    Guided step (p.attempt >>= f) s post := by
  have hmid : ∀ tr (x : Except ε α), (∃ s', Follows step s tr s' ∧
      ∀ y, (Result.ofExcept x : Result ε α) = .ofExcept y → mid y s') →
      ∃ s', Follows step s tr s' ∧ mid x s' := by
    rintro tr x ⟨s', htr, hpost⟩
    exact ⟨s', htr, hpost x rfl⟩
  have hattempt : Guided step (p.attempt : Dialogue Q A ε' (Except ε α)) s
      fun x s' => ∃ y, x = .ok y ∧ mid y s' := by
    have hend : ∀ tr (x : Except ε α), (∃ s', Follows step s tr s' ∧ mid x s') →
        ∃ s', Follows step s tr s' ∧ ∀ y, (Result.returned x : Result ε' (Except ε α)) =
          .ofExcept y → ∃ z, y = .ok z ∧ mid z s' := by
      rintro tr x ⟨s', htr, hx⟩
      refine ⟨s', htr, fun y hy => ⟨x, ?_, hx⟩⟩
      exact (Result.ofExcept_inj (x := .ok x) hy).symm
    refine Ensures.attempt hp (fun tr a h => hend tr _ (hmid tr (.ok a) h))
      (fun tr e h => hend tr _ (hmid tr (.error e) h)) ?_
    rintro tr ⟨s', htr, -⟩
    exact ⟨s', htr, fun x hx => absurd hx (Result.unfinished_ne x)⟩
  refine hattempt.bind ?_ ?_
  · rintro x s' ⟨y, hy, hmid⟩
    cases hy
    exact hf x s' hmid
  · rintro e s' ⟨y, hy, -⟩
    cases hy

end Guided

end Dialogue
