import Sigil.Library.World

/-! # Two runs

Two dialogues agree when they ask alike and, answered alike, go on in agreement to results that
`post` relates. Played against environments that answer alike, they then end alike, and what is
heard of the one is like what is heard of the other.
-/
set_option autoImplicit false

namespace Dialogue

/-- Which questions are taken for the same, and which answers to them are alike. -/
structure Likeness (Q : Type) (A : Q → Type) where
  same : Q → Q → Prop
  alike : Event Q A → Event Q A → Prop

variable {Q : Type} {A : Q → Type} {ε α α' β β' σ σ' : Type}

inductive Agree (L : Likeness Q A) (post : α → α' → Prop) :
    Dialogue Q A ε α → Dialogue Q A ε α' → Prop where
  | done (a : α) (a' : α') (h : post a a') : Agree L post (.done a) (.done a')
  | fail (e : ε) : Agree L post (.fail e) (.fail e)
  | spent : Agree L post .spent .spent
  | ask (q q' : Q) (k : A q → Dialogue Q A ε α) (k' : A q' → Dialogue Q A ε α') (hq : L.same q q')
      (hk : ∀ a a', L.alike ⟨q, a⟩ ⟨q', a'⟩ → Agree L post (k a) (k' a')) :
      Agree L post (.ask q k) (.ask q' k')

/-! ## Rules -/

section Rules

variable {L : Likeness Q A} {post : α → α' → Prop} {p : Dialogue Q A ε α} {p' : Dialogue Q A ε α'}

theorem agree_query_bind {q q' : Q} {f : A q → Dialogue Q A ε α} {f' : A q' → Dialogue Q A ε α'}
    (hq : L.same q q')
    (hf : ∀ a a', L.alike ⟨q, a⟩ ⟨q', a'⟩ → Agree L post (f a) (f' a')) :
    Agree L post (query q >>= f) (query q' >>= f') := .ask q q' f f' hq hf

theorem agree_ofExcept (r : Except ε α) :
    Agree L (· = ·) (ofExcept r : Dialogue Q A ε α) (ofExcept r) := by
  cases r with
  | ok a => exact .done a a rfl
  | error e => exact .fail e

/-- A dialogue agrees with itself where like answers are equal. -/
theorem Agree.refl (p : Dialogue Q A ε α) (hsame : ∀ q, L.same q q)
    (halike : ∀ q a a', L.alike ⟨q, a⟩ ⟨q, a'⟩ → a = a') : Agree L (· = ·) p p := by
  induction p with
  | done a => exact .done a a rfl
  | fail e => exact .fail e
  | spent => exact .spent
  | ask q k ih =>
    refine .ask q q k k (hsame q) fun a a' ha => ?_
    rw [← halike q a a' ha]
    exact ih a

theorem Agree.mono {post' : α → α' → Prop} (hp : Agree L post p p')
    (h : ∀ a a', post a a' → post' a a') : Agree L post' p p' := by
  induction hp with
  | done a a' ha => exact .done a a' (h a a' ha)
  | fail e => exact .fail e
  | spent => exact .spent
  | ask q q' k k' hq _ ih => exact .ask q q' k k' hq ih

theorem Agree.bind {mid : α → α' → Prop} {post : β → β' → Prop} {f : α → Dialogue Q A ε β}
    {f' : α' → Dialogue Q A ε β'} (hp : Agree L mid p p')
    (hf : ∀ a a', mid a a' → Agree L post (f a) (f' a')) :
    Agree L post (p >>= f) (p' >>= f') := by
  induction hp with
  | done a a' ha => exact hf a a' ha
  | fail e => exact .fail e
  | spent => exact .spent
  | ask q q' k k' hq _ ih => exact .ask q q' _ _ hq ih

theorem Agree.handle {h : ε → Option (Dialogue Q A ε α)} {h' : ε → Option (Dialogue Q A ε α')}
    (hp : Agree L post p p')
    (hh : ∀ e, Agree L post ((h e).getD (.fail e)) ((h' e).getD (.fail e))) :
    Agree L post (p.handle h) (p'.handle h') := by
  induction hp with
  | done a a' ha => exact .done a a' ha
  | fail e => exact hh e
  | spent => exact .spent
  | ask q q' k k' hq _ ih => exact .ask q q' _ _ hq ih

/-- Results that `post` relates, or one and the same exception. -/
inductive Matches (post : α → α' → Prop) : Except ε α → Except ε α' → Prop where
  | ok (a : α) (a' : α') (h : post a a') : Matches post (.ok a) (.ok a')
  | error (e : ε) : Matches post (.error e) (.error e)

theorem Matches.eq {x x' : Except ε α} (h : Matches (· = ·) x x') : x = x' := by
  cases h with
  | ok a a' ha => rw [ha]
  | error e => rfl

theorem Agree.attempt {ε' : Type} (hp : Agree L post p p') :
    Agree L (Matches post) (p.attempt : Dialogue Q A ε' (Except ε α)) p'.attempt := by
  induction hp with
  | done a a' ha => exact .done _ _ (.ok a a' ha)
  | fail e => exact .done _ _ (.error e)
  | spent => exact .spent
  | ask q q' k k' hq _ ih => exact .ask q q' _ _ hq ih

end Rules

/-! ## Questions put in other words -/

section Interpret

variable {Q' : Type} {A' : Q' → Type}

/-- `p`, each question of which is put by a dialogue of other questions. -/
def interpret (f : (q : Q) → Dialogue Q' A' ε (A q)) : Dialogue Q A ε α → Dialogue Q' A' ε α
  | .done a => .done a
  | .fail e => .fail e
  | .spent => .spent
  | .ask q k => f q >>= fun a => interpret f (k a)

theorem Agree.interpret {L : Likeness Q A} {L' : Likeness Q' A'} {post : α → α' → Prop}
    {f f' : (q : Q) → Dialogue Q' A' ε (A q)} {p : Dialogue Q A ε α} {p' : Dialogue Q A ε α'}
    (hf : ∀ q q', L.same q q' →
      Agree L' (fun a a' => L.alike ⟨q, a⟩ ⟨q', a'⟩) (f q) (f' q')) (hp : Agree L post p p') :
    Agree L' post (p.interpret f) (p'.interpret f') := by
  induction hp with
  | done a a' ha => exact .done a a' ha
  | fail e => exact .fail e
  | spent => exact .spent
  | ask q q' k k' hq _ ih => exact (hf q q' hq).bind ih

/-- What is asked is asked to put one of the questions. -/
theorem Asks.interpret_inv {moves : σ → σ → Prop} {answers : σ → Event Q' A' → σ → Prop}
    {f : (q : Q) → Dialogue Q' A' ε (A q)} {p : Dialogue Q A ε α} {s s' : σ} {q : Q'}
    (h : Asks moves answers (p.interpret f) s q s') :
    ∃ q₀ s₁, Asks moves answers (f q₀) s₁ q s' := by
  induction p generalizing s with
  | done a => exact absurd h not_asks_done
  | fail e => exact absurd h not_asks_fail
  | spent => exact absurd h not_asks_spent
  | ask q₀ k ih =>
    rcases h.bind_cases with hleft | ⟨a, s₁, -, hright⟩
    · exact ⟨q₀, s, hleft⟩
    · exact ih a hright

end Interpret

/-! ## Runs -/

/-- Environments that answer alike, and go on to do so. -/
def Resemble (L : Likeness Q A) (rel : σ → σ' → Prop) (env : Environment Q A σ)
    (env' : Environment Q A σ') : Prop :=
  ∀ q q' s s', L.same q q' → rel s s' →
    L.alike ⟨q, (env.answer q s).1⟩ ⟨q', (env'.answer q' s').1⟩ ∧
      rel (env.answer q s).2 (env'.answer q' s').2

inductive EndsAlike (post : α → α' → Prop) : Result ε α → Result ε α' → Prop where
  | returned (a : α) (a' : α') (h : post a a') : EndsAlike post (.returned a) (.returned a')
  | raised (e : ε) : EndsAlike post (.raised e) (.raised e)
  | unfinished : EndsAlike post .unfinished .unfinished

theorem EndsAlike.eq {r r' : Result ε α} (h : EndsAlike (· = ·) r r') : r = r' := by
  cases h with
  | returned a a' ha => rw [ha]
  | raised e => rfl
  | unfinished => rfl

/-- **Dialogues that agree run alike.** -/
theorem Agree.run {L : Likeness Q A} {rel : σ → σ' → Prop} {env : Environment Q A σ}
    {env' : Environment Q A σ'} {post : α → α' → Prop} {p : Dialogue Q A ε α}
    {p' : Dialogue Q A ε α'} (hp : Agree L post p p') (henv : Resemble L rel env env') (s : σ)
    (s' : σ') (hs : rel s s') :
    EndsAlike post (run env p s).result (run env' p' s').result ∧
      List.Forall₂ L.alike (run env p s).events (run env' p' s').events := by
  induction hp generalizing s s' with
  | done a a' ha => exact ⟨.returned a a' ha, .nil⟩
  | fail e => exact ⟨.raised e, .nil⟩
  | spent => exact ⟨.unfinished, .nil⟩
  | ask q q' k k' hq _ ih =>
    obtain ⟨halike, hnext⟩ := henv q q' s s' hq hs
    obtain ⟨hend, hevents⟩ := ih _ _ halike _ _ hnext
    exact ⟨hend, .cons halike hevents⟩

theorem map_alike {E γ : Type} {R : E → E → Prop} {f : E → γ} (hf : ∀ e e', R e e' → f e = f e')
    {tr tr' : List E} (htr : List.Forall₂ R tr tr') : tr.map f = tr'.map f := by
  induction htr with
  | nil => rfl
  | cons he _ ih => rw [List.map_cons, List.map_cons, hf _ _ he, ih]

theorem filterMap_alike {E γ : Type} {R : E → E → Prop} {f : E → Option γ}
    (hf : ∀ e e', R e e' → f e = f e') {tr tr' : List E} (htr : List.Forall₂ R tr tr') :
    tr.filterMap f = tr'.filterMap f := by
  induction htr with
  | nil => rfl
  | cons he _ ih => rw [List.filterMap_cons, List.filterMap_cons, hf _ _ he, ih]

end Dialogue
