import Sigil.Library.Dialogue
import Mathlib.Logic.Relation

/-! # Dialogues in a world that moves

A dialogue is one of several parties of a world. The world answers its questions, and between them
it moves on its own: `answers s ⟨q, a⟩ s'` says that in state `s` the question `q` may be answered
`a`, with `s'` after it, and `moves s s'` that the world may get from `s` to `s'` without the
dialogue. `Runs` relates a dialogue and a state to every outcome and state that can be reached;
a run may be cut off anywhere, so the states it relates are all states on the way.
-/
set_option autoImplicit false

namespace Dialogue

variable {Q : Type} {A : Q → Type} {ε α β σ : Type}

inductive Runs (moves : σ → σ → Prop) (answers : σ → Event Q A → σ → Prop) :
    Dialogue Q A ε α → σ → Result ε α → σ → Prop where
  | done (a : α) (s : σ) : Runs moves answers (.done a) s (.returned a) s
  | fail (e : ε) (s : σ) : Runs moves answers (.fail e) s (.raised e) s
  | cut (p : Dialogue Q A ε α) (s : σ) : Runs moves answers p s .unfinished s
  | move (p : Dialogue Q A ε α) (s s' s'' : σ) (r : Result ε α) (hm : moves s s')
      (h : Runs moves answers p s' r s'') : Runs moves answers p s r s''
  | ask (q : Q) (k : A q → Dialogue Q A ε α) (a : A q) (s s' s'' : σ) (r : Result ε α)
      (ha : answers s ⟨q, a⟩ s') (h : Runs moves answers (k a) s' r s'') :
      Runs moves answers (.ask q k) s r s''

variable {moves : σ → σ → Prop} {answers : σ → Event Q A → σ → Prop}

/-- What every move and every answer preserves holds all along every run. -/
theorem Runs.invariant {p : Dialogue Q A ε α} {s s' : σ} {r : Result ε α} {I : σ → Prop}
    (h : Runs moves answers p s r s') (hmove : ∀ s s', I s → moves s s' → I s')
    (hanswer : ∀ s e s', I s → answers s e s' → I s') (hs : I s) : I s' := by
  induction h with
  | done a s => exact hs
  | fail e s => exact hs
  | cut p s => exact hs
  | move p s s' s'' r hm _ ih => exact ih (hmove s s' hs hm)
  | ask q k a s s' s'' r ha _ ih => exact ih (hanswer s ⟨q, a⟩ s' hs ha)

/-- The deterministic run against an environment is one of the runs, seen through `view`. -/
theorem Runs.of_run {τ : Type} (env : Environment Q A τ) (view : τ → σ) (p : Dialogue Q A ε α)
    (t : τ) (hanswers : ∀ q t, answers (view t) ⟨q, (env.answer q t).1⟩ (view (env.answer q t).2)) :
    Runs moves answers p (view t) (run env p t).result (view (run env p t).final) := by
  induction p generalizing t with
  | done a => exact .done a (view t)
  | fail e => exact .fail e (view t)
  | spent => exact .cut _ (view t)
  | ask q k ih => exact .ask q k _ (view t) _ _ _ (hanswers q t) (ih _ _)

/-- A run of a sequence, from a run of its first part that returns. -/
theorem Runs.bind {p : Dialogue Q A ε α} {f : α → Dialogue Q A ε β} {a : α} {s s' s'' : σ}
    {r : Result ε β} (hp : Runs moves answers p s (.returned a) s')
    (hf : Runs moves answers (f a) s' r s'') : Runs moves answers (p >>= f) s r s'' := by
  generalize hr : (Result.returned a : Result ε α) = r' at hp
  induction hp with
  | done b s =>
    cases hr
    exact hf
  | fail e s => cases hr
  | cut p s => cases hr
  | move p s s₁ s₂ r hm _ ih => exact .move _ _ _ _ _ hm (ih hf hr)
  | ask q k b s s₁ s₂ r ha _ ih => exact .ask q _ b _ _ _ _ ha (ih hf hr)

/-! ## Weakest preconditions

`wp p post s` says that every run of `p` from `s` ends as `post` wants, wherever it is cut off.
-/

/-- States the world may get to by itself. -/
abbrev Drifts (moves : σ → σ → Prop) : σ → σ → Prop := Relation.ReflTransGen moves

def wp (moves : σ → σ → Prop) (answers : σ → Event Q A → σ → Prop) :
    Dialogue Q A ε α → (Result ε α → σ → Prop) → σ → Prop
  | done a, post, s => ∀ s', Drifts moves s s' → post .unfinished s' ∧ post (.returned a) s'
  | fail e, post, s => ∀ s', Drifts moves s s' → post .unfinished s' ∧ post (.raised e) s'
  | spent, post, s => ∀ s', Drifts moves s s' → post .unfinished s'
  | ask q k, post, s => ∀ s', Drifts moves s s' →
      post .unfinished s' ∧ ∀ a s'', answers s' ⟨q, a⟩ s'' → wp moves answers (k a) post s''

theorem wp_drift {p : Dialogue Q A ε α} {post : Result ε α → σ → Prop} {s s' : σ}
    (h : wp moves answers p post s) (hs : Drifts moves s s') : wp moves answers p post s' := by
  cases p with
  | done a => exact fun s'' hs' => h s'' (hs.trans hs')
  | fail e => exact fun s'' hs' => h s'' (hs.trans hs')
  | spent => exact fun s'' hs' => h s'' (hs.trans hs')
  | ask q k => exact fun s'' hs' => h s'' (hs.trans hs')

theorem wp_cut {p : Dialogue Q A ε α} {post : Result ε α → σ → Prop} {s : σ}
    (h : wp moves answers p post s) : post .unfinished s := by
  cases p with
  | done a => exact (h s .refl).1
  | fail e => exact (h s .refl).1
  | spent => exact h s .refl
  | ask q k => exact (h s .refl).1

theorem wp_mono {p : Dialogue Q A ε α} {post post' : Result ε α → σ → Prop} {s : σ}
    (h : wp moves answers p post s) (hpost : ∀ r s, post r s → post' r s) :
    wp moves answers p post' s := by
  induction p generalizing s with
  | done a => exact fun s' hs' => ⟨hpost _ _ (h s' hs').1, hpost _ _ (h s' hs').2⟩
  | fail e => exact fun s' hs' => ⟨hpost _ _ (h s' hs').1, hpost _ _ (h s' hs').2⟩
  | spent => exact fun s' hs' => hpost _ _ (h s' hs')
  | ask q k ih =>
    exact fun s' hs' => ⟨hpost _ _ (h s' hs').1, fun a s'' ha => ih a ((h s' hs').2 a s'' ha)⟩

theorem wp_true (p : Dialogue Q A ε α) (s : σ) : wp moves answers p (fun _ _ => True) s := by
  induction p generalizing s with
  | done a => exact fun _ _ => ⟨trivial, trivial⟩
  | fail e => exact fun _ _ => ⟨trivial, trivial⟩
  | spent => exact fun _ _ => trivial
  | ask q k ih => exact fun _ _ => ⟨trivial, fun a s'' _ => ih a s''⟩

theorem Runs.of_wp {p : Dialogue Q A ε α} {post : Result ε α → σ → Prop} {s s' : σ}
    {r : Result ε α} (hrun : Runs moves answers p s r s') (h : wp moves answers p post s) :
    post r s' := by
  induction hrun with
  | done a s => exact (h s .refl).2
  | fail e s => exact (h s .refl).2
  | cut p s => exact wp_cut h
  | move p s s' s'' r hm _ ih => exact ih (wp_drift h (.single hm))
  | ask q k a s s' s'' r ha _ ih => exact ih ((h s .refl).2 a s' ha)

/-! ## Rules -/

/-- From every state in `pre`, every run of `p` ends as `post` wants. -/
def Triple (moves : σ → σ → Prop) (answers : σ → Event Q A → σ → Prop) (pre : σ → Prop)
    (p : Dialogue Q A ε α) (post : Result ε α → σ → Prop) : Prop :=
  ∀ s, pre s → wp moves answers p post s

def Stable (moves : σ → σ → Prop) (pre : σ → Prop) : Prop := ∀ s s', pre s → moves s s' → pre s'

theorem Stable.drifts {pre : σ → Prop} (hpre : Stable moves pre) {s s' : σ} (hs : pre s)
    (h : Drifts moves s s') : pre s' := by
  induction h with
  | refl => exact hs
  | tail _ hm ih => exact hpre _ _ ih hm

section Rules

variable {pre : σ → Prop} {post : Result ε α → σ → Prop}

theorem Triple.mono {pre' : σ → Prop} {p : Dialogue Q A ε α} (h : Triple moves answers pre p post)
    (hpre : ∀ s, pre' s → pre s) : Triple moves answers pre' p post :=
  fun s hs => h s (hpre s hs)

theorem triple_done {a : α} (hstable : Stable moves pre) (hcut : ∀ s, pre s → post .unfinished s)
    (hret : ∀ s, pre s → post (.returned a) s) :
    Triple moves answers pre (.done a : Dialogue Q A ε α) post :=
  fun _ hs s' h => ⟨hcut s' (hstable.drifts hs h), hret s' (hstable.drifts hs h)⟩

theorem triple_fail {e : ε} (hstable : Stable moves pre) (hcut : ∀ s, pre s → post .unfinished s)
    (hraise : ∀ s, pre s → post (.raised e) s) :
    Triple moves answers pre (.fail e : Dialogue Q A ε α) post :=
  fun _ hs s' h => ⟨hcut s' (hstable.drifts hs h), hraise s' (hstable.drifts hs h)⟩

theorem triple_spent (hstable : Stable moves pre) (hcut : ∀ s, pre s → post .unfinished s) :
    Triple moves answers pre (.spent : Dialogue Q A ε α) post :=
  fun _ hs s' h => hcut s' (hstable.drifts hs h)

theorem triple_ask {q : Q} {k : A q → Dialogue Q A ε α} (mid : A q → σ → Prop)
    (hstable : Stable moves pre) (hcut : ∀ s, pre s → post .unfinished s)
    (hq : ∀ s a s', pre s → answers s ⟨q, a⟩ s' → mid a s')
    (hk : ∀ a, Triple moves answers (mid a) (k a) post) :
    Triple moves answers pre (.ask q k) post :=
  fun _ hs s' h => ⟨hcut s' (hstable.drifts hs h),
    fun a s'' ha => hk a s'' (hq s' a s'' (hstable.drifts hs h) ha)⟩

theorem triple_query_bind {q : Q} {f : A q → Dialogue Q A ε α} (mid : A q → σ → Prop)
    (hstable : Stable moves pre) (hcut : ∀ s, pre s → post .unfinished s)
    (hq : ∀ s a s', pre s → answers s ⟨q, a⟩ s' → mid a s')
    (hf : ∀ a, Triple moves answers (mid a) (f a) post) :
    Triple moves answers pre (query q >>= f) post := triple_ask mid hstable hcut hq hf

theorem Triple.bind {p : Dialogue Q A ε α} {f : α → Dialogue Q A ε β}
    {mid : Result ε α → σ → Prop} {post : Result ε β → σ → Prop}
    (hp : Triple moves answers pre p mid)
    (hf : ∀ a, Triple moves answers (mid (.returned a)) (f a) post)
    (hraise : ∀ e s, mid (.raised e) s → post (.raised e) s)
    (hcut : ∀ s, mid .unfinished s → post .unfinished s) :
    Triple moves answers pre (p >>= f) post := by
  intro s hs
  have h := hp s hs
  clear hs
  induction p generalizing s pre with
  | done a => exact hf a s (h s .refl).2
  | fail e => exact fun s' hs' => ⟨hcut s' (h s' hs').1, hraise e s' (h s' hs').2⟩
  | spent => exact fun s' hs' => hcut s' (h s' hs')
  | ask q k ih =>
    refine fun s' hs' => ⟨hcut s' (h s' hs').1, fun a s'' ha => ?_⟩
    exact @ih a (wp moves answers (k a) mid) (fun _ h => h) s'' ((h s' hs').2 a s'' ha)

/-- What `attempt p` returns, said of `p`. -/
def attempted (mid : Result ε α → σ → Prop) {ε' : Type} : Result ε' (Except ε α) → σ → Prop
  | .returned (.ok a), s => mid (.returned a) s
  | .returned (.error e), s => mid (.raised e) s
  | .raised _, _ => False
  | .unfinished, s => mid .unfinished s

theorem Triple.attempt {p : Dialogue Q A ε α} {ε' : Type} (hp : Triple moves answers pre p post) :
    Triple moves answers pre (p.attempt : Dialogue Q A ε' (Except ε α)) (attempted post) := by
  intro s hs
  have h := hp s hs
  clear hs
  induction p generalizing s pre with
  | done a => exact h
  | fail e => exact h
  | spent => exact h
  | ask q k ih =>
    refine fun s' hs' => ⟨(h s' hs').1, fun a s'' ha => ?_⟩
    exact @ih a (wp moves answers (k a) post) (fun _ h => h) s'' ((h s' hs').2 a s'' ha)

end Rules

/-! ## What is being asked

`Asks p s q s'` says that `p`, started in `s`, comes to ask `q` when the world is in `s'`.
-/

inductive Asks (moves : σ → σ → Prop) (answers : σ → Event Q A → σ → Prop) :
    Dialogue Q A ε α → σ → Q → σ → Prop where
  | here (q : Q) (k : A q → Dialogue Q A ε α) (s : σ) : Asks moves answers (.ask q k) s q s
  | move (p : Dialogue Q A ε α) (s s' : σ) (q : Q) (s'' : σ) (hm : moves s s')
      (h : Asks moves answers p s' q s'') : Asks moves answers p s q s''
  | ask (q : Q) (k : A q → Dialogue Q A ε α) (a : A q) (s s' : σ) (q' : Q) (s'' : σ)
      (ha : answers s ⟨q, a⟩ s') (h : Asks moves answers (k a) s' q' s'') :
      Asks moves answers (.ask q k) s q' s''

/-- A sequence asks what its first part asks, or, once that has returned, what its second does. -/
theorem Asks.bind_cases {p : Dialogue Q A ε α} {f : α → Dialogue Q A ε β} {s s' : σ} {q : Q}
    (h : Asks moves answers (p >>= f) s q s') : Asks moves answers p s q s' ∨
      ∃ a s₁, Runs moves answers p s (.returned a) s₁ ∧ Asks moves answers (f a) s₁ q s' := by
  generalize hp : p >>= f = p' at h
  induction h generalizing p with
  | here q k s =>
    cases p with
    | done a =>
      have hf : f a = .ask q k := hp
      exact Or.inr ⟨a, s, .done a s, by rw [hf]; exact .here q k s⟩
    | fail e => cases hp
    | spent => cases hp
    | ask q' k' =>
      cases hp
      exact Or.inl (.here _ _ s)
  | move p' s s₁ q s₂ hm h ih =>
    rcases ih hp with hleft | ⟨a, s₃, hrun, hright⟩
    · exact Or.inl (.move _ _ _ _ _ hm hleft)
    · exact Or.inr ⟨a, s₃, .move _ _ _ _ _ hm hrun, hright⟩
  | ask q k a s s₁ q' s₂ ha h ih =>
    cases p with
    | done b =>
      have hf : f b = .ask q k := hp
      exact Or.inr ⟨b, s, .done b s, by rw [hf]; exact .ask q k a s s₁ q' s₂ ha h⟩
    | fail e => cases hp
    | spent => cases hp
    | ask q₀ k₀ =>
      cases hp
      rcases ih rfl with hleft | ⟨b, s₃, hrun, hright⟩
      · exact Or.inl (.ask _ _ a _ _ _ _ ha hleft)
      · exact Or.inr ⟨b, s₃, .ask _ _ a _ _ _ _ ha hrun, hright⟩

/-- What has no question to ask asks none. -/
theorem not_asks {p : Dialogue Q A ε α} (hp : ∀ q k, p ≠ .ask q k) {s s' : σ} {q : Q} :
    ¬ Asks moves answers p s q s' := by
  intro h
  induction h with
  | here q k s => exact hp q k rfl
  | move _ _ _ _ _ _ _ ih => exact ih hp
  | ask q k => exact hp q k rfl

theorem not_asks_done {a : α} {s s' : σ} {q : Q} :
    ¬ Asks moves answers (.done a : Dialogue Q A ε α) s q s' := by
  apply not_asks
  intro q k hp
  cases hp

theorem not_asks_fail {e : ε} {s s' : σ} {q : Q} :
    ¬ Asks moves answers (.fail e : Dialogue Q A ε α) s q s' := by
  apply not_asks
  intro q k hp
  cases hp

theorem not_asks_spent {s s' : σ} {q : Q} :
    ¬ Asks moves answers (.spent : Dialogue Q A ε α) s q s' := by
  apply not_asks
  intro q k hp
  cases hp

theorem Asks.query_inv {q q' : Q} {s s' : σ}
    (h : Asks moves answers (query q : Dialogue Q A ε (A q)) s q' s') :
    q' = q ∧ Drifts moves s s' := by
  generalize hp : (query q : Dialogue Q A ε (A q)) = p at h
  induction h with
  | here q' k s =>
    cases hp
    exact ⟨rfl, .refl⟩
  | move p s s₁ q' s₂ hm _ ih =>
    obtain ⟨hq, hdrift⟩ := ih hp
    exact ⟨hq, .head hm hdrift⟩
  | ask q' k a s s₁ q'' s₂ _ h _ =>
    cases hp
    exact absurd h not_asks_done

/-- Up to the question, it is a run that is cut off. -/
theorem Asks.runs {p : Dialogue Q A ε α} {s s' : σ} {q : Q} (h : Asks moves answers p s q s') :
    Runs moves answers p s .unfinished s' := by
  induction h with
  | here q k s => exact .cut _ s
  | move p s s₁ q s₂ hm _ ih => exact .move p s s₁ s₂ _ hm ih
  | ask q k a s s₁ q' s₂ ha _ ih => exact .ask q k a s s₁ s₂ _ ha ih

theorem Asks.drift {p : Dialogue Q A ε α} {s s' s'' : σ} {q : Q} (hs : Drifts moves s s')
    (h : Asks moves answers p s' q s'') : Asks moves answers p s q s'' := by
  induction hs using Relation.ReflTransGen.head_induction_on with
  | refl => exact h
  | head hm _ ih => exact .move _ _ _ _ _ hm ih

/-! ## What is heard -/

section Heard

variable {record : σ → List (Event Q A)} (hmove : ∀ s s', moves s s' → record s' = record s)
  (hanswer : ∀ s e s', answers s e s' → record s' = record s ++ [e])

include hmove hanswer

/-- In a world that keeps a record of its answers, a run adds a conversation to it. -/
theorem Runs.heard {p : Dialogue Q A ε α} {s s' : σ} {r : Result ε α}
    (h : Runs moves answers p s r s') : ∃ tr, Plays p tr r ∧ record s' = record s ++ tr := by
  induction h with
  | done a s => exact ⟨[], .done a, (List.append_nil _).symm⟩
  | fail e s => exact ⟨[], .fail e, (List.append_nil _).symm⟩
  | cut p s => exact ⟨[], .cut p, (List.append_nil _).symm⟩
  | move p s s₁ s₂ r hm _ ih =>
    obtain ⟨tr, hplays, hrecord⟩ := ih
    exact ⟨tr, hplays, by rw [hrecord, hmove s s₁ hm]⟩
  | ask q k a s s₁ s₂ r ha _ ih =>
    obtain ⟨tr, hplays, hrecord⟩ := ih
    exact ⟨⟨q, a⟩ :: tr, .ask q k a tr r hplays, by
      rw [hrecord, hanswer s _ s₁ ha, List.append_assoc, List.singleton_append]⟩

theorem Asks.heard {p : Dialogue Q A ε α} {s s' : σ} {q : Q} (h : Asks moves answers p s q s') :
    ∃ tr, (∀ a, Plays p (tr ++ [⟨q, a⟩]) .unfinished) ∧ record s' = record s ++ tr := by
  induction h with
  | here q k s => exact ⟨[], fun a => .ask q k a [] _ (.cut _), (List.append_nil _).symm⟩
  | move p s s₁ q s₂ hm _ ih =>
    obtain ⟨tr, hplays, hrecord⟩ := ih
    exact ⟨tr, hplays, by rw [hrecord, hmove s s₁ hm]⟩
  | ask q k a s s₁ q' s₂ ha _ ih =>
    obtain ⟨tr, hplays, hrecord⟩ := ih
    exact ⟨⟨q, a⟩ :: tr, fun b => .ask q k a _ _ (hplays b), by
      rw [hrecord, hanswer s _ s₁ ha, List.append_assoc, List.singleton_append]⟩

end Heard

end Dialogue
