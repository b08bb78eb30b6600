import Mathlib.Data.List.Basic

/-! # Dialogues

A `Dialogue Q A ε α` is a program that questions its environment: it returns, fails, or asks a
question `q : Q` and goes on with the answer, of type `A q`. `spent` stands for a loop whose bound
is used up. Dialogues form a monad with exceptions. An `Environment` answers from a state, and
`run` plays a dialogue against one, keeping the events of the conversation.
-/
set_option autoImplicit false

inductive Dialogue (Q : Type) (A : Q → Type) (ε α : Type) : Type where
  | done (a : α)
  | fail (e : ε)
  | spent
  | ask (q : Q) (k : A q → Dialogue Q A ε α)

namespace Dialogue

variable {Q : Type} {A : Q → Type} {ε α β σ : Type}

/-! ## The monad -/

protected def bind : Dialogue Q A ε α → (α → Dialogue Q A ε β) → Dialogue Q A ε β
  | done a, f => f a
  | fail e, _ => fail e
  | spent, _ => spent
  | ask q k, f => ask q fun a => (k a).bind f

instance : Monad (Dialogue Q A ε) where
  pure := done
  bind := Dialogue.bind

def query (q : Q) : Dialogue Q A ε (A q) := ask q done

/-- `try: p except …`; the handler declines an exception with `none`. -/
def handle (h : ε → Option (Dialogue Q A ε α)) : Dialogue Q A ε α → Dialogue Q A ε α
  | done a => done a
  | fail e => (h e).getD (fail e)
  | spent => spent
  | ask q k => ask q fun a => handle h (k a)

/-- `p`, with an exception for a result rather than for an end. -/
def attempt {ε' : Type} : Dialogue Q A ε α → Dialogue Q A ε' (Except ε α)
  | done a => done (.ok a)
  | fail e => done (.error e)
  | spent => spent
  | ask q k => ask q fun a => attempt (k a)

def ofExcept : Except ε α → Dialogue Q A ε α
  | .ok a => done a
  | .error e => fail e

@[simp] theorem pure_eq (a : α) : (pure a : Dialogue Q A ε α) = done a := rfl

@[simp] theorem done_bind (a : α) (f : α → Dialogue Q A ε β) : done a >>= f = f a := rfl

@[simp] theorem fail_bind (e : ε) (f : α → Dialogue Q A ε β) :
    (fail e : Dialogue Q A ε α) >>= f = fail e := rfl

@[simp] theorem ask_bind (q : Q) (k : A q → Dialogue Q A ε α) (f : α → Dialogue Q A ε β) :
    ask q k >>= f = ask q fun a => k a >>= f := rfl

protected theorem bind_assoc (p : Dialogue Q A ε α) (f : α → Dialogue Q A ε β) {γ : Type}
    (g : β → Dialogue Q A ε γ) : p >>= f >>= g = p >>= fun a => f a >>= g := by
  induction p with
  | done a => rfl
  | fail e => rfl
  | spent => rfl
  | ask q k ih => exact congrArg (ask q) (funext ih)

/-! ## Running against an environment -/

abbrev Event (Q : Type) (A : Q → Type) : Type := Σ q, A q

inductive Result (ε α : Type) : Type where
  | returned (a : α)
  | raised (e : ε)
  | unfinished
  deriving DecidableEq

structure Environment (Q : Type) (A : Q → Type) (σ : Type) where
  answer : (q : Q) → σ → A q × σ

structure Run (Q : Type) (A : Q → Type) (ε α σ : Type) where
  result : Result ε α
  events : List (Event Q A)
  final : σ

def run (env : Environment Q A σ) : Dialogue Q A ε α → σ → Run Q A ε α σ
  | done a, s => ⟨.returned a, [], s⟩
  | fail e, s => ⟨.raised e, [], s⟩
  | spent, s => ⟨.unfinished, [], s⟩
  | ask q k, s =>
    let r := run env (k (env.answer q s).1) (env.answer q s).2
    { r with events := ⟨q, (env.answer q s).1⟩ :: r.events }

/-- The run of a sequel starts where the first run returned. -/
def Run.andThen (r : Run Q A ε α σ) (f : α → σ → Run Q A ε β σ) : Run Q A ε β σ :=
  match r.result with
  | .returned a => { f a r.final with events := r.events ++ (f a r.final).events }
  | .raised e => ⟨.raised e, r.events, r.final⟩
  | .unfinished => ⟨.unfinished, r.events, r.final⟩

variable (env : Environment Q A σ)

theorem run_ask (q : Q) (k : A q → Dialogue Q A ε α) (s : σ) :
    run env (ask q k) s =
      { run env (k (env.answer q s).1) (env.answer q s).2 with
        events := ⟨q, (env.answer q s).1⟩ ::
          (run env (k (env.answer q s).1) (env.answer q s).2).events } := rfl

theorem run_query_bind (q : Q) (f : A q → Dialogue Q A ε α) (s : σ) :
    run env (query q >>= f) s =
      { run env (f (env.answer q s).1) (env.answer q s).2 with
        events := ⟨q, (env.answer q s).1⟩ ::
          (run env (f (env.answer q s).1) (env.answer q s).2).events } := rfl

theorem run_bind (p : Dialogue Q A ε α) (f : α → Dialogue Q A ε β) (s : σ) :
    run env (p >>= f) s = (run env p s).andThen fun a s' => run env (f a) s' := by
  induction p generalizing s with
  | done a => rfl
  | fail e => rfl
  | spent => rfl
  | ask q k ih =>
    rw [ask_bind, run_ask, run_ask, ih]
    unfold Run.andThen
    cases (run env (k (env.answer q s).1) (env.answer q s).2).result <;> rfl

theorem run_bind_returned (p : Dialogue Q A ε α) (f : α → Dialogue Q A ε β) (s : σ) (a : α)
    (h : (run env p s).result = .returned a) :
    run env (p >>= f) s =
      { run env (f a) (run env p s).final with
        events := (run env p s).events ++ (run env (f a) (run env p s).final).events } := by
  rw [run_bind, Run.andThen, h]

theorem run_bind_raised (p : Dialogue Q A ε α) (f : α → Dialogue Q A ε β) (s : σ) (e : ε)
    (h : (run env p s).result = .raised e) :
    run env (p >>= f) s = ⟨.raised e, (run env p s).events, (run env p s).final⟩ := by
  rw [run_bind, Run.andThen, h]

/-- What is heard in a run is what the environment answered. -/
theorem run_answered (p : Dialogue Q A ε α) (s : σ) :
    ∀ e ∈ (run env p s).events, ∃ t, e.2 = (env.answer e.1 t).1 := by
  induction p generalizing s with
  | done a => exact fun e he => absurd he List.not_mem_nil
  | fail e => exact fun e he => absurd he List.not_mem_nil
  | spent => exact fun e he => absurd he List.not_mem_nil
  | ask q k ih =>
    intro e he
    rcases List.mem_cons.mp he with rfl | he
    · exact ⟨s, rfl⟩
    · exact ih _ _ e he

theorem run_handle_caught {h : ε → Option (Dialogue Q A ε α)} {p q : Dialogue Q A ε α} {s : σ}
    {e : ε} (he : (run env p s).result = .raised e) (hq : h e = some q) :
    run env (p.handle h) s = { run env q (run env p s).final with
      events := (run env p s).events ++ (run env q (run env p s).final).events } := by
  induction p generalizing s with
  | done a => cases he
  | fail e' =>
    cases he
    rw [handle, hq]
    rfl
  | spent => cases he
  | ask q' k ih =>
    rw [handle, run_ask, run_ask, ih _ he]
    rfl

theorem run_handle_declined {h : ε → Option (Dialogue Q A ε α)} {p : Dialogue Q A ε α} {s : σ}
    (hp : ∀ e, (run env p s).result = .raised e → h e = none) :
    run env (p.handle h) s = run env p s := by
  induction p generalizing s with
  | done a => rfl
  | fail e =>
    rw [handle, hp e rfl]
    rfl
  | spent => rfl
  | ask q k ih => rw [handle, run_ask, run_ask, ih _ hp]

def Result.ofExcept : Except ε α → Result ε α
  | .ok a => .returned a
  | .error e => .raised e

theorem Result.ofExcept_inj {x y : Except ε α}
    (h : (Result.ofExcept x : Result ε α) = .ofExcept y) : x = y := by
  cases x <;> cases y <;> cases h <;> rfl

theorem run_attempt_bind {ε' : Type} (p : Dialogue Q A ε α) (f : Except ε α → Dialogue Q A ε' β)
    (s : σ) (r : Except ε α) (hr : (run env p s).result = .ofExcept r) :
    run env (p.attempt >>= f) s =
      { run env (f r) (run env p s).final with
        events := (run env p s).events ++ (run env (f r) (run env p s).final).events } := by
  induction p generalizing s with
  | done a =>
    cases r with
    | ok b =>
      cases hr
      rfl
    | error e => cases hr
  | fail e =>
    cases r with
    | ok b => cases hr
    | error e' =>
      cases hr
      rfl
  | spent => cases r <;> cases hr
  | ask q k ih =>
    rw [attempt, ask_bind, run_ask, run_ask, ih _ _ hr]
    rfl

theorem run_attempt {ε' : Type} (p : Dialogue Q A ε α) (s : σ) :
    (run env (p.attempt : Dialogue Q A ε' (Except ε α)) s).result =
      match (run env p s).result with
      | .returned a => .returned (.ok a)
      | .raised e => .returned (.error e)
      | .unfinished => .unfinished := by
  induction p generalizing s with
  | done a => rfl
  | fail e => rfl
  | spent => rfl
  | ask q k ih => exact ih _ _

theorem attempt_bind {ε' : Type} (p : Dialogue Q A ε α) (f : α → Dialogue Q A ε β) :
    ((p >>= f).attempt : Dialogue Q A ε' (Except ε β)) = p.attempt >>= fun r =>
      match r with
      | .ok a => (f a).attempt
      | .error e => done (.error e) := by
  induction p with
  | done a => rfl
  | fail e => rfl
  | spent => rfl
  | ask q k ih =>
    rw [ask_bind, attempt, attempt, ask_bind]
    exact congrArg (ask q) (funext ih)

theorem attempt_query_bind {ε' : Type} (q : Q) (f : A q → Dialogue Q A ε β) :
    ((query q >>= f).attempt : Dialogue Q A ε' (Except ε β)) =
      query q >>= fun a => (f a).attempt := rfl

/-! ## Dialogues without a bound -/

/-- No loop of `p` can use up its bound. -/
def Total : Dialogue Q A ε α → Prop
  | done _ => True
  | fail _ => True
  | spent => False
  | ask _ k => ∀ a, Total (k a)

theorem Total.bind {p : Dialogue Q A ε α} {f : α → Dialogue Q A ε β} (hp : Total p)
    (hf : ∀ a, Total (f a)) : Total (p >>= f) := by
  induction p with
  | done a => exact hf a
  | fail e => exact trivial
  | spent => exact hp.elim
  | ask q k ih => exact fun a => ih a (hp a)

theorem total_query_bind {q : Q} {f : A q → Dialogue Q A ε α} (hf : ∀ a, Total (f a)) :
    Total (query q >>= f) := hf

theorem total_ofExcept (r : Except ε α) : Total (ofExcept r : Dialogue Q A ε α) := by
  cases r <;> exact trivial

theorem Total.attempt {p : Dialogue Q A ε α} {ε' : Type} (hp : Total p) :
    Total (p.attempt : Dialogue Q A ε' (Except ε α)) := by
  induction p with
  | done a => exact trivial
  | fail e => exact trivial
  | spent => exact hp.elim
  | ask q k ih => exact fun a => ih a (hp a)

theorem Total.run {p : Dialogue Q A ε α} (hp : Total p) (s : σ) :
    ∃ r, (run env p s).result = .ofExcept r := by
  induction p generalizing s with
  | done a => exact ⟨.ok a, rfl⟩
  | fail e => exact ⟨.error e, rfl⟩
  | spent => exact hp.elim
  | ask q k ih => exact ih _ (hp _) _

/-- What comes of a dialogue that neither raises nor uses up a bound. -/
def outcome : (p : Dialogue Q A Empty α) → Total p → σ → α
  | done a, _, _ => a
  | fail e, _, _ => e.elim
  | spent, hp, _ => hp.elim
  | ask q k, hp, s => outcome (k (env.answer q s).1) (hp _) (env.answer q s).2

theorem run_outcome (p : Dialogue Q A Empty α) (hp : Total p) (s : σ) :
    (run env p s).result = .returned (outcome env p hp s) := by
  induction p generalizing s with
  | done a => rfl
  | fail e => exact e.elim
  | spent => exact hp.elim
  | ask q k ih => exact ih _ (hp _) _

/-! ## Conversations

A conversation is what may be heard of a dialogue when nothing is assumed about the answers: any
prefix of its questions, each with any answer. A dialogue cut off in the middle is `unfinished`.
-/

inductive Plays : Dialogue Q A ε α → List (Event Q A) → Result ε α → Prop where
  | done (a : α) : Plays (.done a) [] (.returned a)
  | fail (e : ε) : Plays (.fail e) [] (.raised e)
  | cut (p : Dialogue Q A ε α) : Plays p [] .unfinished
  | ask (q : Q) (k : A q → Dialogue Q A ε α) (a : A q) (tr : List (Event Q A)) (r : Result ε α)
      (h : Plays (k a) tr r) : Plays (.ask q k) (⟨q, a⟩ :: tr) r

theorem Plays.bind {p : Dialogue Q A ε α} {f : α → Dialogue Q A ε β} {a : α}
    {tr tr' : List (Event Q A)} {r : Result ε β} (hp : Plays p tr (.returned a))
    (hf : Plays (f a) tr' r) : Plays (p >>= f) (tr ++ tr') r := by
  induction p generalizing tr with
  | done b =>
    cases hp
    exact hf
  | fail e => cases hp
  | spent => cases hp
  | ask q k ih =>
    cases hp with
    | ask _ _ b tr _ h => exact .ask q _ b _ _ (ih b h)

/-- A run is a conversation. -/
theorem plays_run (p : Dialogue Q A ε α) (s : σ) :
    Plays p (run env p s).events (run env p s).result := by
  induction p generalizing s with
  | done a => exact .done a
  | fail e => exact .fail e
  | spent => exact .cut _
  | ask q k ih => exact .ask q k _ _ _ (ih _ _)

/-- Whatever is heard of `p` satisfies `post`. -/
def Ensures (p : Dialogue Q A ε α) (post : List (Event Q A) → Result ε α → Prop) : Prop :=
  ∀ tr r, Plays p tr r → post tr r

theorem Ensures.mono {p : Dialogue Q A ε α} {post post' : List (Event Q A) → Result ε α → Prop}
    (h : Ensures p post) (hpost : ∀ tr r, post tr r → post' tr r) : Ensures p post' :=
  fun tr r hr => hpost tr r (h tr r hr)

theorem ensures_done {a : α} {post : List (Event Q A) → Result ε α → Prop}
    (hret : post [] (.returned a)) (hcut : post [] .unfinished) :
    Ensures (.done a : Dialogue Q A ε α) post := by
  intro tr r h
  cases h with
  | done => exact hret
  | cut => exact hcut

theorem ensures_fail {e : ε} {post : List (Event Q A) → Result ε α → Prop}
    (hraise : post [] (.raised e)) (hcut : post [] .unfinished) :
    Ensures (.fail e : Dialogue Q A ε α) post := by
  intro tr r h
  cases h with
  | fail => exact hraise
  | cut => exact hcut

theorem ensures_spent {post : List (Event Q A) → Result ε α → Prop}
    (hcut : post [] .unfinished) : Ensures (.spent : Dialogue Q A ε α) post := by
  intro tr r h
  cases h with
  | cut => exact hcut

theorem ensures_ask {q : Q} {k : A q → Dialogue Q A ε α}
    {post : List (Event Q A) → Result ε α → Prop} (hcut : post [] .unfinished)
    (hk : ∀ a, Ensures (k a) fun tr r => post (⟨q, a⟩ :: tr) r) : Ensures (.ask q k) post := by
  intro tr r h
  cases h with
  | cut => exact hcut
  | ask _ _ a tr' _ h' => exact hk a tr' r h'

/-- A conversation of a sequence is one of its first part, followed, if that part returned, by one
of the rest. -/
theorem Ensures.bind {p : Dialogue Q A ε α} {f : α → Dialogue Q A ε β}
    {mid : List (Event Q A) → Result ε α → Prop} {post : List (Event Q A) → Result ε β → Prop}
    (hp : Ensures p mid)
    (hret : ∀ tr a, mid tr (.returned a) → Ensures (f a) fun tr' r => post (tr ++ tr') r)
    (hraise : ∀ tr e, mid tr (.raised e) → post tr (.raised e))
    (hcut : ∀ tr, mid tr .unfinished → post tr .unfinished) : Ensures (p >>= f) post := by
  induction p generalizing mid post with
  | done a => exact hret [] a (hp _ _ (.done a))
  | fail e => exact ensures_fail (hraise [] e (hp _ _ (.fail e))) (hcut [] (hp _ _ (.cut _)))
  | spent => exact ensures_spent (hcut [] (hp _ _ (.cut _)))
  | ask q k ih =>
    refine ensures_ask (hcut [] (hp _ _ (.cut _))) ?_
    intro a
    refine @ih a (fun tr r => mid (⟨q, a⟩ :: tr) r) _ ?_ ?_ ?_ ?_
    · intro tr r h
      exact hp _ _ (.ask q k a tr r h)
    · exact fun tr b h => hret _ b h
    · exact fun tr e h => hraise _ e h
    · exact fun tr h => hcut _ h

theorem Ensures.handle {p : Dialogue Q A ε α} {h : ε → Option (Dialogue Q A ε α)}
    {mid post : List (Event Q A) → Result ε α → Prop} (hp : Ensures p mid)
    (hret : ∀ tr a, mid tr (.returned a) → post tr (.returned a))
    (hraise : ∀ tr e, mid tr (.raised e) →
      Ensures ((h e).getD (.fail e)) fun tr' r => post (tr ++ tr') r)
    (hcut : ∀ tr, mid tr .unfinished → post tr .unfinished) : Ensures (p.handle h) post := by
  induction p generalizing mid post with
  | done a => exact ensures_done (hret [] a (hp _ _ (.done a))) (hcut [] (hp _ _ (.cut _)))
  | fail e => exact hraise [] e (hp _ _ (.fail e))
  | spent => exact ensures_spent (hcut [] (hp _ _ (.cut _)))
  | ask q k ih =>
    refine ensures_ask (hcut [] (hp _ _ (.cut _))) ?_
    intro a
    refine @ih a (fun tr r => mid (⟨q, a⟩ :: tr) r) _ ?_ ?_ ?_ ?_
    · intro tr r hr
      exact hp _ _ (.ask q k a tr r hr)
    · exact fun tr b hb => hret _ b hb
    · exact fun tr e he => hraise _ e he
    · exact fun tr hc => hcut _ hc

theorem Ensures.attempt {ε' : Type} {p : Dialogue Q A ε α}
    {mid : List (Event Q A) → Result ε α → Prop}
    {post : List (Event Q A) → Result ε' (Except ε α) → Prop} (hp : Ensures p mid)
    (hret : ∀ tr a, mid tr (.returned a) → post tr (.returned (.ok a)))
    (hraise : ∀ tr e, mid tr (.raised e) → post tr (.returned (.error e)))
    (hcut : ∀ tr, mid tr .unfinished → post tr .unfinished) : Ensures p.attempt post := by
  induction p generalizing mid post with
  | done a => exact ensures_done (hret [] a (hp _ _ (.done a))) (hcut [] (hp _ _ (.cut _)))
  | fail e => exact ensures_done (hraise [] e (hp _ _ (.fail e))) (hcut [] (hp _ _ (.cut _)))
  | spent => exact ensures_spent (hcut [] (hp _ _ (.cut _)))
  | ask q k ih =>
    refine ensures_ask (hcut [] (hp _ _ (.cut _))) ?_
    intro a
    refine @ih a (fun tr r => mid (⟨q, a⟩ :: tr) r) _ ?_ ?_ ?_ ?_
    · intro tr r hr
      exact hp _ _ (.ask q k a tr r hr)
    · exact fun tr b hb => hret _ b hb
    · exact fun tr e he => hraise _ e he
    · exact fun tr hc => hcut _ hc

/-! ### Events of one kind -/

/-- Every event that may be heard of `p` is of the kind `ok`. -/
def Only (ok : Event Q A → Prop) (p : Dialogue Q A ε α) : Prop :=
  Ensures p fun tr _ => ∀ e ∈ tr, ok e

section Only

variable {ok : Event Q A → Prop}

theorem only_done (a : α) : Only ok (.done a : Dialogue Q A ε α) :=
  ensures_done (fun _ he => absurd he List.not_mem_nil) fun _ he => absurd he List.not_mem_nil

theorem only_fail (e : ε) : Only ok (.fail e : Dialogue Q A ε α) :=
  ensures_fail (fun _ he => absurd he List.not_mem_nil) fun _ he => absurd he List.not_mem_nil

theorem only_spent : Only ok (.spent : Dialogue Q A ε α) :=
  ensures_spent fun _ he => absurd he List.not_mem_nil

theorem only_ask {q : Q} {k : A q → Dialogue Q A ε α} (hq : ∀ a, ok ⟨q, a⟩)
    (hk : ∀ a, Only ok (k a)) : Only ok (.ask q k) := by
  refine ensures_ask (fun _ he => absurd he List.not_mem_nil) fun a => ?_
  refine (hk a).mono ?_
  intro tr _ htr e he
  rcases List.mem_cons.mp he with rfl | he
  · exact hq a
  · exact htr e he

theorem only_query_bind {q : Q} {f : A q → Dialogue Q A ε α} (hq : ∀ a, ok ⟨q, a⟩)
    (hf : ∀ a, Only ok (f a)) : Only ok (query q >>= f) := only_ask hq hf

theorem Only.bind {p : Dialogue Q A ε α} {f : α → Dialogue Q A ε β} (hp : Only ok p)
    (hf : ∀ a, Only ok (f a)) : Only ok (p >>= f) := by
  refine Ensures.bind hp ?_ (fun _ _ htr => htr) fun _ htr => htr
  intro tr a htr
  refine (hf a).mono ?_
  intro tr' _ htr' e he
  exact (List.mem_append.mp he).elim (htr e) (htr' e)

theorem Only.handle {p : Dialogue Q A ε α} {h : ε → Option (Dialogue Q A ε α)} (hp : Only ok p)
    (hh : ∀ e, Only ok ((h e).getD (.fail e))) : Only ok (p.handle h) := by
  refine Ensures.handle hp (fun _ _ htr => htr) ?_ fun _ htr => htr
  intro tr e htr
  refine (hh e).mono ?_
  intro tr' _ htr' e' he'
  exact (List.mem_append.mp he').elim (htr e') (htr' e')

theorem Only.events {p : Dialogue Q A ε α} (env : Environment Q A σ) (hp : Only ok p) (s : σ) :
    ∀ e ∈ (run env p s).events, ok e := hp _ _ (plays_run env p s)

/-- A run keeps what events of that kind keep. -/
theorem Only.run {p : Dialogue Q A ε α} (env : Environment Q A σ) {I : σ → Prop} (hp : Only ok p)
    (hI : ∀ q s, I s → ok ⟨q, (env.answer q s).1⟩ → I (env.answer q s).2) (s : σ) (hs : I s) :
    I (run env p s).final := by
  induction p generalizing s with
  | done a => exact hs
  | fail e => exact hs
  | spent => exact hs
  | ask q k ih =>
    have hq : ok ⟨q, (env.answer q s).1⟩ :=
      hp _ _ (.ask q k _ [] _ (.cut _)) _ List.mem_cons_self
    refine ih _ ?_ _ (hI q s hs hq)
    intro tr r htr e he
    exact hp _ _ (.ask q k _ tr r htr) e (List.mem_cons_of_mem _ he)

end Only

end Dialogue
