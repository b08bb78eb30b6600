import Sigil.Session.Nesting

/-! # Task contexts in concurrent flows

`_current_task` is a context variable: every thread and every `asyncio` task has a value of its own,
and begins with none or with its creator's. A `SigilTaskContext` is shared memory, and its token is
good in the flow that made it only. `flows_apart` says that flows that do not share their objects do
not see each other: each is where its own `with` statements have left it.
-/
set_option autoImplicit false

namespace Sigil.Session

open Dialogue (Environment)
open Blocks (Nest)
open Blocks.Nest (Restores)

variable {V X τ ι φ : Type}

/-! ## Flows -/

structure Flows (φ ι : Type) where
  /-- `_current_task`, in the context of each flow -/
  current : φ → Option ι
  objects : ι → SigilTaskContext
  /-- `_ctx_token`, with the flow in which it was made -/
  ctxToken : ι → Option (φ × Option ι)

/-- What a flow does to the variable. -/
inductive Act (ι τ : Type) where
  /-- it begins -/
  | born (inherited : Option ι)
  | enter (b : With ι τ)
  | exit (b : With ι τ)

def Act.object? : Act ι τ → Option ι
  | .born _ => none
  | .enter b => some b.task
  | .exit b => some b.task

namespace Flows

def start (task : ι → SigilTaskContext) : Flows φ ι := ⟨fun _ => none, task, fun _ => none⟩

variable [DecidableEq ι] [DecidableEq φ]

def setCurrent (s : Flows φ ι) (f : φ) (current : Option ι) : Flows φ ι :=
  { s with current := Function.update s.current f current }

def setToken (s : Flows φ ι) (i : ι) (token : Option (φ × Option ι)) : Flows φ ι :=
  { s with ctxToken := Function.update s.ctxToken i token }

/-- `self._ctx_token = _current_task.set(self)` -/
def set (s : Flows φ ι) (f : φ) (i : ι) : Flows φ ι :=
  (s.setCurrent f (some i)).setToken i (some (f, s.current f))

/-- The end of `__exit__`: a token made elsewhere is refused with a `ValueError`. -/
def reset (s : Flows φ ι) (f : φ) (i : ι) : Flows φ ι :=
  match s.ctxToken i with
  | none => s
  | some (maker, old) => if maker = f then (s.setCurrent f old).setToken i none else s

def withObject (s : Flows φ ι) (i : ι) (t : SigilTaskContext) : Flows φ ι :=
  { s with objects := Function.update s.objects i t }

def exit (s : Flows φ ι) (f : φ) (b : With ι τ) : Flows φ ι :=
  match b.flushAll with
  | .returned | .exception => s.reset f b.task
  | .baseException => s

section Steps

variable (env : Environment Question (Answer V X) τ) (h : Host) (client : ι → SigilClient)

def enter (s : Flows φ ι) (f : φ) (b : With ι τ) : Flows φ ι :=
  let t := s.objects b.task
  let (assigned, result) := t.entered env h (client b.task) b.world
  let s' := s.withObject b.task (t.assign assigned)
  match result with
  | .ok _ => s'.set f b.task
  | .error _ => s'

/-- One flow takes a step. A thread begins without a task, an `asyncio` task with its creator's. -/
inductive Step : Flows φ ι → φ → Act ι τ → Flows φ ι → Prop where
  | thread (s : Flows φ ι) (f : φ) : Step s f (.born none) (s.setCurrent f none)
  | created (s : Flows φ ι) (f creator : φ) :
      Step s f (.born (s.current creator)) (s.setCurrent f (s.current creator))
  | enter (s : Flows φ ι) (f : φ) (b : With ι τ) : Step s f (.enter b) (s.enter env h client f b)
  | exit (s : Flows φ ι) (f : φ) (b : With ι τ) : Step s f (.exit b) (s.exit f b)

/-- The flows take steps in any order. -/
inductive Runs : Flows φ ι → List (φ × Act ι τ) → Flows φ ι → Prop where
  | nil (s : Flows φ ι) : Runs s [] s
  | cons (s s' s'' : Flows φ ι) (f : φ) (a : Act ι τ) (tr : List (φ × Act ι τ))
      (ha : Step env h client s f a s') (htr : Runs s' tr s'') : Runs s ((f, a) :: tr) s''

end Steps

end Flows

/-! ## One flow alone -/

variable [DecidableEq ι]

section Alone

variable (env : Environment Question (Answer V X) τ) (h : Host) (client : ι → SigilClient)
  (task : ι → SigilTaskContext)

/-- A step of a flow, as if there were no other. -/
def Contexts.act (s : Contexts ι) : Act ι τ → Contexts ι
  | .born inherited => { s with current := inherited }
  | .enter b => (Contexts.enter env h client b s).2
  | .exit b => Contexts.exit b s

def Contexts.acts (s : Contexts ι) (as : List (Act ι τ)) : Contexts ι :=
  as.foldl (Contexts.act env h client) s

/-- The steps of `with` statements: what is refused has no body. -/
def stepsOf : Nest (With ι τ) → List (Act ι τ)
  | .done => []
  | .block b body rest =>
    if opens env h client task b then .enter b :: stepsOf body ++ .exit b :: stepsOf rest
    else .enter b :: stepsOf rest

theorem acts_append (s : Contexts ι) (as as' : List (Act ι τ)) :
    s.acts env h client (as ++ as') = (s.acts env h client as).acts env h client as' :=
  List.foldl_append

theorem acts_cons (s : Contexts ι) (a : Act ι τ) (as : List (Act ι τ)) :
    s.acts env h client (a :: as) = (s.act env h client a).acts env h client as := rfl

theorem acts_stepsOf (p : Nest (With ι τ)) (s : Contexts ι) (hs : AsMade task s) :
    s.acts env h client (stepsOf env h client task p) = p.run (contexts env h client) s := by
  refine (steady env h client task).induct (motive := fun p s =>
    s.acts env h client (stepsOf env h client task p) = p.run (contexts env h client) s)
    ?_ ?_ ?_ p s hs
  · intro s _
    rfl
  · intro b body rest s s' _ hopens henter ihrest
    have hact : s.act env h client (.enter b) = s' := congrArg Prod.snd henter
    rw [stepsOf, hopens, if_neg Bool.false_ne_true, acts_cons, hact, ihrest,
      Blocks.Nest.run_refused henter]
  · intro b body rest s s' _ hopens henter _ ihbody ihrest
    have hact : s.act env h client (.enter b) = s' := congrArg Prod.snd henter
    rw [stepsOf, hopens, if_pos rfl, List.cons_append, acts_cons, hact, acts_append, ihbody,
      acts_cons, Blocks.Nest.run_entered henter]
    exact ihrest

theorem act_asMade (s : Contexts ι) (a : Act ι τ) (hs : AsMade task s) :
    AsMade task (s.act env h client a) := by
  cases a with
  | born inherited => exact hs
  | enter b => exact (steady env h client task).enter b s hs
  | exit b => exact (steady env h client task).exit b s hs

theorem acts_asMade (as : List (Act ι τ)) (s : Contexts ι) (hs : AsMade task s) :
    AsMade task (s.acts env h client as) := by
  induction as generalizing s with
  | nil => exact hs
  | cons a as ih => exact ih (s.act env h client a) (act_asMade env h client task s a hs)

end Alone

/-! ## What a flow sees -/

variable [DecidableEq φ]

namespace Flows

/-- The variable of a flow, and the tokens that are good in it. -/
def view (s : Flows φ ι) (f : φ) : Contexts ι where
  current := s.current f
  objects := s.objects
  ctxToken i := (s.ctxToken i).bind fun token => if token.1 = f then some token.2 else none

/-- The same variable, and the same objects as far as the flow owns them. -/
structure Alike (owner : ι → φ) (f : φ) (s s' : Contexts ι) : Prop where
  current : s.current = s'.current
  objects : ∀ i, owner i = f → s.objects i = s'.objects i
  ctxToken : ∀ i, owner i = f → s.ctxToken i = s'.ctxToken i

/-- A flow enters and leaves its own objects only. -/
def KeepsTo (owner : ι → φ) (f : φ) (a : Act ι τ) : Prop := ∀ i, a.object? = some i → owner i = f

/-! ## Its own steps -/

omit [DecidableEq ι] in
theorem view_setCurrent (s : Flows φ ι) (f : φ) (current : Option ι) :
    (s.setCurrent f current).view f = { s.view f with current := current } := by
  have hcurrent : ((s.setCurrent f current).view f).current = current := by
    simp [view, setCurrent]
  exact congrArg (fun c => (⟨c, s.objects, (s.view f).ctxToken⟩ : Contexts ι)) hcurrent

theorem view_setToken (s : Flows φ ι) (f : φ) (i : ι) (old : Option (Option ι)) :
    (s.setToken i (old.map fun o => (f, o))).view f =
      { s.view f with ctxToken := Function.update (s.view f).ctxToken i old } := by
  have htoken : ((s.setToken i (old.map fun o => (f, o))).view f).ctxToken =
      Function.update (s.view f).ctxToken i old := by
    funext j
    by_cases hj : j = i
    · rw [hj, Function.update_self]
      cases old <;> simp [view, setToken]
    · rw [Function.update_of_ne hj]
      simp [view, setToken, Function.update_of_ne hj]
  exact congrArg (fun k => (⟨s.current f, s.objects, k⟩ : Contexts ι)) htoken

theorem view_set (s : Flows φ ι) (f : φ) (i : ι) : (s.set f i).view f = (s.view f).set i := by
  have htoken := view_setToken (s.setCurrent f (some i)) f i (some (s.current f))
  rw [view_setCurrent] at htoken
  exact htoken

theorem view_reset (s : Flows φ ι) (f : φ) (i : ι) :
    (s.reset f i).view f = (s.view f).reset i := by
  cases htoken : s.ctxToken i with
  | none =>
    have hview : (s.view f).ctxToken i = none := by simp [view, htoken]
    rw [Contexts.reset_of_none _ i hview, reset, htoken]
  | some token =>
    obtain ⟨maker, old⟩ := token
    by_cases hmaker : maker = f
    · have hview : (s.view f).ctxToken i = some old := by simp [view, htoken, hmaker]
      have hspent := view_setToken (s.setCurrent f old) f i none
      rw [view_setCurrent] at hspent
      rw [Contexts.reset_of_some _ i old hview, reset, htoken]
      simp only [hmaker, if_true]
      exact hspent
    · have hview : (s.view f).ctxToken i = none := by simp [view, htoken, hmaker]
      rw [Contexts.reset_of_none _ i hview, reset, htoken]
      simp only [hmaker, if_false]

theorem view_exit (s : Flows φ ι) (f : φ) (b : With ι τ) :
    (s.exit f b).view f = Contexts.exit b (s.view f) := by
  by_cases hflush : b.flushAll = .baseException
  · rw [Contexts.exit_interrupted b _ hflush, exit, hflush]
  · rw [Contexts.exit_reset b _ hflush, ← view_reset]
    cases hend : b.flushAll with
    | baseException => exact absurd hend hflush
    | returned => rw [exit, hend]
    | exception => rw [exit, hend]

section Entering

variable (env : Environment Question (Answer V X) τ) (h : Host) (client : ι → SigilClient)

variable (φ) in
/-- What entering does to a state is read from the object alone. -/
theorem enter_of_object (b : With ι τ) (t : SigilTaskContext) :
    ∃ (t' : SigilTaskContext) (opened : Bool),
      (∀ (s : Flows φ ι) (f : φ), s.objects b.task = t → s.enter env h client f b =
        if opened then (s.withObject b.task t').set f b.task else s.withObject b.task t') ∧
      ∀ c : Contexts ι, c.objects b.task = t → (Contexts.enter env h client b c).2 =
        if opened then (c.withObject b.task t').set b.task else c.withObject b.task t' := by
  refine ⟨t.assign (t.entered env h (client b.task) b.world).1,
    (t.entered env h (client b.task) b.world).2.isOk, ?_, ?_⟩
  · intro s f hs
    simp only [enter, hs]
    cases t.entered env h (client b.task) b.world with
    | mk assigned result => cases result <;> rfl
  · intro c hc
    simp only [Contexts.enter, hc]
    cases t.entered env h (client b.task) b.world with
    | mk assigned result => cases result <;> rfl

theorem view_enter (s : Flows φ ι) (f : φ) (b : With ι τ) :
    (s.enter env h client f b).view f = (Contexts.enter env h client b (s.view f)).2 := by
  obtain ⟨t', opened, hflow, halone⟩ :=
    enter_of_object φ env h client b (s.objects b.task)
  rw [hflow s f rfl, halone (s.view f) rfl]
  cases opened with
  | true => exact view_set (s.withObject b.task t') f b.task
  | false => rfl

/-- To a flow its own step is the one it would take alone. -/
theorem step_view (s s' : Flows φ ι) (f : φ) (a : Act ι τ) (hstep : Step env h client s f a s') :
    s'.view f = (s.view f).act env h client a := by
  cases hstep with
  | thread => exact view_setCurrent s f none
  | created creator => exact view_setCurrent s f (s.current creator)
  | enter b => exact view_enter env h client s f b
  | exit b => exact view_exit s f b

end Entering

/-! ## The steps of others -/

section Apart

variable (env : Environment Question (Answer V X) τ) (h : Host) (client : ι → SigilClient)
  {owner : ι → φ} {f g : φ}

omit [DecidableEq ι] [DecidableEq φ] in
theorem Alike.refl (c : Contexts ι) : Alike owner f c c := ⟨rfl, fun _ _ => rfl, fun _ _ => rfl⟩

omit [DecidableEq ι] [DecidableEq φ] in
theorem Alike.trans {c c' c'' : Contexts ι} (hc : Alike owner f c c') (hc' : Alike owner f c' c'') :
    Alike owner f c c'' where
  current := hc.current.trans hc'.current
  objects i hi := (hc.objects i hi).trans (hc'.objects i hi)
  ctxToken i hi := (hc.ctxToken i hi).trans (hc'.ctxToken i hi)

omit [DecidableEq ι] in
theorem alike_setCurrent (s : Flows φ ι) (hfg : f ≠ g) (current : Option ι) :
    Alike owner f ((s.setCurrent g current).view f) (s.view f) where
  current := by simp [view, setCurrent, Function.update_of_ne hfg]
  objects _ _ := rfl
  ctxToken _ _ := rfl

theorem alike_setToken (s : Flows φ ι) (i : ι) (hi : owner i ≠ f) (token : Option (φ × Option ι)) :
    Alike owner f ((s.setToken i token).view f) (s.view f) where
  current := rfl
  objects _ _ := rfl
  ctxToken j hj := by
    have hij : j ≠ i := fun heq => hi (heq ▸ hj)
    simp [view, setToken, Function.update_of_ne hij]

theorem alike_withObject (s : Flows φ ι) (i : ι) (hi : owner i ≠ f) (t : SigilTaskContext) :
    Alike owner f ((s.withObject i t).view f) (s.view f) where
  current := rfl
  objects j hj := by
    have hij : j ≠ i := fun heq => hi (heq ▸ hj)
    simp [view, withObject, Function.update_of_ne hij]
  ctxToken _ _ := rfl

theorem alike_set (s : Flows φ ι) (hfg : f ≠ g) (i : ι) (hi : owner i ≠ f) :
    Alike owner f ((s.set g i).view f) (s.view f) :=
  (alike_setToken _ i hi _).trans (alike_setCurrent s hfg (some i))

theorem alike_reset (s : Flows φ ι) (hfg : f ≠ g) (i : ι) (hi : owner i ≠ f) :
    Alike owner f ((s.reset g i).view f) (s.view f) := by
  unfold reset
  split
  · exact Alike.refl _
  · split
    · exact (alike_setToken _ i hi none).trans (alike_setCurrent s hfg _)
    · exact Alike.refl _

/-- A flow does not see what another does with its own objects. -/
theorem step_apart (s s' : Flows φ ι) (a : Act ι τ) (hfg : f ≠ g) (hkeeps : KeepsTo owner g a)
    (hstep : Step env h client s g a s') : Alike owner f (s'.view f) (s.view f) := by
  have hother : ∀ i, a.object? = some i → owner i ≠ f := by
    intro i hi howner
    exact hfg (howner.symm.trans (hkeeps i hi))
  cases hstep with
  | thread => exact alike_setCurrent s hfg none
  | created creator => exact alike_setCurrent s hfg (s.current creator)
  | enter b =>
    have hb := hother b.task rfl
    obtain ⟨t', opened, hflow, -⟩ :=
      enter_of_object φ env h client b (s.objects b.task)
    rw [hflow s g rfl]
    cases opened with
    | true => exact (alike_set _ hfg b.task hb).trans (alike_withObject s b.task hb t')
    | false => exact alike_withObject s b.task hb t'
  | exit b =>
    have hb := hother b.task rfl
    unfold exit
    cases b.flushAll with
    | baseException => exact Alike.refl _
    | returned => exact alike_reset s hfg b.task hb
    | exception => exact alike_reset s hfg b.task hb

omit [DecidableEq φ] in
theorem Alike.withObject {c c' : Contexts ι} (hc : Alike owner f c c') (i : ι)
    (t : SigilTaskContext) : Alike owner f (c.withObject i t) (c'.withObject i t) where
  current := hc.current
  objects j hj := by
    by_cases hij : j = i
    · simp [Contexts.withObject, hij]
    · simp [Contexts.withObject, Function.update_of_ne hij, hc.objects j hj]
  ctxToken := hc.ctxToken

omit [DecidableEq φ] in
theorem Alike.set {c c' : Contexts ι} (hc : Alike owner f c c') (i : ι) :
    Alike owner f (c.set i) (c'.set i) where
  current := rfl
  objects := hc.objects
  ctxToken j hj := by
    by_cases hij : j = i
    · rw [hij, Contexts.set_ctxToken, Contexts.set_ctxToken, hc.current]
    · rw [Contexts.set_ctxToken_ne _ _ _ (Ne.symm hij), Contexts.set_ctxToken_ne _ _ _ (Ne.symm hij)]
      exact hc.ctxToken j hj

omit [DecidableEq φ] in
theorem Alike.reset {c c' : Contexts ι} (hc : Alike owner f c c') (i : ι) (hi : owner i = f) :
    Alike owner f (c.reset i) (c'.reset i) := by
  have htoken := hc.ctxToken i hi
  cases hold : c'.ctxToken i with
  | none =>
    rw [hold] at htoken
    rw [Contexts.reset_of_none c i htoken, Contexts.reset_of_none c' i hold]
    exact hc
  | some old =>
    rw [hold] at htoken
    rw [Contexts.reset_of_some c i old htoken, Contexts.reset_of_some c' i old hold]
    refine ⟨rfl, hc.objects, ?_⟩
    intro j hj
    by_cases hij : j = i
    · simp [hij]
    · simp [Function.update_of_ne hij, hc.ctxToken j hj]

/-- What a flow does with its own objects it reads from them. -/
theorem Alike.act {c c' : Contexts ι} (hc : Alike owner f c c') (a : Act ι τ)
    (hkeeps : KeepsTo owner f a) :
    Alike owner f (c.act env h client a) (c'.act env h client a) := by
  cases a with
  | born inherited => exact ⟨rfl, hc.objects, hc.ctxToken⟩
  | enter b =>
    have hb := hkeeps b.task rfl
    obtain ⟨t', opened, -, halone⟩ :=
      enter_of_object φ env h client b (c'.objects b.task)
    have hleft : c.act env h client (.enter b) = _ := halone c (hc.objects b.task hb)
    have hright : c'.act env h client (.enter b) = _ := halone c' rfl
    rw [hleft, hright]
    cases opened with
    | true => exact (hc.withObject b.task t').set b.task
    | false => exact hc.withObject b.task t'
  | exit b =>
    have hb := hkeeps b.task rfl
    by_cases hflush : b.flushAll = .baseException
    · have hleft : c.act env h client (.exit b) = c := Contexts.exit_interrupted b c hflush
      have hright : c'.act env h client (.exit b) = c' := Contexts.exit_interrupted b c' hflush
      rw [hleft, hright]
      exact hc
    · have hleft : c.act env h client (.exit b) = c.reset b.task := Contexts.exit_reset b c hflush
      have hright : c'.act env h client (.exit b) = c'.reset b.task :=
        Contexts.exit_reset b c' hflush
      rw [hleft, hright]
      exact hc.reset b.task hb

/-! ## Runs -/

/-- What one flow does in a run. -/
def own (f : φ) (tr : List (φ × Act ι τ)) : List (Act ι τ) :=
  tr.filterMap fun e => if e.1 = f then some e.2 else none

theorem runs_view (s s' : Flows φ ι) (tr : List (φ × Act ι τ)) (hrun : Runs env h client s tr s')
    (hkeeps : ∀ e ∈ tr, KeepsTo owner e.1 e.2) (c : Contexts ι) (hc : Alike owner f (s.view f) c) :
    Alike owner f (s'.view f) (c.acts env h client (own f tr)) := by
  induction hrun generalizing c with
  | nil s => exact hc
  | cons s s₁ s' g a tr ha _ ih =>
    have hrest : ∀ e ∈ tr, KeepsTo owner e.1 e.2 :=
      fun e he => hkeeps e (List.mem_cons_of_mem _ he)
    have hthis : KeepsTo owner g a := hkeeps (g, a) List.mem_cons_self
    by_cases hfg : g = f
    · subst hfg
      have hown : own g ((g, a) :: tr) = a :: own g tr := by simp [own]
      rw [hown, acts_cons]
      refine ih hrest _ ?_
      rw [step_view env h client s s₁ g a ha]
      exact hc.act env h client a hthis
    · have hown : own f ((g, a) :: tr) = own f tr := by simp [own, hfg]
      rw [hown]
      exact ih hrest c ((step_apart env h client s s₁ a (Ne.symm hfg) hthis ha).trans hc)

end Apart

end Flows

section Theorem

variable (env : Environment Question (Answer V X) τ) (h : Host) (client : ι → SigilClient)
  (task : ι → SigilTaskContext)

/-- Inside a block, with the blocks in it left again, its object is current. -/
theorem acts_inside (b : With ι τ) (body : Nest (With ι τ)) (c : Contexts ι)
    (hc : AsMade task c) (hopens : opens env h client task b = true)
    (honce : OnceOpen env h client task body) :
    (c.acts env h client (.enter b :: stepsOf env h client task body)).current = some b.task := by
  obtain ⟨t, ht⟩ := enter_opened env h client task b c hc hopens
  have henter : c.act env h client (.enter b) = (c.withObject b.task t).set b.task :=
    congrArg Prod.snd ht
  have hmade := act_asMade env h client task c (.enter b) hc
  rw [acts_cons, acts_stepsOf env h client task body _ hmade]
  have hrestores := restores_of_onceOpen env h client task body _ hmade honce 0
  exact hrestores.run.trans (congrArg Contexts.current henter)

/-- **Flows keep apart.** However threads and `asyncio` tasks take turns, if none enters or leaves
another's task contexts: each is where its own steps alone would have left it. So, where no object is
entered again while it is open and no flush is interrupted: while the last block it has entered and
not left is one of its tasks, this is the task its calls are made in, and when it has left all its
blocks it is back at what it began with. -/
theorem flows_apart (owner : ι → φ) (tr : List (φ × Act ι τ)) (s : Flows φ ι)
    (hrun : Flows.Runs env h client (Flows.start task) tr s)
    (hkeeps : ∀ e ∈ tr, Flows.KeepsTo owner e.1 e.2) (f : φ) :
    Flows.Alike owner f (s.view f) ((start task).acts env h client (Flows.own f tr)) ∧
    (∀ (before : List (Act ι τ)) (b : With ι τ) (body : Nest (With ι τ)),
      Flows.own f tr = before ++ .enter b :: stepsOf env h client task body →
      opens env h client task b = true → OnceOpen env h client task body →
      s.current f = some b.task) ∧
    ∀ (inherited : Option ι) (p : Nest (With ι τ)),
      Flows.own f tr = .born inherited :: stepsOf env h client task p →
      OnceOpen env h client task p → s.current f = inherited := by
  have hstart : AsMade task (start task) := fun i => rfl
  have hbegin : Flows.Alike owner f ((Flows.start task).view f) (start task) := .refl _
  have halike := Flows.runs_view env h client (Flows.start task) s tr hrun hkeeps (start task) hbegin
  refine ⟨halike, ?_, ?_⟩
  · intro before b body hown hopens honce
    have hbefore := acts_asMade env h client task before (start task) hstart
    rw [hown, acts_append] at halike
    exact halike.current.trans (acts_inside env h client task b body _ hbefore hopens honce)
  · intro inherited p hown honce
    have hborn := act_asMade env h client task (start task) (.born inherited) hstart
    rw [hown, acts_cons, acts_stepsOf env h client task p _ hborn] at halike
    exact halike.current.trans (restores_of_onceOpen env h client task p _ hborn honce 0).run

end Theorem

/-- `with t: …` in one thread, while another is in a task of its own. -/
def twoThreads : List (Bool × Act Bool Unit) :=
  [(false, .born none), (false, .enter ⟨false, (), .returned⟩), (true, .born none),
    (true, .enter ⟨true, (), .returned⟩), (false, .exit ⟨false, (), .returned⟩)]

theorem flows_apart_two : ∃ s : Flows Bool Bool,
    Flows.Runs granting Audit.plainHost (fun _ => Audit.plainClient)
      (Flows.start fun _ => plainTask) twoThreads s ∧
    s.current true = some true ∧ s.current false = none := by
  have hopens : ∀ i : Bool, opens granting Audit.plainHost (fun _ => Audit.plainClient)
      (fun _ => plainTask) ⟨i, (), .returned⟩ = true := by decide +kernel
  have hrun : ∃ s : Flows Bool Bool, Flows.Runs granting Audit.plainHost
      (fun _ => Audit.plainClient) (Flows.start fun _ => plainTask) twoThreads s := by
    exact ⟨_, .cons _ _ _ _ _ _ (.thread _ _) (.cons _ _ _ _ _ _ (.enter _ _ _)
      (.cons _ _ _ _ _ _ (.thread _ _) (.cons _ _ _ _ _ _ (.enter _ _ _)
        (.cons _ _ _ _ _ _ (.exit _ _ _) (.nil _)))))⟩
  obtain ⟨s, hrun⟩ := hrun
  have hkeeps : ∀ e ∈ twoThreads, Flows.KeepsTo id e.1 e.2 := by
    intro e he i hi
    simp only [twoThreads, List.mem_cons, List.not_mem_nil, or_false] at he
    obtain rfl | rfl | rfl | rfl | rfl := he <;> cases hi <;> rfl
  have hapart := flows_apart granting Audit.plainHost (fun _ => Audit.plainClient)
    (fun _ => plainTask) id twoThreads s hrun hkeeps
  refine ⟨s, hrun, ?_, ?_⟩
  · exact (hapart true).2.1 [.born none] ⟨true, (), .returned⟩ .done rfl (hopens true) trivial
  · refine (hapart false).2.2 none (.block ⟨false, (), .returned⟩ .done .done) ?_ ?_
    · rw [stepsOf, hopens false]
      rfl
    · refine ⟨fun _ => ⟨⟨?_, ?_⟩, trivial⟩, trivial⟩
      · exact fun hflush => by cases hflush
      · exact fun hany => hany

end Sigil.Session
