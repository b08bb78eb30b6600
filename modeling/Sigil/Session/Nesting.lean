import Sigil.Audit.Flusher
import Sigil.Gate.Script
import Sigil.Library.Blocks
import Mathlib.Logic.Function.Basic

/-! # Task contexts within task contexts

`with` blocks over task contexts follow each other and lie within each other in any way. An object
keeps one token to restore what it replaced; `restored_iff` says exactly when one is enough.
-/
set_option autoImplicit false

namespace Sigil

open Dialogue (attempt query Total Environment outcome run)

variable {V X τ ι : Type}

/-! ## Entering, with what is assigned on the way -/

/-- What `__enter__` assigns to its object. -/
structure Assigned where
  taskId : String
  biscuitToken : Option PyVal
  effectiveTools : Option (List String)

namespace SigilTaskContext

def assign (t : SigilTaskContext) (a : Assigned) : SigilTaskContext :=
  { t with
    taskId := some a.taskId, biscuitToken := a.biscuitToken.getD t.biscuitToken,
    effectiveTools := a.effectiveTools.getD t.effectiveTools }

/-- What `__init__` sets for good. -/
def made (t : SigilTaskContext) : List String × Option String × Option String × ℤ :=
  (t.toolAllowlist, t.agentIdOverride, t.serviceAccountIdOverride, t.ttlSeconds)

theorem assign_made (t : SigilTaskContext) (a : Assigned) : (t.assign a).made = t.made := rfl

/-- `__enter__`, up to making the context current, with what it has assigned when it raises. -/
def entry (h : Host) (c : SigilClient) (t : SigilTaskContext) :
    Dialogue Question (Answer V X) Empty (Assigned × Except (Exc X) Unit) := do
  let taskId ← query Question.uuid4
  let answer : Except (Exc X) PyVal ← attempt (c.issueToken (issuedAgentId c t)
    (strOr t.serviceAccountIdOverride c.serviceAccountId) taskId t.toolAllowlist t.ttlSeconds none)
  match answer with
  | .error e => pure (⟨taskId, none, none⟩, .error e)
  | .ok resp =>
    match resp.getItem "biscuit_token" with
    | .error e => pure (⟨taskId, none, none⟩, .error (.py e))
    | .ok token =>
      if c.biscuitKeyring.entries.isEmpty then
        pure (⟨taskId, some token, some t.toolAllowlist⟩, .ok ())
      else do
        let now ← query Question.utcNow
        match verifyToken h token c.biscuitKeyring (orNone c.activeKid) none none now with
        | .error e => pure (⟨taskId, some token, none⟩, .error (.py e))
        | .ok result =>
          pure (⟨taskId, some token, if result.ok then some result.effectiveTools else none⟩, .ok ())

/-- Entering is what `enter` says, and more is known of it when it raises. -/
theorem attempt_enter (h : Host) (c : SigilClient) (t : SigilTaskContext) :
    ((t.enter h c : Call V X SigilTaskContext).attempt : Dialogue Question (Answer V X) Empty _) =
      t.entry h c >>= fun r => pure (r.2.map fun _ => t.assign r.1) := by
  rw [enter, entry, Dialogue.attempt_query_bind, Dialogue.bind_assoc]
  refine congrArg (Dialogue.query Question.uuid4 >>= ·) (funext fun taskId => ?_)
  rw [Dialogue.attempt_bind, Dialogue.bind_assoc]
  refine congrArg (Dialogue.attempt _ >>= ·) (funext fun answer => ?_)
  cases answer with
  | error e => rfl
  | ok resp =>
    dsimp only
    cases resp.getItem "biscuit_token" with
    | error e => rfl
    | ok token =>
      dsimp only [liftPy]
      rw [Dialogue.done_bind]
      cases c.biscuitKeyring.entries.isEmpty with
      | true => rfl
      | false =>
        rw [if_neg Bool.false_ne_true, if_neg Bool.false_ne_true, Dialogue.attempt_query_bind,
          Dialogue.bind_assoc]
        refine congrArg (Dialogue.query Question.utcNow >>= ·) (funext fun now => ?_)
        cases verifyToken h token c.biscuitKeyring (orNone c.activeKid) none none now with
        | error e => rfl
        | ok result =>
          dsimp only [liftPy]
          rw [Dialogue.done_bind, Dialogue.pure_eq, Dialogue.pure_eq]
          cases result.ok with
          | true => rfl
          | false => rfl

/-- What an earlier entry has assigned does not matter. -/
theorem entry_of_made (h : Host) (c : SigilClient) (t t' : SigilTaskContext)
    (hmade : t.made = t'.made) :
    (t.entry h c : Dialogue Question (Answer V X) Empty _) = t'.entry h c := by
  cases t
  cases t'
  cases hmade
  rfl

theorem entry_total (h : Host) (c : SigilClient) (t : SigilTaskContext) :
    Total (t.entry h c : Dialogue Question (Answer V X) Empty _) := by
  refine Dialogue.total_query_bind fun taskId => ?_
  refine Total.bind (Total.attempt (Dialogue.total_query_bind fun _ => Dialogue.total_ofExcept _)) ?_
  intro answer
  cases answer with
  | error e => exact trivial
  | ok resp =>
    dsimp only
    cases resp.getItem "biscuit_token" with
    | error e => exact trivial
    | ok token =>
      cases c.biscuitKeyring.entries.isEmpty with
      | true => exact trivial
      | false =>
        refine Dialogue.total_query_bind fun now => ?_
        cases verifyToken h token c.biscuitKeyring (orNone c.activeKid) none none now <;>
          exact trivial

/-- What comes of entering in a world. -/
def entered (env : Environment Question (Answer V X) τ) (h : Host) (c : SigilClient)
    (t : SigilTaskContext) (world : τ) : Assigned × Except (Exc X) Unit :=
  outcome env (t.entry h c) (entry_total h c t) world

theorem entered_of_made (env : Environment Question (Answer V X) τ) (h : Host) (c : SigilClient)
    (t t' : SigilTaskContext) (hmade : t.made = t'.made) (world : τ) :
    t.entered env h c world = t'.entered env h c world := by
  have hentry := entry_of_made h c t t' hmade (V := V) (X := X)
  unfold entered
  congr 1

theorem enter_result (env : Environment Question (Answer V X) τ) (h : Host) (c : SigilClient)
    (t : SigilTaskContext) (world : τ) : (run env (t.enter h c) world).result =
      Dialogue.Result.ofExcept
        ((t.entered env h c world).2.map fun _ => t.assign (t.entered env h c world).1) := by
  have hattempt : (run env ((t.enter h c).attempt : Dialogue Question (Answer V X) Empty _)
      world).result = .returned
        ((t.entered env h c world).2.map fun _ => t.assign (t.entered env h c world).1) := by
    rw [attempt_enter, Dialogue.run_bind_returned env _ _ _ _
      (Dialogue.run_outcome env (t.entry h c) (entry_total h c t) world)]
    rfl
  rw [Dialogue.run_attempt] at hattempt
  cases hresult : (run env (t.enter h c) world).result with
  | returned a =>
    rw [hresult] at hattempt
    rw [← Dialogue.Result.returned.inj hattempt]
    rfl
  | raised e =>
    rw [hresult] at hattempt
    rw [← Dialogue.Result.returned.inj hattempt]
    rfl
  | unfinished =>
    rw [hresult] at hattempt
    cases hattempt

end SigilTaskContext

namespace Session

open Blocks (Discipline Nest Visit)
open Blocks.Nest (Steady Restores)
open Gate (Decorator Tool wrapper)

/-! ## The context variable -/

/-- How `flush_all` ends: by itself, in an `Exception`, or in another `BaseException`. -/
inductive FlushEnd where
  | returned
  | exception
  | baseException
  deriving DecidableEq

/-- `with task: …`, the world in which it is entered, and the end of its last flush. -/
structure With (ι τ : Type) where
  task : ι
  world : τ
  flushAll : FlushEnd

structure Contexts (ι : Type) where
  /-- `_current_task` -/
  current : Option ι
  objects : ι → SigilTaskContext
  /-- `_ctx_token`. Of a token only what it restores is kept: it is dropped when it is used, so none
  is used twice. -/
  ctxToken : ι → Option (Option ι)

/-- Before any `with` statement. -/
def start (task : ι → SigilTaskContext) : Contexts ι := ⟨none, task, fun _ => none⟩

/-- Is there no exception when the object, as it was made, is entered? -/
def opens (env : Environment Question (Answer V X) τ) (h : Host) (client : ι → SigilClient)
    (task : ι → SigilTaskContext) (b : With ι τ) : Bool :=
  match (run env ((task b.task).enter h (client b.task)) b.world).result with
  | .returned _ => true
  | _ => false

theorem opens_eq (env : Environment Question (Answer V X) τ) (h : Host) (client : ι → SigilClient)
    (task : ι → SigilTaskContext) (b : With ι τ) : opens env h client task b =
      ((task b.task).entered env h (client b.task) b.world).2.isOk := by
  unfold opens
  rw [SigilTaskContext.enter_result]
  cases ((task b.task).entered env h (client b.task) b.world).2 <;> rfl

/-- Every instrumented function refuses to be called. -/
def Refuses (h : Host) (client : ι → SigilClient) (s : Contexts ι) : Prop :=
  ∀ (d : Decorator) (mode : Mode) (tool : Tool) (call : CallArgs) (fuel : ℕ), ∃ e : Denied,
    (wrapper d mode h (s.current.map fun i => (client i, s.objects i)) tool call fuel : Call V X V) =
      .fail (.denied e) ∧ e.deniedReason = .str "no_task"

theorem refuses_of_none (h : Host) (client : ι → SigilClient) (s : Contexts ι) (hs : s.current = none) :
    Refuses h client s (V := V) (X := X) := by
  intro d mode tool call fuel
  rw [hs]
  cases d <;> cases mode <;> exact ⟨_, rfl, rfl⟩

variable [DecidableEq ι]

namespace Contexts

/-- `self._ctx_token = _current_task.set(self)` -/
def set (s : Contexts ι) (i : ι) : Contexts ι :=
  { s with current := some i, ctxToken := Function.update s.ctxToken i (some s.current) }

/-- The end of `__exit__`. -/
def reset (s : Contexts ι) (i : ι) : Contexts ι :=
  match s.ctxToken i with
  | none => s
  | some old => { s with current := old, ctxToken := Function.update s.ctxToken i none }

def withObject (s : Contexts ι) (i : ι) (t : SigilTaskContext) : Contexts ι :=
  { s with objects := Function.update s.objects i t }

theorem withObject_ctxToken (s : Contexts ι) (i : ι) (t : SigilTaskContext) :
    (s.withObject i t).ctxToken = s.ctxToken := rfl

theorem set_ctxToken (s : Contexts ι) (i : ι) : (s.set i).ctxToken i = some s.current :=
  Function.update_self i _ _

theorem set_ctxToken_ne (s : Contexts ι) (i j : ι) (hij : i ≠ j) :
    (s.set i).ctxToken j = s.ctxToken j := Function.update_of_ne (Ne.symm hij) _ _

theorem reset_of_none (s : Contexts ι) (i : ι) (hi : s.ctxToken i = none) : s.reset i = s := by
  rw [reset, hi]

theorem reset_of_some (s : Contexts ι) (i : ι) (old : Option ι) (hi : s.ctxToken i = some old) :
    s.reset i = { s with current := old, ctxToken := Function.update s.ctxToken i none } := by
  rw [reset, hi]

theorem reset_ctxToken (s : Contexts ι) (i : ι) : (s.reset i).ctxToken i = none := by
  cases hi : s.ctxToken i with
  | none => rw [reset_of_none s i hi, hi]
  | some old =>
    rw [reset_of_some s i old hi]
    exact Function.update_self i _ _

theorem reset_ctxToken_ne (s : Contexts ι) (i j : ι) (hij : i ≠ j) :
    (s.reset i).ctxToken j = s.ctxToken j := by
  cases hi : s.ctxToken i with
  | none => rw [reset_of_none s i hi]
  | some old =>
    rw [reset_of_some s i old hi]
    exact Function.update_of_ne (Ne.symm hij) _ _

theorem reset_objects (s : Contexts ι) (i : ι) : (s.reset i).objects = s.objects := by
  cases hi : s.ctxToken i with
  | none => rw [reset_of_none s i hi]
  | some old => rw [reset_of_some s i old hi]

/-- `__exit__` -/
def exit (b : With ι τ) (s : Contexts ι) : Contexts ι :=
  match b.flushAll with
  | .returned | .exception => s.reset b.task
  -- not caught by `except Exception`
  | .baseException => s

theorem exit_interrupted (b : With ι τ) (s : Contexts ι) (hb : b.flushAll = .baseException) :
    exit b s = s := by rw [exit, hb]

theorem exit_reset (b : With ι τ) (s : Contexts ι) (hb : b.flushAll ≠ .baseException) :
    exit b s = s.reset b.task := by
  cases hflush : b.flushAll with
  | baseException => exact absurd hflush hb
  | returned => rw [exit, hflush]
  | exception => rw [exit, hflush]

theorem exit_ctxToken_ne (b : With ι τ) (s : Contexts ι) (j : ι) (hj : b.task ≠ j) :
    (exit b s).ctxToken j = s.ctxToken j := by
  by_cases hb : b.flushAll = .baseException
  · rw [exit_interrupted b s hb]
  · rw [exit_reset b s hb, reset_ctxToken_ne s b.task j hj]

theorem exit_objects (b : With ι τ) (s : Contexts ι) : (exit b s).objects = s.objects := by
  by_cases hb : b.flushAll = .baseException
  · rw [exit_interrupted b s hb]
  · rw [exit_reset b s hb, reset_objects]

end Contexts

section Blocks

variable (env : Environment Question (Answer V X) τ) (h : Host) (client : ι → SigilClient)
  (task : ι → SigilTaskContext)

/-- `__enter__` -/
def Contexts.enter (b : With ι τ) (s : Contexts ι) : Bool × Contexts ι :=
  let t := s.objects b.task
  let (assigned, result) := t.entered env h (client b.task) b.world
  let s' := s.withObject b.task (t.assign assigned)
  match result with
  | .ok _ => (true, s'.set b.task)
  | .error _ => (false, s')

def contexts : Discipline (With ι τ) (Contexts ι) := ⟨Contexts.enter env h client, Contexts.exit⟩

/-- The objects are as they were made, but for what has been assigned since. -/
def AsMade (s : Contexts ι) : Prop := ∀ i, (s.objects i).made = (task i).made

/-! ## Entering and leaving one block -/

/-- `__enter__` makes the context current if it does not raise, and leaves the variable alone if it
does. -/
theorem enter_cases (b : With ι τ) (s : Contexts ι) (hs : AsMade task s) :
    ∃ t : SigilTaskContext, t.made = (task b.task).made ∧ (contexts env h client).enter b s =
      match opens env h client task b with
      | true => (true, (s.withObject b.task t).set b.task)
      | false => (false, s.withObject b.task t) := by
  have hentered := SigilTaskContext.entered_of_made env h (client b.task) _ _ (hs b.task) b.world
  rw [opens_eq]
  simp only [contexts, Contexts.enter, hentered]
  cases (task b.task).entered env h (client b.task) b.world with
  | mk assigned result =>
    have hmade := SigilTaskContext.assign_made (s.objects b.task) assigned
    refine ⟨(s.objects b.task).assign assigned, hmade.trans (hs b.task), ?_⟩
    cases result with
    | ok u => rfl
    | error e => rfl

theorem enter_opened (b : With ι τ) (s : Contexts ι) (hs : AsMade task s)
    (hopens : opens env h client task b = true) : ∃ t : SigilTaskContext,
      (contexts env h client).enter b s = (true, (s.withObject b.task t).set b.task) := by
  obtain ⟨t, -, ht⟩ := enter_cases env h client task b s hs
  rw [hopens] at ht
  exact ⟨t, ht⟩

theorem enter_refused (b : With ι τ) (s : Contexts ι) (hs : AsMade task s)
    (hopens : opens env h client task b = false) : ∃ t : SigilTaskContext,
      (contexts env h client).enter b s = (false, s.withObject b.task t) := by
  obtain ⟨t, -, ht⟩ := enter_cases env h client task b s hs
  rw [hopens] at ht
  exact ⟨t, ht⟩

theorem steady : Steady (contexts env h client) (AsMade task) (opens env h client task) where
  opens b s hs := by
    obtain ⟨t, -, ht⟩ := enter_cases env h client task b s hs
    rw [ht]
    cases opens env h client task b <;> rfl
  enter b s hs := by
    obtain ⟨t, hmade, ht⟩ := enter_cases env h client task b s hs
    have hobjects : ((contexts env h client).enter b s).2.objects =
        Function.update s.objects b.task t := by
      rw [ht]
      cases opens env h client task b <;> rfl
    intro i
    rw [hobjects]
    by_cases hi : i = b.task
    · rw [hi, Function.update_self, hmade]
    · rw [Function.update_of_ne hi, hs i]
  exit b s hs := by
    intro i
    rw [show (contexts env h client).exit b s = Contexts.exit b s from rfl, Contexts.exit_objects]
    exact hs i

/-! ## One token for each object -/

/-- The block is of the object. -/
def Of (i : ι) (b : With ι τ) : Prop := b.task = i

/-- The token of an object that is not entered is left alone. -/
theorem run_ctxToken (p : Nest (With ι τ)) (s : Contexts ι) (hs : AsMade task s) (i : ι)
    (hp : ¬ p.Any (opens env h client task) (Of i)) :
    (p.run (contexts env h client) s).ctxToken i = s.ctxToken i := by
  refine (steady env h client task).frame (fun s => s.ctxToken i) (Of i) ?_ ?_ ?_ p s hs hp
  · intro b s hs hopens
    obtain ⟨t, ht⟩ := enter_refused env h client task b s hs hopens
    rw [ht, Contexts.withObject_ctxToken]
  · intro b s hs hopens hb
    obtain ⟨t, ht⟩ := enter_opened env h client task b s hs hopens
    rw [ht, Contexts.set_ctxToken_ne _ _ _ hb, Contexts.withObject_ctxToken]
  · exact fun b s hb => Contexts.exit_ctxToken_ne b s i hb

theorem entered_current (b : With ι τ) (s s' : Contexts ι) (hs : AsMade task s)
    (henter : (contexts env h client).enter b s = (true, s')) :
    s'.current = some b.task ∧ s'.ctxToken b.task = some s.current := by
  have hopens := (steady env h client task).opens b s hs
  rw [henter] at hopens
  obtain ⟨t, ht⟩ := enter_opened env h client task b s hs hopens.symm
  rw [henter] at ht
  cases ht
  exact ⟨rfl, Contexts.set_ctxToken _ _⟩

theorem refused_current (b : With ι τ) (s s' : Contexts ι) (hs : AsMade task s)
    (henter : (contexts env h client).enter b s = (false, s')) : s'.current = s.current := by
  have hopens := (steady env h client task).opens b s hs
  rw [henter] at hopens
  obtain ⟨t, ht⟩ := enter_refused env h client task b s hs hopens.symm
  rw [henter] at ht
  cases ht
  rfl

/-! ## When one token is enough -/

/-- No flush is interrupted, and no object is entered again while it is open. -/
def OnceOpen (p : Nest (With ι τ)) : Prop :=
  p.Each (opens env h client task) fun b body =>
    b.flushAll ≠ .baseException ∧ ¬ body.Any (opens env h client task) (Of b.task)

theorem restores_of_onceOpen (p : Nest (With ι τ)) (s : Contexts ι) (hs : AsMade task s)
    (hp : OnceOpen env h client task p) (depth : ℕ) :
    Restores (contexts env h client) Contexts.current p depth s := by
  refine (steady env h client task).induct (motive := fun p s => OnceOpen env h client task p →
    ∀ depth, Restores (contexts env h client) Contexts.current p depth s) ?_ ?_ ?_ p s hs hp depth
  · exact fun s _ _ depth => Blocks.Nest.restores_done
  · intro b body rest s s' hs hopens henter ihrest hp depth
    rw [Blocks.Nest.restores_refused henter]
    exact ⟨refused_current env h client task b s s' hs henter, ihrest hp.2 depth⟩
  · intro b body rest s s' hs hopens henter hs' ihbody ihrest hp depth
    obtain ⟨⟨hflush, hagain⟩, hbody⟩ := hp.1 hopens
    obtain ⟨-, htoken⟩ := entered_current env h client task b s s' hs henter
    have hkept := run_ctxToken env h client task body s' hs' b.task hagain
    rw [htoken] at hkept
    rw [Blocks.Nest.restores_entered henter]
    refine ⟨ihbody hbody (depth + 1), ?_, ihrest hp.2 depth⟩
    rw [show (contexts env h client).exit b = Contexts.exit b from rfl,
      Contexts.exit_reset b _ hflush, Contexts.reset_of_some _ _ _ hkept]

/-! ## When it is not -/

/-- The token of an object that has been entered again: spent, or of no use. -/
def Lost (i : ι) (s : Contexts ι) : Prop := s.ctxToken i = none ∨ s.ctxToken i = some (some i)

/-- Leaving an object whose token is lost leaves it current. -/
theorem exit_lost (b : With ι τ) (s : Contexts ι) (hcurrent : s.current = some b.task)
    (hlost : Lost b.task s) : (Contexts.exit b s).current = some b.task := by
  by_cases hflush : b.flushAll = .baseException
  · rw [Contexts.exit_interrupted b s hflush, hcurrent]
  · rw [Contexts.exit_reset b s hflush]
    rcases hlost with hnone | hsome
    · rw [Contexts.reset_of_none s b.task hnone, hcurrent]
    · rw [Contexts.reset_of_some s b.task _ hsome]

/-- A block that restores what was current leaves its object without a token of use. -/
theorem lost_of_block (b : With ι τ) (s : Contexts ι) (old : Option ι)
    (hcurrent : s.current = some b.task)
    (htoken : s.ctxToken b.task = some old ∨ Lost b.task s)
    (hblock : (Contexts.exit b s).current = old) : Lost b.task (Contexts.exit b s) := by
  by_cases hflush : b.flushAll = .baseException
  · rw [Contexts.exit_interrupted b s hflush] at hblock ⊢
    rcases htoken with hkept | hlost
    · right
      rw [hkept, ← hblock, hcurrent]
    · exact hlost
  · left
    rw [Contexts.exit_reset b s hflush, Contexts.reset_ctxToken]

/-- So an object that is entered, or entered again inside, loses its token. -/
theorem lost_of_entered (b : With ι τ) (body : Nest (With ι τ)) (s s' : Contexts ι)
    (hs : AsMade task s) (hs' : AsMade task s')
    (henter : (contexts env h client).enter b s = (true, s'))
    (hrun : (body.run (contexts env h client) s').current = s'.current)
    (hblock : (Contexts.exit b (body.run (contexts env h client) s')).current = s.current) (i : ι)
    (hi : Of i b ∨ body.Any (opens env h client task) (Of i))
    (hbody : body.Any (opens env h client task) (Of i) →
      Lost i (body.run (contexts env h client) s')) :
    Lost i (Contexts.exit b (body.run (contexts env h client) s')) := by
  by_cases hob : b.task = i
  · subst hob
    obtain ⟨hcurrent, htoken⟩ := entered_current env h client task b s s' hs henter
    refine lost_of_block b _ s.current (hrun.trans hcurrent) ?_ hblock
    by_cases hinner : body.Any (opens env h client task) (Of b.task)
    · exact Or.inr (hbody hinner)
    · exact Or.inl ((run_ctxToken env h client task body s' hs' b.task hinner).trans htoken)
  · have hinner : body.Any (opens env h client task) (Of i) := hi.resolve_left hob
    unfold Lost
    rw [Contexts.exit_ctxToken_ne b _ i hob]
    exact hbody hinner

theorem lost_of_restores (p : Nest (With ι τ)) (s : Contexts ι) (hs : AsMade task s) (depth : ℕ)
    (hp : Restores (contexts env h client) Contexts.current p depth s) (i : ι)
    (hi : p.Any (opens env h client task) (Of i)) : Lost i (p.run (contexts env h client) s) := by
  refine (steady env h client task).induct (motive := fun p s => ∀ depth,
    Restores (contexts env h client) Contexts.current p depth s →
      p.Any (opens env h client task) (Of i) → Lost i (p.run (contexts env h client) s))
    ?_ ?_ ?_ p s hs depth hp hi
  · intro s _ _ _ hi
    exact hi.elim
  · intro b body rest s s' hs hopens henter ihrest depth hp hi
    obtain ⟨-, hrest⟩ := (Blocks.Nest.restores_refused henter).mp hp
    rw [Blocks.Nest.run_refused henter]
    rcases hi with ⟨hopens', -⟩ | hi
    · rw [hopens] at hopens'
      cases hopens'
    · exact ihrest depth hrest hi
  · intro b body rest s s' hs hopens henter hs' ihbody ihrest depth hp hi
    obtain ⟨hbody, hblock, hrest⟩ := (Blocks.Nest.restores_entered henter).mp hp
    rw [Blocks.Nest.run_entered henter]
    by_cases hagain : rest.Any (opens env h client task) (Of i)
    · exact ihrest depth hrest hagain
    -- the rest leaves the token as the block has left it
    have hlast : Of i b ∨ body.Any (opens env h client task) (Of i) :=
      (hi.resolve_right hagain).2
    have hlost := lost_of_entered env h client task b body s s' hs hs' henter hbody.run hblock i
      hlast (ihbody (depth + 1) hbody)
    have hleft := (steady env h client task).exit b _ ((steady env h client task).run body s' hs')
    unfold Lost
    rw [run_ctxToken env h client task rest _ hleft i hagain]
    exact hlost

theorem onceOpen_of_restores (p : Nest (With ι τ)) (s : Contexts ι) (hs : AsMade task s)
    (depth : ℕ) (hp : Restores (contexts env h client) Contexts.current p depth s)
    (hcurrent : ∀ i, s.current = some i → ¬ p.Any (opens env h client task) (Of i)) :
    OnceOpen env h client task p := by
  refine (steady env h client task).induct (motive := fun p s => ∀ depth,
    Restores (contexts env h client) Contexts.current p depth s →
      (∀ i, s.current = some i → ¬ p.Any (opens env h client task) (Of i)) →
        OnceOpen env h client task p) ?_ ?_ ?_ p s hs depth hp hcurrent
  · exact fun s _ _ _ _ => trivial
  · intro b body rest s s' hs hopens henter ihrest depth hp hcurrent
    obtain ⟨hblock, hrest⟩ := (Blocks.Nest.restores_refused henter).mp hp
    refine ⟨fun hopens' => ?_, ihrest depth hrest ?_⟩
    · rw [hopens] at hopens'
      cases hopens'
    · intro i hi hany
      exact hcurrent i (hblock.symm.trans hi) (Or.inr hany)
  · intro b body rest s s' hs hopens henter hs' ihbody ihrest depth hp hcurrent
    obtain ⟨hbody, hblock, hrest⟩ := (Blocks.Nest.restores_entered henter).mp hp
    obtain ⟨hset, -⟩ := entered_current env h client task b s s' hs henter
    have hinside : (body.run (contexts env h client) s').current = some b.task :=
      hbody.run.trans hset
    -- otherwise the object itself was current when it was entered
    have hother : s.current ≠ some b.task :=
      fun hself => hcurrent b.task hself (Or.inl ⟨hopens, Or.inl rfl⟩)
    have hagain : ¬ body.Any (opens env h client task) (Of b.task) := by
      intro hany
      have hlost := lost_of_restores env h client task body s' hs' (depth + 1) hbody b.task hany
      exact hother (hblock.symm.trans (exit_lost b _ hinside hlost))
    have hflush : b.flushAll ≠ .baseException := by
      intro hflush
      have hstays : Contexts.exit b (body.run (contexts env h client) s') =
          body.run (contexts env h client) s' := Contexts.exit_interrupted b _ hflush
      apply hother
      rw [← hblock, ← hinside]
      exact congrArg Contexts.current hstays
    refine ⟨fun _ => ⟨⟨hflush, hagain⟩, ihbody (depth + 1) hbody ?_⟩, ihrest depth hrest ?_⟩
    · intro i hi
      rw [hset] at hi
      cases hi
      exact hagain
    · intro i hi hany
      exact hcurrent i (hblock.symm.trans hi) (Or.inr hany)

/-! ## Both -/

/-- Every `__exit__`, and every `__enter__` that raises, leaves the active task as it was before, and
after the outermost there is none. -/
structure Restored (p : Nest (With ι τ)) : Prop where
  blocks : Restores (contexts env h client) Contexts.current p 0 (start task)
  outermost : ∀ v ∈ p.visits (contexts env h client) 0 (start task), v.depth = 0 →
    v.after.current = none ∧ Refuses h client v.after (V := V) (X := X)

/-- **Task contexts restore what they replaced** exactly if no object is entered again while it is
open and no flush is interrupted. -/
theorem restored_iff (p : Nest (With ι τ)) :
    Restored env h client task p ↔ OnceOpen env h client task p := by
  have hstart : AsMade task (start task) := fun i => rfl
  constructor
  · intro hp
    exact onceOpen_of_restores env h client task p (start task) hstart 0 hp.blocks
      fun i hi => by cases hi
  · intro hp
    have hblocks := restores_of_onceOpen env h client task p (start task) hstart hp 0
    refine ⟨hblocks, ?_⟩
    intro v hv hdepth
    have hnone : v.after.current = none := (hblocks v hv).trans (hblocks.outermost v hv hdepth)
    exact ⟨hnone, refuses_of_none h client v.after hnone⟩

end Blocks

/-- A server that issues every token it is asked for. -/
def granting : Environment Question (Answer Unit Empty) Unit where
  answer q s := match q with
    | .isRevoked _ _ => (false, s)
    | .isKillSwitchHealthy => (true, s)
    | .utcNow => (⟨true, 0⟩, s)
    | .monotonic => (0, s)
    | .uuid4 => ("k1", s)
    | .http _ => (.response 201 (some (.dict [(.str "biscuit_token", .str "b")])), s)
    | .sleep _ _ => (.ok (), s)
    | .push _ => ((), s)
    | .overflowWrite _ => ((), s)
    | .execute _ _ => (.ok (), s)

/-- `client.task(["a.b"])` -/
def plainTask : SigilTaskContext := ⟨["a.b"], none, none, 3600, none, .none, []⟩

/-- `with t: with t: pass` -/
def reentered : Nest (With Unit Unit) :=
  .block ⟨(), (), .returned⟩ (.block ⟨(), (), .returned⟩ .done .done) .done

/-- `with t: pass`, with a `KeyboardInterrupt` in the last flush. -/
def interrupted : Nest (With Unit Unit) := .block ⟨(), (), .baseException⟩ .done .done

theorem not_restored :
    ¬ Restored granting Audit.plainHost (fun _ => Audit.plainClient) (fun _ => plainTask) reentered ∧
      ¬ Restored granting Audit.plainHost (fun _ => Audit.plainClient) (fun _ => plainTask)
        interrupted := by
  have hopens : opens granting Audit.plainHost (fun _ => Audit.plainClient) (fun _ => plainTask)
      ⟨(), (), .returned⟩ = true := by decide +kernel
  have honce : ∀ p : Nest (With Unit Unit), Restored granting Audit.plainHost
      (fun _ => Audit.plainClient) (fun _ => plainTask) p → OnceOpen granting Audit.plainHost
        (fun _ => Audit.plainClient) (fun _ => plainTask) p :=
    fun p hp => onceOpen_of_restores _ _ _ _ p (start _) (fun _ => rfl) 0 hp.blocks
      fun i hi => by cases hi
  constructor
  · intro hp
    exact ((honce _ hp).1 hopens).1.2 (Or.inl ⟨hopens, Or.inl rfl⟩)
  · intro hp
    exact ((honce _ hp).1 hopens).1.1 rfl

end Session

end Sigil
