import Sigil.Gate.Envelope
import Sigil.Library.Told

/-! # Instrumented calls within instrumented calls

The function an instrumented call wraps is user code, and may make instrumented calls of its own.
`Program` is such code, and `perform` is what comes of it: the wrapper of every call, with the
function executed for real. `Trailed` says what audit trail a program has to leave, going by its
calls and by nothing of how the wrappers work; `performed_trailed` that it leaves that one.
-/
set_option autoImplicit false

namespace Sigil.Gate

open Dialogue (Follows Plays attempt query)

/-! ## Programs -/

/-- An instrumented call as user code makes it. -/
structure Site where
  decorator : Decorator
  mode : Mode
  /-- What `_current_task` holds. -/
  current : Option (SigilClient × SigilTaskContext)
  tool : Tool
  args : CallArgs
  fuel : ℕ

/-- User code: it ends, or makes a call of a function whose body is user code too, and goes on with
what the call returned or raised. -/
inductive Program (V X : Type) where
  | ends (result : Except X V)
  | calls (site : Site) (body : Program V X) (next : Except (Exc X) V → Program V X)

variable {V X : Type}

abbrev Performance (V X α : Type) : Type := Dialogue Question (Answer V X) Empty α

/-- A call of the wrapped function runs `body`; all other questions are put to the world. -/
def executing (body : Performance V X (Except X V)) : (q : Question) → Performance V X (Answer V X q)
  | .execute _ _ => body
  | .isRevoked agentId taskId => query (A := Answer V X) (.isRevoked agentId taskId)
  | .isKillSwitchHealthy => query (A := Answer V X) .isKillSwitchHealthy
  | .utcNow => query (A := Answer V X) .utcNow
  | .monotonic => query (A := Answer V X) .monotonic
  | .uuid4 => query (A := Answer V X) .uuid4
  | .http r => query (A := Answer V X) (.http r)
  | .sleep mode seconds => query (A := Answer V X) (.sleep mode seconds)
  | .push event => query (A := Answer V X) (.push event)
  | .overflowWrite event => query (A := Answer V X) (.overflowWrite event)

section Perform

variable (h : Host)

def Site.call (site : Site) : Call V X V :=
  wrapper site.decorator site.mode h site.current site.tool site.args site.fuel

def perform : Program V X → Performance V X (Except X V)
  | .ends result => .done result
  | .calls site body next => do
    let result ← (attempt (site.call h)).interpret (executing (perform body))
    perform (next result)

/-! ## The trail -/

/-- The call is governed as `g`. -/
def Site.Governs (site : Site) (g : Governed) : Prop :=
  ∃ c task ah, site.current = some (c, task) ∧ site.args.raw.argsHash h = some ah ∧
    g = site.decorator.governed c task site.tool site.args ah

/-- An exception for which nothing is recorded: no task, no token, or a built-in one. -/
inductive Site.Unrecorded (site : Site) : Exc X → Prop where
  | builtin (e : PyError) : Site.Unrecorded site (.py e)
  | denied (d : Denied) (htool : d.toolName = site.tool.fqn) (htask : d.taskId = namedTask site.current)
      (hreason : (site.current = none ∧ d.deniedReason = .str "no_task") ∨
        ∃ c task, site.current = some (c, task) ∧ task.biscuitToken.isNone = true ∧
          d.deniedReason = .str "token_invalid") : Site.Unrecorded site (.denied d)

/-- The audit trail of a program that ended with `result`: of every call its denial, or the trail of
its body and then how that ended, or nothing. -/
inductive Trailed : Program V X → List (Sink × PyVal) → Except X V → Prop where
  | ends (result : Except X V) : Trailed (.ends result) [] result
  | unrecorded (site : Site) (body : Program V X) (next : Except (Exc X) V → Program V X)
      (e : Exc X) (he : site.Unrecorded e) (rest : List (Sink × PyVal)) (result : Except X V)
      (hrest : Trailed (next (.error e)) rest result) : Trailed (.calls site body next) rest result
  | denied (site : Site) (body : Program V X) (next : Except (Exc X) V → Program V X)
      (g : Governed) (hg : site.Governs h g) (d : Denied) (htool : d.toolName = site.tool.fqn)
      (htask : d.taskId = g.taskId) (sink : Sink) (rest : List (Sink × PyVal)) (result : Except X V)
      (hrest : Trailed (next (.error (.denied d))) rest result) :
      Trailed (.calls site body next) ((sink, deniedEvent g (some d.deniedReason)) :: rest) result
  | executed (site : Site) (body : Program V X) (next : Except (Exc X) V → Program V X)
      (g : Governed) (hg : site.Governs h g) (inner : List (Sink × PyVal)) (outcome : Except X V)
      (hbody : Trailed body inner outcome) (event : PyVal)
      (hevent : Attests g (site.decorator.promptEntropy h site.args) outcome event)
      (rest : List (Sink × PyVal)) (result : Except X V)
      (hrest : Trailed (next (outcome.mapError .raised)) rest result) :
      Trailed (.calls site body next) (inner ++ (.buffer, event) :: rest) result

/-! ## One call -/

theorem audits_of_quiet (body : Performance V X (Except X V)) (e : CallEvent V X) (he : Quiet e)
    (part : List (CallEvent V X)) (hpart : Plays (executing body e.1) part (.returned e.2)) :
    audits part = [] := by
  obtain ⟨q, a⟩ := e
  have hquery : Plays (query q : Performance V X (Answer V X q)) part (.returned a) → audits part = [] := by
    intro hplays
    rw [hplays.query_inv]
    simp [audits, he.1]
  cases q with
  | execute mode call => exact absurd he.2 (by simp [executionOf])
  | _ => exact hquery hpart

/-- A stage of the reading of a call, and the trail up to there, that of its body included. -/
def Left (g : Governed) (entropy : UInt64) (body : Program V X) :
    Progress V X → List (CallEvent V X) → Prop
  | .checking _, tr => audits tr = []
  | .denied _ sink reason, tr => audits tr = [(sink, deniedEvent g (some reason))]
  | .ran result, tr => Trailed h body (audits tr) result
  | .recorded result event, tr =>
    Attests g entropy result event ∧
      ∃ inner, Trailed h body inner result ∧ audits tr = inner ++ [(.buffer, event)]

theorem left_step (g : Governed) (mode : Mode) (call : CallArgs) (entropy : UInt64)
    (body : Program V X)
    (hbody : ∀ tr r, Plays (perform h body) tr (.returned r) → Trailed h body (audits tr) r)
    (s : Progress V X) (e : CallEvent V X) (s' : Progress V X) (before part : List (CallEvent V X))
    (hs : Left h g entropy body s before) (he : Records g mode call entropy s e s')
    (hpart : Plays (executing (perform h body) e.1) part (.returned e.2)) :
    Left h g entropy body s' (before ++ part) := by
  cases he with
  | quiet p _ hq =>
    show audits (before ++ part) = []
    rw [audits_append, audits_of_quiet _ e hq part hpart, List.append_nil]
    exact hs
  | deny p reason hr =>
    have hpart : part = [⟨.push (deniedEvent g (some reason)), ()⟩] := hpart.query_inv
    have hs : audits before = [] := hs
    show audits (before ++ part) = _
    rw [audits_append, hs, hpart]
    rfl
  | spill p reason hr =>
    have hpart : part = [⟨.overflowWrite (deniedEvent g (some reason)), ()⟩] := hpart.query_inv
    have hs : audits before = [] := hs
    show audits (before ++ part) = _
    rw [audits_append, hs, hpart]
    rfl
  | execute p result =>
    have hs : audits before = [] := hs
    show Trailed h body (audits (before ++ part)) result
    rw [audits_append, hs, List.nil_append]
    exact hbody part result hpart
  | clock result now =>
    have hpart : part = [⟨.monotonic, now⟩] := hpart.query_inv
    have hclock : audits [(⟨.monotonic, now⟩ : CallEvent V X)] = [] := rfl
    show Trailed h body (audits (before ++ part)) result
    rw [audits_append, hpart, hclock, List.append_nil]
    exact hs
  | record result event hattests =>
    have hpart : part = [⟨.push event, ()⟩] := hpart.query_inv
    refine ⟨hattests, audits before, hs, ?_⟩
    rw [audits_append, hpart]
    rfl

/-- What one call leaves behind, if its body leaves what it should. -/
theorem call_trailed (site : Site) (body : Program V X)
    (hbody : ∀ tr r, Plays (perform h body) tr (.returned r) → Trailed h body (audits tr) r)
    (next : Except (Exc X) V → Program V X) (tr : List (CallEvent V X)) (x : Except (Exc X) V)
    (hplays : Plays ((attempt (site.call h)).interpret (executing (perform h body)) :
      Performance V X (Except (Exc X) V)) tr (.returned x))
    (rest : List (Sink × PyVal)) (result : Except X V) (hrest : Trailed h (next x) rest result) :
    Trailed h (.calls site body next) (audits tr ++ rest) result := by
  obtain ⟨heard, hcall, htold⟩ := hplays.interpret_inv
  have hcall := hcall.attempt_inv
  have hsilent (hnil : heard = []) : audits tr = [] := by
    subst hnil
    cases htold
    rfl
  cases hcurrent : site.current with
  | none =>
    rw [Site.call, wrapper_eq, hcurrent] at hcall
    have hx : ∃ d : Denied, x = .error (.denied d) ∧ d.toolName = site.tool.fqn ∧ d.taskId = "" ∧
        d.deniedReason = .str "no_task" ∧ heard = [] := by
      cases x with
      | ok v => cases hcall
      | error e =>
        cases hcall
        exact ⟨_, rfl, rfl, rfl, rfl, rfl⟩
    obtain ⟨d, rfl, htool, htask, hreason, hnil⟩ := hx
    rw [hsilent hnil, List.nil_append]
    refine .unrecorded site body next _ (.denied d htool ?_ (Or.inl ⟨hcurrent, hreason⟩)) rest result
      hrest
    rw [htask, hcurrent]
    rfl
  | some current =>
    obtain ⟨c, task⟩ := current
    cases hah : site.args.raw.argsHash h with
    | none =>
      rw [Site.call, wrapper_eq, hcurrent,
        governedCall_unhashed h c task _ _ _ _ _ site.fuel hah] at hcall
      have hx : x = .error (.py .typeError) ∧ heard = [] := by
        cases x with
        | ok v => cases hcall
        | error e =>
          cases hcall
          exact ⟨rfl, rfl⟩
      obtain ⟨rfl, hnil⟩ := hx
      rw [hsilent hnil, List.nil_append]
      exact .unrecorded site body next _ (.builtin _) rest result hrest
    | some ah =>
      rw [Site.call, hcurrent] at hcall
      obtain ⟨s, hfollows, hends⟩ := wrapper_guided h c task site.decorator site.mode site.tool
        site.args ah hah site.fuel heard _ hcall
      have hconcludes := hends x rfl
      have hg : site.Governs h (site.decorator.governed c task site.tool site.args ah) :=
        ⟨c, task, ah, hcurrent, hah, rfl⟩
      have hleft := hfollows.told (Left h _ _ body)
        (left_step h _ site.mode site.args _ body hbody) htold [] rfl
      rw [List.nil_append] at hleft
      cases hconcludes with
      | crashed e p =>
        rw [show audits tr = [] from hleft, List.nil_append]
        exact .unrecorded site body next _ (.builtin e) rest result hrest
      | unissued d p hd =>
        rw [show audits tr = [] from hleft, List.nil_append]
        refine .unrecorded site body next _ (.denied d ?_ ?_ (Or.inr ⟨c, task, hcurrent, hd.1, ?_⟩))
          rest result hrest
        · rw [hd.2]
          rfl
        · rw [hd.2, hcurrent]
          rfl
        · rw [hd.2]
          rfl
      | denied d p sink htool htask hsink =>
        rw [show audits tr = [(sink, deniedEvent _ (some d.deniedReason))] from hleft]
        exact .denied site body next _ hg d htool htask sink rest result hrest
      | executed outcome event =>
        obtain ⟨hattests, inner, htrail, haudits⟩ := hleft
        rw [haudits, List.append_assoc, List.singleton_append]
        exact .executed site body next _ hg inner outcome htrail event hattests rest result hrest

end Perform

/-- **Nested calls leave one trail.** However instrumented calls are nested, and whatever the world
answers them, code that comes to its end has recorded of each of its calls, in the order in which they
end, exactly one event that says how it went: a denial with the reason it raised, or, after all that
its body recorded, what came of the body; and nothing only of calls without a task or a token and of
built-in exceptions. -/
theorem performed_trailed (h : Host) (program : Program V X) (tr : List (CallEvent V X))
    (result : Except X V) (hplays : Plays (perform h program) tr (.returned result)) :
    Trailed h program (audits tr) result := by
  induction program generalizing tr result with
  | ends r =>
    cases hplays
    exact .ends r
  | calls site body next ihbody ihnext =>
    obtain ⟨x, tr₁, tr₂, rfl, hcall, hrest⟩ := hplays.bind_inv
    rw [audits_append]
    exact call_trailed h site body ihbody next tr₁ x hcall _ result (ihnext x tr₂ result hrest)

end Sigil.Gate
