import Sigil.Session.Credentials

/-! # Arguments do not flow

Of the arguments of a call its hash is sent and recorded, and by the LLM decorator their redacted
form and the entropy of the prompt. Two runs of a task whose calls agree in these, and whose
functions make the same of their arguments, ask the same, record the same and raise the same.
-/
set_option autoImplicit false

namespace Sigil.Session

open Audit (OverflowWriter)
open Dialogue (Agree Environment Likeness Matches Resemble agree_query_bind query run)
open Gate (Decorator Governed Moment Script approvalGate execute execute_eq governanceCheck
  governedCall_eq governedCall_unhashed wrapper wrapper_eq)

variable {V X α σ σ' : Type}

/-! ## What a call discloses -/

/-- The two argument lists have the same hash, redacted form and prompt entropy. -/
structure SameDigest (h : Host) (d : Decorator) (args args' : CallArgs) : Prop where
  argsHash : args.raw.argsHash h = args'.raw.argsHash h
  argsRedacted : d.argsRedacted args = d.argsRedacted args'
  promptEntropy : d.promptEntropy h args = d.promptEntropy h args'

inductive SameOp (h : Host) : Op → Op → Prop where
  | refl (op : Op) : SameOp h op op
  | call (d : Decorator) (mode : Mode) (tool : Gate.Tool) (args args' : CallArgs)
      (hargs : SameDigest h d args args') :
      SameOp h (.call d mode tool args) (.call d mode tool args')

/-- The same question, but for the arguments a function is called with. -/
inductive ButArguments : SessionQuestion → SessionQuestion → Prop where
  | refl (q : SessionQuestion) : ButArguments q q
  | execute (mode : Mode) (args args' : CallArgs) :
      ButArguments (.call (.execute mode args)) (.call (.execute mode args'))

def argumentLikeness : Likeness SessionQuestion (SessionAnswer V X) where
  same := ButArguments
  alike e e' := ButArguments e.1 e'.1 ∧ HEq e.2 e'.2

/-- The event, without the arguments a function was called with. -/
def withoutArguments : SessionEvent V X → SessionEvent V X
  | ⟨.call (.execute mode _), r⟩ => ⟨.call (.execute mode ⟨[], []⟩), r⟩
  | e => e

theorem withoutArguments_alike (e e' : SessionEvent V X) (he : argumentLikeness.alike e e') :
    withoutArguments e = withoutArguments e' := by
  obtain ⟨q, a⟩ := e
  obtain ⟨q', a'⟩ := e'
  obtain ⟨hq, ha⟩ := he
  cases hq with
  | refl =>
    have hr : a = a' := eq_of_heq ha
    rw [hr]
  | execute mode args args' =>
    have hr : a = a' := eq_of_heq ha
    rw [hr]
    rfl

/-- The same, of the questions of a call. -/
def argumentCallLikeness : Likeness Question (Answer V X) where
  same q q' := ButArguments (.call q) (.call q')
  alike e e' := ButArguments (.call e.1) (.call e'.1) ∧ HEq e.2 e'.2

/-! ## Two runs -/

/-- What does not call a function is the same in both runs. -/
theorem asking_agree {ε : Type} (p : Asking V X ε α) : Agree argumentLikeness (· = ·) p p :=
  Agree.refl p (fun q => .refl q) fun _ _ _ ha => eq_of_heq ha.2

theorem calling_agree (p : Call V X α) : Agree argumentCallLikeness (· = ·) p p :=
  Agree.refl p (fun q => .refl (.call q)) fun _ _ _ ha => eq_of_heq ha.2

section Call

variable (h : Host)

theorem execute_agree_args (mode : Mode) (args args' : CallArgs) (g : Governed) (failOpen : Bool)
    (grant : Option String) (entropy : UInt64) :
    Agree argumentCallLikeness (· = ·)
      (execute mode args g failOpen grant entropy : Call V X V)
      (execute mode args' g failOpen grant entropy) := by
  rw [execute_eq, execute_eq]
  refine agree_query_bind (.refl _) fun t0 t0' h0 => ?_
  have ht0 : t0 = t0' := eq_of_heq h0.2
  refine agree_query_bind (.execute mode args args') fun result result' hr => ?_
  have hresult : result = result' := eq_of_heq hr.2
  rw [ht0, hresult]
  exact calling_agree _

theorem wrapper_agree_args (d : Decorator) (mode : Mode) (c : SigilClient)
    (task : SigilTaskContext) (tool : Gate.Tool) (args args' : CallArgs)
    (hargs : SameDigest h d args args') (fuel : ℕ) :
    Agree argumentCallLikeness (· = ·)
      (wrapper d mode h (some (c, task)) tool args fuel : Call V X V)
      (wrapper d mode h (some (c, task)) tool args' fuel) := by
  rw [wrapper_eq, wrapper_eq, hargs.argsRedacted, hargs.promptEntropy]
  cases hah : args'.raw.argsHash h with
  | none =>
    rw [governedCall_unhashed h c task tool mode args _ _ fuel (hargs.argsHash.trans hah),
      governedCall_unhashed h c task tool mode args' _ _ fuel hah]
    exact .fail _
  | some ah =>
    rw [governedCall_eq h c task tool mode args _ _ fuel ah (hargs.argsHash.trans hah),
      governedCall_eq h c task tool mode args' _ _ fuel ah hah]
    refine (calling_agree _).bind fun decided decided' hd => ?_
    obtain ⟨failOpen, approvalId⟩ := decided
    rw [← hd]
    cases approvalId with
    | none => exact execute_agree_args mode args args' _ failOpen none _
    | some id =>
      refine (calling_agree _).bind fun grant grant' hg => ?_
      rw [← hg]
      exact execute_agree_args mode args args' _ failOpen (some grant) _

end Call

section Task

variable (h : Host) (L : Json.Limits) (w : OverflowWriter) (fuel rounds : ℕ) (c : SigilClient)

theorem runOp_agree_args (task : SigilTaskContext) (op op' : Op) (hop : SameOp h op op') :
    Agree argumentLikeness (· = ·)
      (runOp h L w fuel rounds c task op : Asking V X (Exc X) (Outcome V X))
      (runOp h L w fuel rounds c task op') := by
  cases hop with
  | refl => exact asking_agree _
  | call d mode tool args args' hargs =>
    have hcall : Agree argumentLikeness (· = ·)
        (inSession (wrapper d mode h (some (c, task)) tool args fuel : Call V X V))
        (inSession (wrapper d mode h (some (c, task)) tool args' fuel)) :=
      (wrapper_agree_args h d mode c task tool args args' hargs fuel).interpret fun _ _ hq =>
        .ask _ _ _ _ hq fun a a' ha => .done a a' ha
    refine hcall.attempt.bind fun result result' hr => ?_
    rw [hr.eq]
    exact .done _ _ rfl

theorem runOps_agree_args (task : SigilTaskContext) (ops ops' : List Op)
    (hops : List.Forall₂ (SameOp h) ops ops') :
    Agree argumentLikeness (· = ·)
      (runOps h L w fuel rounds c task ops : Asking V X (Exc X) (List (Outcome V X)))
      (runOps h L w fuel rounds c task ops') := by
  induction hops with
  | nil => exact .done _ _ rfl
  | cons hop _ ih =>
    refine (runOp_agree_args h L w fuel rounds c task _ _ hop).bind fun outcome outcome' ho => ?_
    refine ih.bind fun outcomes outcomes' hos => ?_
    rw [ho, hos]
    exact .done _ _ rfl

theorem runTask_agree_args (t : SigilTaskContext) (ops ops' : List Op)
    (hops : List.Forall₂ (SameOp h) ops ops') :
    Agree argumentLikeness (· = ·)
      (runTask h L w fuel rounds c t ops : Asking V X (Exc X) (List (Outcome V X)))
      (runTask h L w fuel rounds c t ops') := by
  refine (asking_agree _).bind fun task task' ht => ?_
  rw [← ht]
  refine (runOps_agree_args h L w fuel rounds c task ops ops' hops).bind fun outcomes outcomes' ho => ?_
  rw [← ho]
  exact asking_agree _

end Task

/-- **Arguments do not flow.** Two runs of a task whose calls have the same hash, redacted form and
prompt entropy, in worlds that answer alike and whose functions make the same of the arguments, end
alike for every call, and ask, send and record the same but for what the functions are called with. -/
theorem arguments_do_not_flow (h : Host) (L : Json.Limits) (w : OverflowWriter) (fuel rounds : ℕ)
    (c : SigilClient) (t : SigilTaskContext) (ops ops' : List Op) (hops : List.Forall₂ (SameOp h) ops ops')
    (rel : σ → σ' → Prop) (env : Environment SessionQuestion (SessionAnswer V X) σ)
    (env' : Environment SessionQuestion (SessionAnswer V X) σ')
    (henv : Resemble argumentLikeness rel env env') (s : σ) (s' : σ') (hs : rel s s') :
    let R := run env (runTask h L w fuel rounds c t ops) s
    let R' := run env' (runTask h L w fuel rounds c t ops') s'
    R.result = R'.result ∧ R.events.map withoutArguments = R'.events.map withoutArguments := by
  obtain ⟨hend, hevents⟩ := (runTask_agree_args h L w fuel rounds c t ops ops' hops).run henv s s' hs
  exact ⟨hend.eq, Dialogue.map_alike withoutArguments_alike hevents⟩

theorem script_resemble_args (S : Script V X) :
    Resemble argumentLikeness (· = ·) ⟨sessionAnswer S⟩ ⟨sessionAnswer S⟩ := by
  intro q q' m m' hq hm
  rw [← hm]
  cases hq with
  | refl => exact ⟨⟨.refl q, HEq.rfl⟩, rfl⟩
  | execute mode args args' => exact ⟨⟨.execute mode args args', HEq.rfl⟩, rfl⟩

section Sample

open Gate (openedTask pollFuel sampleClient sampleScript sampleTool)

/-- The sample call, with a list and with a tuple: their JSON is the same. -/
theorem arguments_do_not_flow_tuple :
    let op (v : PyVal) := Op.call .instrumentedTool .sync sampleTool ⟨[v], []⟩
    let R (v : PyVal) := run ⟨sessionAnswer sampleScript⟩ (runTask Verify.sampleHost
      Audit.plainLimits sampleWriter (pollFuel sampleClient) 1 sampleClient openedTask
      [op v, .flush]) .start
    (R (.list [.int 1])).result = (R (.tuple [.int 1])).result :=
  (arguments_do_not_flow Verify.sampleHost Audit.plainLimits sampleWriter (pollFuel sampleClient) 1
    sampleClient openedTask _ _ (.cons (.call .instrumentedTool .sync sampleTool ⟨[.list [.int 1]], []⟩
      ⟨[.tuple [.int 1]], []⟩ ⟨rfl, rfl, rfl⟩) (.cons (.refl .flush) .nil)) (· = ·) _ _
    (script_resemble_args sampleScript) .start .start rfl).1

end Sample

end Sigil.Session
