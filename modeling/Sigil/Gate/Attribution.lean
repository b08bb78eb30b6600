import Sigil.Gate.Conversation.Questions

/-! # Under whose name a call runs

A task may be opened for another agent than the client's. Its token is then issued for that agent,
but the calls made in it look up, ask and record under the agent of the client.
-/
set_option autoImplicit false

namespace Sigil.Gate

open Dialogue (Environment Only only_done only_fail only_query_bind run)
open SigilTaskContext (issuedAgentId)

variable {V X σ : Type}

/-! ## The agents that events name -/

def bodyField (r : Request) (name : String) : Option PyVal := r.body.bind fun b => eventField b name

/-- The agent of an issue request. -/
def issuedFor : CallEvent V X → Option PyVal
  | ⟨.http r, _⟩ => if r.route = .issueToken then bodyField r "agent_id" else none
  | _ => none

/-- The agent of a registry lookup, of a preflight request, or of an audit event. -/
def attributedTo : CallEvent V X → Option PyVal
  | ⟨.isRevoked agentId _, _⟩ => some (.str agentId)
  | ⟨.http r, _⟩ => if r.route = .preflight then bodyField r "agent_id" else none
  | e => (auditOf e).bind fun a => eventField a.2 "agent_id"

/-- A preflight request names the agent it is given, or the client's, or nobody. -/
theorem preflightRequest_agentId (c : SigilClient) (token : PyVal)
    (toolNamespace toolName argsHash agentId taskId : String) (v : PyVal)
    (hv : bodyField (c.preflightRequest token toolNamespace toolName argsHash agentId taskId)
      "agent_id" = some v) : v = .str (if agentId = "" then c.agentId else agentId) := by
  have hbody : bodyField (c.preflightRequest token toolNamespace toolName argsHash agentId taskId)
      "agent_id" = ((if (if agentId = "" then c.agentId else agentId) = "" then [] else
        [(PyKey.str "agent_id", PyVal.str (if agentId = "" then c.agentId else agentId))]) ++
        if taskId = "" then [] else [(PyKey.str "task_id", PyVal.str taskId)]).lookup
          (.str "agent_id") := rfl
  have hkey : (PyKey.str "agent_id" == PyKey.str "task_id") = false := rfl
  rw [hbody] at hv
  generalize (if agentId = "" then c.agentId else agentId) = a at hv ⊢
  by_cases ha : a = ""
  · by_cases htask : taskId = ""
    · simp [ha, htask] at hv
    · rw [if_pos ha, if_neg htask, List.nil_append, List.lookup_cons, hkey] at hv
      cases hv
  · rw [if_neg ha, List.singleton_append, List.lookup_cons_self] at hv
    exact (Option.some.inj hv).symm

/-- Whatever a call asks, it names the agent of the client. -/
theorem asks_agentId {c : SigilClient} {task : SigilTaskContext} {g : Governed} {mode : Mode}
    {call : CallArgs} (hg : g.agentId = c.agentId) (e : CallEvent V X)
    (he : Asks c task g mode call e.1) (v : PyVal) (hv : attributedTo e = some v) :
    v = .str c.agentId := by
  obtain ⟨q, a⟩ := e
  cases he with
  | isRevoked => rw [← Option.some.inj hv, hg]
  | preflight =>
    have hsent := preflightRequest_agentId c task.biscuitToken g.tool.toolNamespace g.tool.name g.ah
      g.agentId g.taskId v hv
    rw [hg, ite_self] at hsent
    exact hsent
  | push =>
    rw [← Option.some.inj hv]
    exact congrArg PyVal.str hg
  | overflowWrite =>
    rw [← Option.some.inj hv]
    exact congrArg PyVal.str hg
  | _ => cases hv

/-! ## Entering a task -/

/-- The rest of `__enter__`, once the issue request is answered. -/
def afterIssue (h : Host) (c : SigilClient) (t : SigilTaskContext) (taskId : String) (r : Request)
    (answer : HttpAnswer) : Call V X SigilTaskContext := do
  let resp ← Dialogue.ofExcept (SigilClient.receive "issue_token" 201 r answer)
  let biscuitToken ← liftPy (resp.getItem "biscuit_token")
  if c.biscuitKeyring.entries.isEmpty then
    pure { t with
      taskId := some taskId, biscuitToken := biscuitToken, effectiveTools := t.toolAllowlist }
  else
    let now ← utcNow
    let result ← liftPy
      (verifyToken h biscuitToken c.biscuitKeyring (orNone c.activeKid) none none now)
    pure { t with
      taskId := some taskId, biscuitToken := biscuitToken,
      effectiveTools := if result.ok then result.effectiveTools else t.effectiveTools }

theorem enter_eq (h : Host) (c : SigilClient) (t : SigilTaskContext) :
    (t.enter h c : Call V X SigilTaskContext) = .ask .uuid4 fun taskId =>
      .ask (.http (c.issueRequest (issuedAgentId c t)
        (strOr t.serviceAccountIdOverride c.serviceAccountId) taskId t.toolAllowlist t.ttlSeconds
        none)) (afterIssue h c t taskId (c.issueRequest (issuedAgentId c t)
        (strOr t.serviceAccountIdOverride c.serviceAccountId) taskId t.toolAllowlist t.ttlSeconds
        none)) := rfl

theorem afterIssue_asks (h : Host) (c : SigilClient) (t : SigilTaskContext) (taskId : String)
    (r : Request) (answer : HttpAnswer) :
    Only (fun e : CallEvent V X => e.1 = .utcNow)
      (afterIssue h c t taskId r answer : Call V X SigilTaskContext) := by
  have hlift {α : Type} (r : Except PyError α) :
      Only (fun e : CallEvent V X => e.1 = .utcNow) (liftPy r : Call V X α) := by
    cases r with
    | ok a => exact only_done a
    | error e => exact only_fail _
  unfold afterIssue
  refine Only.bind ?_ fun resp => (hlift _).bind fun token => ?_
  · cases SigilClient.receive (X := X) "issue_token" 201 r answer with
    | ok v => exact only_done v
    | error e => exact only_fail e
  · split
    · exact only_done _
    · exact only_query_bind (fun _ => rfl) fun now => (hlift _).bind fun result => only_done _

/-- Entering a task asks for one token, for the agent of the task. -/
theorem enter_issues (env : Environment Question (Answer V X) σ) (h : Host) (c : SigilClient)
    (t : SigilTaskContext) (s : σ) :
    (run env (t.enter h c : Call V X SigilTaskContext) s).events.filterMap issuedFor =
      [.str (issuedAgentId c t)] := by
  rw [enter_eq]
  show List.filterMap issuedFor (⟨.uuid4, _⟩ :: ⟨.http _, _⟩ ::
    (run env (afterIssue h c t _ _ _) _).events) = _
  rw [List.filterMap_cons_none rfl]
  refine filterMap_cons_of_nil issuedFor _ _ (List.filterMap_eq_nil_iff.mpr ?_)
  intro e he
  have hnow := (afterIssue_asks h c t _ _ _).events env _ e he
  obtain ⟨q, a⟩ := e
  cases hnow
  rfl

/-! ## One name -/

/-- Every agent the call names is one the token was asked for. -/
def ConsistentlyAttributed (entering calling : List (CallEvent V X)) : Prop :=
  ∀ a ∈ entering.filterMap issuedFor, ∀ b ∈ calling.filterMap attributedTo, a = b

/-- A call begins with a lookup of the client's agent. -/
theorem wrapper_attributed (env : Environment Question (Answer V X) σ) (h : Host) (c : SigilClient)
    (task : SigilTaskContext) (d : Decorator) (mode : Mode) (tool : Tool) (call : CallArgs)
    (ah : String) (hah : call.raw.argsHash h = some ah) (fuel : ℕ) (s : σ) :
    PyVal.str c.agentId ∈ (run env (wrapper d mode h (some (c, task)) tool call fuel :
      Call V X V) s).events.filterMap attributedTo := by
  rw [wrapper_eq, governedCall_eq h c task tool mode call _ _ fuel ah hah]
  exact List.mem_filterMap.mpr ⟨_, List.mem_cons_self, rfl⟩

/-- **When a call runs under the name its token was issued for.** In every environment: exactly when
the task was opened for the agent of the client, or the call ends before the registry is asked
because its arguments have no hash. -/
theorem consistentlyAttributed_iff (env : Environment Question (Answer V X) σ) (h : Host)
    (c : SigilClient) (t entered : SigilTaskContext) (s s' : σ)
    (_hent : (run env (t.enter h c : Call V X SigilTaskContext) s).result = .returned entered)
    (d : Decorator) (mode : Mode) (tool : Tool) (call : CallArgs) (fuel : ℕ) :
    ConsistentlyAttributed (run env (t.enter h c : Call V X SigilTaskContext) s).events
        (run env (wrapper d mode h (some (c, entered)) tool call fuel : Call V X V) s').events ↔
      call.raw.argsHash h = none ∨ issuedAgentId c t = c.agentId := by
  unfold ConsistentlyAttributed
  rw [enter_issues env h c t s]
  cases hah : call.raw.argsHash h with
  | none =>
    have hfail : (wrapper d mode h (some (c, entered)) tool call fuel : Call V X V) =
        .fail (.py .typeError) := by
      rw [wrapper_eq, governedCall_unhashed h c entered tool mode call _ _ fuel hah]
    rw [hfail]
    exact iff_of_true (fun _ _ _ hb => absurd hb List.not_mem_nil) (Or.inl rfl)
  | some ah =>
    have hasks := (wrapper_asks h c entered mode call d tool ah hah fuel :
      OnlyAsks c entered (d.governed c entered tool call ah) mode call
        (wrapper d mode h (some (c, entered)) tool call fuel : Call V X V)).events env s'
    constructor
    · intro hall
      have hlooked := wrapper_attributed env h c entered d mode tool call ah hah fuel s'
      exact Or.inr (PyVal.str.inj (hall _ (List.mem_singleton_self _) _ hlooked))
    · intro hagent a ha b hb
      obtain ⟨e, he, hname⟩ := List.mem_filterMap.mp hb
      have hown : issuedAgentId c t = c.agentId := hagent.resolve_left (by simp)
      rw [List.mem_singleton.mp ha, asks_agentId rfl e (hasks e he) b hname, hown]

section Sample

open Verify (sampleHost)

theorem consistentlyAttributed_iff_own : ConsistentlyAttributed
    (run sampleScript.env (openedTask.enter sampleHost sampleClient) .start).events
    (sampleCall sampleScript).events :=
  (consistentlyAttributed_iff sampleScript.env sampleHost sampleClient openedTask sampleTask .start
    .start (openedTask_enters sampleScript rfl rfl rfl none).returned .instrumentedTool .sync
    sampleTool noArgs (pollFuel sampleClient)).mpr (Or.inr rfl)

/-- A task opened for `a2`: its token is asked for `a2`, and the call looks up `a1`. -/
theorem overridden_agent_misattributed :
    ¬ ∀ t entered : SigilTaskContext,
      (run sampleScript.env (t.enter sampleHost sampleClient) .start).result = .returned entered →
      ConsistentlyAttributed
        (run sampleScript.env (t.enter sampleHost sampleClient) .start).events
        (run sampleScript.env (wrapper .instrumentedTool .sync sampleHost
          (some (sampleClient, entered)) sampleTool noArgs (pollFuel sampleClient)) .start).events := by
  intro hall
  have hnamed := hall _ _ (openedTask_enters sampleScript rfl rfl rfl (some "a2")).returned
  unfold ConsistentlyAttributed at hnamed
  rw [enter_issues] at hnamed
  have heq := hnamed _ (List.mem_singleton_self _) _ (wrapper_attributed _ sampleHost sampleClient _
    .instrumentedTool .sync sampleTool noArgs _ rfl _ _)
  exact absurd (PyVal.str.inj heq) (by decide)

end Sample

end Sigil.Gate
