import Sigil.Gate.Conversation.Record

/-! # What a call shows

To sigil-core a call shows audit events, to its caller a value or an exception. The events keep to
the envelope of `docs/protocol.md` §4.1; the exceptions are denials of this call, what the wrapped
function raised, or a built-in one, and never those of the transport.
-/
set_option autoImplicit false

namespace Sigil.Gate

open Dialogue (Follows Plays guided_fail)

variable {V X α : Type}

/-! ## The envelope -/

inductive Kind where
  | text
  | oneOf (values : List String)
  | integer
  | number
  | object
  /-- Present only as `true`. -/
  | mark
  deriving DecidableEq

def Kind.Admits : Kind → PyVal → Prop
  | .text, v => ∃ s, v = .str s
  | .oneOf values, v => ∃ s ∈ values, v = .str s
  | .integer, v => ∃ n, v = .int n
  | .number, v => ∃ bits, v = .float bits
  | .object, v => v.isDict = true
  | .mark, v => v = .bool true

structure Field where
  name : String
  kind : Kind
  deriving DecidableEq

def requiredFields : List Field :=
  [⟨"agent_id", .text⟩, ⟨"task_id", .text⟩, ⟨"tool_name", .text⟩, ⟨"tool_namespace", .text⟩,
    ⟨"args_hash", .text⟩, ⟨"latency_ms", .integer⟩,
    ⟨"outcome", .oneOf ["allowed", "denied", "error"]⟩,
    ⟨"risk_tier", .oneOf ["low", "med", "high", "critical"]⟩, ⟨"prompt_entropy", .number⟩]

def optionalFields : List Field :=
  [⟨"denied_reason", .text⟩, ⟨"args_redacted", .object⟩, ⟨"fail_open", .mark⟩,
    ⟨"approval_grant_id", .text⟩]

def Field.key (f : Field) : PyKey := .str f.name

def Field.Fits (f : Field) (kv : PyKey × PyVal) : Prop := kv.1 = f.key ∧ f.kind.Admits kv.2

structure Conforms (event : PyVal) : Prop where
  object : ∃ kvs, event = .dict kvs ∧ (kvs.map Prod.fst).Nodup ∧
    (∀ kv ∈ kvs, ∃ f ∈ requiredFields ++ optionalFields, f.Fits kv) ∧
    ∀ f ∈ requiredFields, f.key ∈ kvs.map Prod.fst
  /-- A reason is given for a denial, and only for one. -/
  denial : eventField event "outcome" = some (.str "denied") ↔
    ∃ reason, eventField event "denied_reason" = some reason
  /-- Failing open and approval are for high-risk tools, and for calls that were executed. -/
  privileged : (∃ v, eventField event "fail_open" = some v) ∨
      (∃ v, eventField event "approval_grant_id" = some v) →
    eventField event "outcome" ≠ some (.str "denied") ∧
      ∃ tier ∈ ["high", "critical"], eventField event "risk_tier" = some (.str tier)

section Fields

variable (g : Governed) (latencyMs : ℤ) (outcome : String) (reason : Option PyVal)
  (failOpen : Bool) (grant : Option String) (entropy : UInt64)

/-- The fields every event has. -/
def baseFields : List (PyKey × PyVal) :=
  [(.str "agent_id", .str g.agentId), (.str "task_id", .str g.taskId),
    (.str "tool_name", .str g.tool.fqn), (.str "tool_namespace", .str g.tool.toolNamespace),
    (.str "args_hash", .str g.ah), (.str "latency_ms", .int latencyMs),
    (.str "outcome", .str outcome), (.str "risk_tier", .str g.tool.riskTier.toString),
    (.str "prompt_entropy", .float entropy)]

/-- The fields an event has besides. -/
def extraFields : List (PyKey × PyVal) :=
  (reason.map fun r => (PyKey.str "denied_reason", r)).toList ++
    (g.argsRedacted.map fun a => (PyKey.str "args_redacted", a)).toList ++
    (if failOpen then [(.str "fail_open", .bool true)] else []) ++
    ((grant.filter (· ≠ "")).map fun id => (PyKey.str "approval_grant_id", .str id)).toList

theorem makeEvent_fields : makeEvent g latencyMs outcome reason failOpen grant entropy =
    .dict (baseFields g latencyMs outcome entropy ++ extraFields g reason failOpen grant) := by
  simp only [makeEvent, baseFields, extraFields, List.append_assoc]

theorem riskTier_mem (tier : RiskTier) : tier.toString ∈ ["low", "med", "high", "critical"] := by
  cases tier <;> decide

theorem baseFields_fit (hout : outcome ∈ ["allowed", "denied", "error"]) :
    List.Forall₂ Field.Fits requiredFields (baseFields g latencyMs outcome entropy) := by
  refine .cons ⟨rfl, _, rfl⟩ (.cons ⟨rfl, _, rfl⟩ (.cons ⟨rfl, _, rfl⟩ (.cons ⟨rfl, _, rfl⟩
    (.cons ⟨rfl, _, rfl⟩ (.cons ⟨rfl, _, rfl⟩ (.cons ⟨rfl, outcome, hout, rfl⟩
      (.cons ⟨rfl, _, riskTier_mem _, rfl⟩ (.cons ⟨rfl, _, rfl⟩ .nil))))))))

theorem extraFields_fit (hreason : ∀ r, reason = some r → ∃ s, r = .str s)
    (hredacted : ∀ v, g.argsRedacted = some v → v.isDict = true) (kv : PyKey × PyVal)
    (hkv : kv ∈ extraFields g reason failOpen grant) : ∃ f ∈ optionalFields, f.Fits kv := by
  simp only [extraFields, List.mem_append, Option.mem_toList, Option.map_eq_some_iff] at hkv
  obtain ((⟨r, hr, rfl⟩ | ⟨v, hv, rfl⟩) | hopen) | ⟨id, hid, rfl⟩ := hkv
  · exact ⟨⟨"denied_reason", .text⟩, by decide, rfl, hreason r hr⟩
  · exact ⟨⟨"args_redacted", .object⟩, by decide, rfl, hredacted v hv⟩
  · cases failOpen with
    | false => simp at hopen
    | true =>
      have hkv : kv = (.str "fail_open", .bool true) := by simpa using hopen
      exact ⟨⟨"fail_open", .mark⟩, by decide, congrArg Prod.fst hkv, congrArg Prod.snd hkv⟩
  · exact ⟨⟨"approval_grant_id", .text⟩, by decide, rfl, id, rfl⟩

theorem extraFields_keys :
    ((extraFields g reason failOpen grant).map Prod.fst).Sublist (optionalFields.map Field.key) := by
  have hoption {β : Type} (o : Option β) (k : PyKey) (f : β → PyVal) :
      ((o.map fun x => (k, f x)).toList.map Prod.fst).Sublist [k] := by
    cases o with
    | none => exact List.nil_sublist _
    | some x => exact List.Sublist.refl _
  have hopen : ((if failOpen then [(PyKey.str "fail_open", PyVal.bool true)] else []).map
      Prod.fst).Sublist [PyKey.str "fail_open"] := by
    cases failOpen with
    | false => exact List.nil_sublist _
    | true => exact List.Sublist.refl _
  simp only [extraFields, List.map_append]
  exact (((hoption reason _ id).append (hoption g.argsRedacted _ id)).append hopen).append
    (hoption (grant.filter (· ≠ "")) _ _)

theorem makeEvent_object (hout : outcome ∈ ["allowed", "denied", "error"])
    (hreason : ∀ r, reason = some r → ∃ s, r = .str s)
    (hredacted : ∀ v, g.argsRedacted = some v → v.isDict = true) :
    ∃ kvs, makeEvent g latencyMs outcome reason failOpen grant entropy = .dict kvs ∧
      (kvs.map Prod.fst).Nodup ∧
      (∀ kv ∈ kvs, ∃ f ∈ requiredFields ++ optionalFields, f.Fits kv) ∧
      ∀ f ∈ requiredFields, f.key ∈ kvs.map Prod.fst := by
  have hbase := baseFields_fit g latencyMs outcome entropy hout
  have hkeys : (baseFields g latencyMs outcome entropy).map Prod.fst =
      requiredFields.map Field.key := rfl
  refine ⟨_, makeEvent_fields g latencyMs outcome reason failOpen grant entropy, ?_, ?_, ?_⟩
  · have hall : (requiredFields.map Field.key ++ optionalFields.map Field.key).Nodup := by decide
    rw [List.map_append, hkeys]
    exact hall.sublist ((List.Sublist.refl _).append (extraFields_keys g reason failOpen grant))
  · intro kv hkv
    obtain hleft | hright := List.mem_append.mp hkv
    · obtain ⟨n, hn, rfl⟩ := List.mem_iff_getElem.mp hleft
      have hn' : n < requiredFields.length := by rwa [hbase.length_eq]
      exact ⟨_, List.mem_append_left _ (List.getElem_mem hn'), hbase.get hn' hn⟩
    · obtain ⟨f, hf, hfits⟩ := extraFields_fit g reason failOpen grant hreason hredacted kv hright
      exact ⟨f, List.mem_append_right _ hf, hfits⟩
  · intro f hf
    rw [List.map_append, hkeys]
    exact List.mem_append_left _ (List.mem_map_of_mem hf)

@[simp] theorem makeEvent_riskTier : eventField
    (makeEvent g latencyMs outcome reason failOpen grant entropy) "risk_tier" =
      some (.str g.tool.riskTier.toString) := rfl

end Fields

theorem highRisk_mem (tier : RiskTier) (h : tier.isHighRisk = true) :
    tier.toString ∈ ["high", "critical"] := by
  cases tier with
  | low => cases h
  | med => cases h
  | high => decide
  | critical => decide

theorem deniedEvent_conforms (g : Governed) (reason : String)
    (hredacted : ∀ v, g.argsRedacted = some v → v.isDict = true) :
    Conforms (deniedEvent g (some (.str reason))) where
  object := makeEvent_object g 0 "denied" _ false none 0 (by decide)
    (fun r hr => ⟨reason, (Option.some.inj hr).symm⟩) hredacted
  denial := by simp [deniedEvent]
  privileged := by simp [deniedEvent]

theorem Attests.conforms {g : Governed} {entropy : UInt64} {result : Except X V} {event : PyVal}
    (h : Attests g entropy result event)
    (hredacted : ∀ v, g.argsRedacted = some v → v.isDict = true) : Conforms event := by
  obtain ⟨latencyMs, failOpen, grant, rfl, hhigh⟩ := h.made
  have hout : outcomeOf result = "allowed" ∨ outcomeOf result = "error" := by
    cases result with
    | ok v => exact Or.inl rfl
    | error x => exact Or.inr rfl
  have hne : outcomeOf result ≠ "denied" := by
    obtain h | h := hout <;> rw [h] <;> decide
  refine ⟨makeEvent_object g latencyMs _ none failOpen grant entropy ?_ (by simp) hredacted, ?_, ?_⟩
  · obtain h | h := hout <;> rw [h] <;> decide
  · simp [hne]
  · intro hpriv
    have hpriv : failOpen = true ∨ grant.isSome = true := by
      refine hpriv.imp ?_ ?_
      · simp
      · intro hgrant
        obtain ⟨v, hv⟩ := hgrant
        cases grant with
        | none => simp at hv
        | some id => rfl
    refine ⟨?_, g.tool.riskTier.toString, highRisk_mem _ (hhigh hpriv), makeEvent_riskTier ..⟩
    rw [makeEvent_outcome]
    simpa using hne

theorem redactSafe_isDict (redactStr : String → Option String) (kvs : List (PyKey × PyVal)) :
    (redactSafe redactStr kvs).isDict = true := by
  unfold redactSafe
  cases hr : redact redactStr (.dict kvs) with
  | none => rfl
  | some v =>
    rw [redact, Option.map_eq_some_iff] at hr
    obtain ⟨entries, -, rfl⟩ := hr
    rfl

theorem argsRedacted_isDict (d : Decorator) (call : CallArgs) (v : PyVal)
    (hv : d.argsRedacted call = some v) : v.isDict = true := by
  cases d with
  | instrumentedTool => cases hv
  | instrumentedLlm redactStr =>
    rw [← Option.some.inj hv]
    exact redactSafe_isDict redactStr call.rawItems

/-! ## What the reading has seen -/

/-- The event of a denial for this reason. -/
structure Denies (reason event : PyVal) : Prop where
  outcome : eventField event "outcome" = some (.str "denied")
  reason : eventField event "denied_reason" = some reason

theorem deniedEvent_denies (g : Governed) (reason : PyVal) :
    Denies reason (deniedEvent g (some reason)) where
  outcome := makeEvent_outcome ..
  reason := makeEvent_deniedReason ..

/-- A stage of the reading, and the conversation up to there. -/
def Seen (mode : Mode) (call : CallArgs) :
    Progress V X → List (CallEvent V X) → Prop
  | .checking p, tr => ∀ answer, p = some answer → ∃ e ∈ tr, preflightOf e = some answer
  | .denied p sink reason, tr =>
    (∀ answer, p = some answer → ∃ e ∈ tr, preflightOf e = some answer) ∧ Explains p reason ∧
      ∃ event, (sink, event) ∈ audits tr ∧ Denies reason event
  | .ran result, tr => ⟨.execute mode call, result⟩ ∈ tr
  | .recorded result _, tr => ⟨.execute mode call, result⟩ ∈ tr

section Seen

variable {g : Governed} {mode : Mode} {call : CallArgs} {entropy : UInt64}

theorem seen_step (s : Progress V X) (e : CallEvent V X) (s' : Progress V X)
    (before : List (CallEvent V X)) (hs : Seen mode call s before)
    (he : Records g mode call entropy s e s') : Seen mode call s' (before ++ [e]) := by
  have hold {p : Option HttpAnswer} (hp : ∀ answer, p = some answer → ∃ e ∈ before,
      preflightOf e = some answer) (answer : HttpAnswer) (ha : p = some answer) :
      ∃ e' ∈ before ++ [e], preflightOf e' = some answer := by
    obtain ⟨e', hmem, hpre⟩ := hp answer ha
    exact ⟨e', List.mem_append_left _ hmem, hpre⟩
  cases he with
  | quiet p _ hq =>
    intro answer ha
    cases hpre : preflightOf e with
    | none => exact hold hs answer (by rwa [hpre] at ha)
    | some answer' =>
      rw [hpre, Option.some_or] at ha
      exact ⟨e, by simp, by rw [hpre, ha]⟩
  | deny p reason hr =>
    exact ⟨hold hs, hr, deniedEvent g (some reason), by simp [audits, auditOf],
      deniedEvent_denies g reason⟩
  | spill p reason hr =>
    refine ⟨hold hs, ?_, deniedEvent g (some reason), by simp [audits, auditOf],
      deniedEvent_denies g reason⟩
    rw [hr]
    exact .code _ (by decide)
  | execute p result =>
    show (⟨.execute mode call, result⟩ : CallEvent V X) ∈ before ++ [⟨.execute mode call, result⟩]
    simp
  | clock result now => exact List.mem_append_left _ hs
  | record result event hattests => exact List.mem_append_left _ hs

theorem seen_start : Seen mode call (.checking none : Progress V X) [] := by
  intro answer ha
  cases ha

theorem seen_of_follows {tr : List (CallEvent V X)} {s : Progress V X}
    (h : Follows (Records g mode call entropy) (.checking none) tr s) : Seen mode call s tr := by
  have hseen := h.history (Seen mode call) seen_step [] seen_start
  rwa [List.nil_append] at hseen

end Seen

/-! ## To sigil-core -/

/-- The `denied_reason` of a preflight answer is a string or missing, as §3.2 has it. -/
def WellSpoken (answer : HttpAnswer) : Prop :=
  ∀ kvs reason, answer.json? 200 = some (.dict kvs) →
    kvs.lookup (.str "denied_reason") = some reason → reason.truthy = true → ∃ s, reason = .str s

theorem Explains.text {p : Option HttpAnswer} {reason : PyVal} (h : Explains p reason)
    (hp : ∀ answer, p = some answer → WellSpoken answer) : ∃ s, reason = .str s := by
  cases h with
  | code reason hr => exact ⟨reason, rfl⟩
  | server answer kvs reason ha hv hr ht => exact hp answer ha kvs reason hv hr ht

theorem records_conform {g : Governed} {mode : Mode} {call : CallArgs} {entropy : UInt64}
    (hredacted : ∀ v, g.argsRedacted = some v → v.isDict = true) {s s' : Progress V X}
    {before tr : List (CallEvent V X)} (hs : Seen mode call s before)
    (h : Follows (Records g mode call entropy) s tr s')
    (hserver : ∀ e ∈ before ++ tr, ∀ answer, preflightOf e = some answer → WellSpoken answer) :
    ∀ a ∈ audits tr, Conforms a.2 := by
  induction h generalizing before with
  | nil s => simp [audits]
  | cons s s₁ s₂ e tr he _ ih =>
    have hrest := ih (seen_step s e s₁ before hs he) fun e' he' => hserver e' (by simpa using he')
    have hheard (p : Option HttpAnswer) (hp : ∀ answer, p = some answer →
        ∃ e ∈ before, preflightOf e = some answer) (answer : HttpAnswer) (ha : p = some answer) :
        WellSpoken answer := by
      obtain ⟨e', hmem, hpre⟩ := hp answer ha
      exact hserver e' (List.mem_append_left _ hmem) answer hpre
    intro a ha
    obtain hhead | htail : auditOf e = some a ∨ a ∈ audits tr := by
      simpa [audits, List.mem_filterMap, List.filterMap_cons, eq_comm, or_comm] using
        (List.mem_filterMap (f := auditOf)).mp ha
    · cases he with
      | quiet p _ hq => rw [hq.1] at hhead; cases hhead
      | deny p reason hr =>
        obtain ⟨reason, rfl⟩ := hr.text (hheard p hs)
        rw [← Option.some.inj hhead]
        exact deniedEvent_conforms g reason hredacted
      | spill p reason hr =>
        rw [← Option.some.inj hhead, hr]
        exact deniedEvent_conforms g _ hredacted
      | execute p result => cases hhead
      | clock result now => cases hhead
      | record result event hattests =>
        rw [← Option.some.inj hhead]
        exact hattests.conforms hredacted
    · exact hrest a htail

/-- **Every audit event keeps to the envelope.** Whatever a call is answered, and however far it
gets, what it records has the required fields, no others than the optional ones, each once and of
its kind; a reason for a denial and only for one; and `fail_open` and `approval_grant_id` only for
executions of a high-risk tool. -/
theorem events_conform (d : Decorator) (mode : Mode) (h : Host)
    (current : Option (SigilClient × SigilTaskContext)) (tool : Tool) (call : CallArgs) (fuel : ℕ)
    (tr : List (CallEvent V X)) (r : Dialogue.Result (Exc X) V)
    (hplays : Plays (wrapper d mode h current tool call fuel : Call V X V) tr r)
    (hserver : ∀ e ∈ tr, ∀ answer, preflightOf e = some answer → WellSpoken answer) :
    ∀ a ∈ audits tr, Conforms a.2 := by
  cases current with
  | none =>
    rw [wrapper_eq] at hplays
    cases hplays <;> simp [audits]
  | some current =>
    obtain ⟨c, task⟩ := current
    cases hah : call.raw.argsHash h with
    | none =>
      rw [wrapper_eq, governedCall_unhashed h c task tool mode call _ _ fuel hah] at hplays
      cases hplays <;> simp [audits]
    | some ah =>
      obtain ⟨s, hfollows, -⟩ := wrapper_guided h c task d mode tool call ah hah fuel tr r hplays
      exact records_conform (argsRedacted_isDict d call) seen_start hfollows hserver

theorem killedCall_plays : Plays (wrapper .instrumentedTool .sync Verify.sampleHost
    (some (sampleClient, sampleTask)) sampleTool noArgs (pollFuel sampleClient) : Call ℕ String ℕ)
    [⟨.isRevoked "a1" "k1", true⟩,
      ⟨.push (deniedEvent sampleGoverned (some (.str "agent_revoked"))), ()⟩]
    (.raised (.denied (sampleGoverned.denied (.str "agent_revoked")
      "Agent or task is revoked; call to 'a.b' denied"))) :=
  Dialogue.plays_run killedScript.env (wrapper .instrumentedTool .sync Verify.sampleHost
    (some (sampleClient, sampleTask)) sampleTool noArgs (pollFuel sampleClient)) .start

/-- Every preflight answer of a script is its own. -/
theorem script_preflightOf (S : Script V X) {α : Type} (p : Call V X α) (m : Moment) :
    ∀ e ∈ (S.play p m).events, ∀ answer, preflightOf e = some answer → answer = S.preflight := by
  rintro ⟨q, a⟩ he answer hpre
  obtain ⟨t, ha⟩ := Dialogue.run_answered S.env p m _ he
  have ha : a = (S.answer q t).1 := ha
  cases q with
  | http r =>
    unfold preflightOf at hpre
    cases hroute : r.route with
    | preflight =>
      simp only [hroute] at hpre
      simp only [Script.answer, hroute] at ha
      rw [← Option.some.inj hpre, ha]
    | _ =>
      simp only [hroute] at hpre
      cases hpre
  | _ => cases hpre

theorem sampleScript_wellSpoken : WellSpoken sampleScript.preflight := by
  intro kvs reason hjson hreason
  have hkvs : kvs = [(.str "verdict", .str "approve"), (.str "approval_id", .str "ap1")] := by
    have hsome := Option.some.inj hjson
    injection hsome with hsome
    exact hsome.symm
  rw [hkvs] at hreason
  cases hreason

/-- An approved call is executed, and what is recorded of it keeps to the envelope. -/
theorem events_conform_sample : executions (sampleCall sampleScript).events = [(.sync, noArgs)] ∧
    ∃ event, audits (sampleCall sampleScript).events = [(.buffer, event)] ∧ Conforms event := by
  have hone : (audits (sampleCall sampleScript).events).map Prod.fst = [.buffer] := by decide +kernel
  have hall := events_conform .instrumentedTool .sync Verify.sampleHost
    (some (sampleClient, sampleTask)) sampleTool noArgs (pollFuel sampleClient) _ _
    (Dialogue.plays_run sampleScript.env _ .start) fun e he answer ha => by
      rw [script_preflightOf sampleScript _ _ e he answer ha]
      exact sampleScript_wellSpoken
  refine ⟨sampleCall_executions sampleScript (sampleScript_permitted none), ?_⟩
  obtain ⟨⟨sink, event⟩, haudits, hsink⟩ := List.map_eq_singleton_iff.mp hone
  cases hsink
  exact ⟨event, haudits, hall (.buffer, event) (haudits ▸ List.mem_cons_self)⟩

/-! ## To the caller -/

/-- The task a denial names; none is active in a call that is denied for that. -/
def namedTask : Option (SigilClient × SigilTaskContext) → String
  | some (_, task) => strOr task.taskId ""
  | none => ""

/-- A code of the SDK, or the reason sigil-core gave in this conversation. -/
def Reasoned (tr : List (CallEvent V X)) (reason : PyVal) : Prop :=
  (∃ code ∈ "no_task" :: denialCodes, reason = .str code) ∨
    ∃ e ∈ tr, ∃ answer kvs, preflightOf e = some answer ∧ answer.json? 200 = some (.dict kvs) ∧
      kvs.lookup (.str "denied_reason") = some reason

/-- The exceptions a caller may get to see. -/
inductive Escapes (current : Option (SigilClient × SigilTaskContext)) (tool : Tool) (mode : Mode)
    (call : CallArgs) (tr : List (CallEvent V X)) : Exc X → Prop where
  | denied (d : Denied) (htool : d.toolName = tool.fqn) (htask : d.taskId = namedTask current)
      (hreason : Reasoned tr d.deniedReason)
      (hspilled : d.unreachable = true →
        ∃ event, (Sink.overflow, event) ∈ audits tr ∧ Denies d.deniedReason event) :
      Escapes current tool mode call tr (.denied d)
  | builtin (e : PyError) : Escapes current tool mode call tr (.py e)
  | function (x : X) (hx : ⟨.execute mode call, .error x⟩ ∈ tr) :
      Escapes current tool mode call tr (.raised x)

/-- How a conversation ends, as its caller sees it. -/
structure Ends (current : Option (SigilClient × SigilTaskContext)) (tool : Tool) (mode : Mode)
    (call : CallArgs) (tr : List (CallEvent V X)) (r : Dialogue.Result (Exc X) V) : Prop where
  returned : ∀ v, r = .returned v → ⟨.execute mode call, .ok v⟩ ∈ tr
  raised : ∀ e, r = .raised e → Escapes current tool mode call tr e

section Ends

variable {current : Option (SigilClient × SigilTaskContext)} {tool : Tool} {mode : Mode}
  {call : CallArgs} {tr : List (CallEvent V X)}

theorem unfinished_ends : Ends current tool mode call tr .unfinished where
  returned v hv := by cases hv
  raised e he := by cases he

theorem raised_ends {e : Exc X} (he : Escapes current tool mode call tr e) :
    Ends current tool mode call tr (.raised e) where
  returned v hv := by cases hv
  raised e' he' := by
    cases he'
    exact he

end Ends

theorem Explains.reasoned {p : Option HttpAnswer} {reason : PyVal} {tr : List (CallEvent V X)}
    (h : Explains p reason) (hp : ∀ answer, p = some answer → ∃ e ∈ tr, preflightOf e = some answer) :
    Reasoned tr reason := by
  cases h with
  | code reason hr => exact Or.inl ⟨reason, List.mem_cons_of_mem _ hr, rfl⟩
  | server answer kvs reason ha hv hr ht =>
    obtain ⟨e, he, hpre⟩ := hp answer ha
    exact Or.inr ⟨e, he, answer, kvs, hpre, hv, hr⟩

section Concludes

variable {c : SigilClient} {task : SigilTaskContext} {tool : Tool} {call : CallArgs} {ah : String}
  {d : Decorator} {mode : Mode} {tr : List (CallEvent V X)} {s : Progress V X}

theorem Concludes.escapes {e : Exc X}
    (h : Concludes task (d.governed c task tool call ah) (.error e : Except (Exc X) V) s)
    (hs : Seen mode call s tr) : Escapes (some (c, task)) tool mode call tr e := by
  generalize hx : (Except.error e : Except (Exc X) V) = x at h
  cases h with
  | crashed e' p =>
    cases hx
    exact .builtin e'
  | unissued d' p hd =>
    cases hx
    rw [hd.2]
    exact .denied _ rfl rfl (Or.inl ⟨"token_invalid", by decide, rfl⟩) fun h => by cases h
  | denied d' p sink htool htask hsink =>
    cases hx
    obtain ⟨hp, hexplains, event, hevent, hdenies⟩ := hs
    refine .denied d' htool htask (hexplains.reasoned hp) fun hunreachable => ⟨event, ?_, hdenies⟩
    rwa [hsink hunreachable] at hevent
  | executed result event =>
    cases result with
    | ok v => cases hx
    | error x =>
      cases hx
      exact .function x hs

theorem Concludes.returned {v : V}
    (h : Concludes task (d.governed c task tool call ah) (.ok v : Except (Exc X) V) s)
    (hs : Seen mode call s tr) : ⟨.execute mode call, .ok v⟩ ∈ tr := by
  generalize hx : (Except.ok v : Except (Exc X) V) = x at h
  cases h with
  | crashed e p => cases hx
  | unissued d p hd => cases hx
  | denied d p sink htool htask hsink => cases hx
  | executed result event =>
    cases result with
    | ok v =>
      cases hx
      exact hs
    | error x => cases hx

end Concludes

/-- **How a call ends for its caller.** A call that returns returns what the wrapped function did. A
call that raises raises a denial that names this tool and task, for a reason of the SDK or the one
sigil-core gave, or what the wrapped function raised, or a built-in exception: never a
`SigilTransportError` or a `SigilAPIError`. Before a `SigilUnreachableDeniedError` the denial has been
handed to the overflow writer. -/
theorem call_ends (d : Decorator) (mode : Mode) (h : Host)
    (current : Option (SigilClient × SigilTaskContext)) (tool : Tool) (call : CallArgs) (fuel : ℕ)
    (tr : List (CallEvent V X)) (r : Dialogue.Result (Exc X) V)
    (hplays : Plays (wrapper d mode h current tool call fuel : Call V X V) tr r) :
    Ends current tool mode call tr r := by
  cases current with
  | none =>
    rw [wrapper_eq] at hplays
    cases hplays with
    | cut => exact unfinished_ends
    | fail =>
      refine raised_ends ?_
      exact .denied _ rfl rfl (Or.inl ⟨"no_task", by decide, rfl⟩) fun h => by cases h
  | some current =>
    obtain ⟨c, task⟩ := current
    cases hah : call.raw.argsHash h with
    | none =>
      rw [wrapper_eq, governedCall_unhashed h c task tool mode call _ _ fuel hah] at hplays
      cases hplays with
      | cut => exact unfinished_ends
      | fail => exact raised_ends (.builtin _)
    | some ah =>
      obtain ⟨s, hfollows, hends⟩ := wrapper_guided h c task d mode tool call ah hah fuel tr r hplays
      have hseen := seen_of_follows hfollows
      refine ⟨fun v hv => ?_, fun e he => ?_⟩
      · exact (hends (.ok v) hv).returned hseen
      · exact (hends (.error e) he).escapes hseen

theorem call_ends_killed : Escapes (V := ℕ) (X := String) (some (sampleClient, sampleTask)) sampleTool
    .sync noArgs [⟨.isRevoked "a1" "k1", true⟩,
      ⟨.push (deniedEvent sampleGoverned (some (.str "agent_revoked"))), ()⟩]
    (.denied (sampleGoverned.denied (.str "agent_revoked")
      "Agent or task is revoked; call to 'a.b' denied")) :=
  (call_ends .instrumentedTool .sync Verify.sampleHost (some (sampleClient, sampleTask)) sampleTool
    noArgs (pollFuel sampleClient) _ _ killedCall_plays).raised _ rfl

end Sigil.Gate
