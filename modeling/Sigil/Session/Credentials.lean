import Sigil.Gate.Attribution
import Sigil.Gate.Wrappers
import Sigil.Session.Task

/-! # Credentials do not flow

Two runs of a task that differ in the token of the task and in the service token of the client, and
in nothing else the world answers, record the same and raise the same.
-/
set_option autoImplicit false

namespace Sigil.Session

open Audit (FlushAnswer FlushQuestion Flush OverflowWriter doFlushWithin replayWithin)
open Dialogue (Agree Environment EndsAlike Likeness Matches Resemble agree_ofExcept agree_query_bind
  query run)
open Gate (Counterparts Moment Script Tool afterIssue enter_eq governedCall_agree verifyTask wrapper
  wrapper_eq withoutFields)
open Gate.Counterparts (receive_congr)

variable {V X α σ σ' : Type}

/-! ## What is the same in both runs -/

def withInternalToken (c : SigilClient) (token : String) (hne : token ≠ "") : SigilClient :=
  { c with internalToken := token, internalToken_ne := hne }

/-- The request without the credentials it carries. -/
def anonymous (r : Request) : Request :=
  { r with
    headers := r.headers.filter fun kv => kv.1 ≠ "X-Internal-Service-Token"
    body := r.body.map (withoutFields ["token"]) }

inductive LikeQuestion : SessionQuestion → SessionQuestion → Prop where
  | refl (q : SessionQuestion) : LikeQuestion q q
  | http (r r' : Request) (hr : anonymous r = anonymous r') :
      LikeQuestion (.call (.http r)) (.call (.http r'))
  | logBatch (events : List PyVal) (r r' : Request) (hr : anonymous r = anonymous r') :
      LikeQuestion (.logBatch events r) (.logBatch events r')

section Alike

variable (h : Host) (c : SigilClient) (tools : List Tool) (tok tok' : PyVal)

/-- `verify_local` makes the same of both tokens: on entering the task, and in calls of `tools`. -/
structure TokensAlike (now : DateTime) : Prop where
  entering : c.biscuitKeyring.entries.isEmpty = false →
    verifyToken h tok c.biscuitKeyring (orNone c.activeKid) none none now =
      verifyToken h tok' c.biscuitKeyring (orNone c.activeKid) none none now
  calling : ∀ tool ∈ tools, verifyTask h c tok tool now = verifyTask h c tok' tool now

/-- One and the same answer without a token, or an answer with each token. -/
inductive IssuedAlike : HttpAnswer → HttpAnswer → Prop where
  | refused (a : HttpAnswer)
      (ha : ∀ v, a.json? 201 = some v → ∀ t, v.getItem "biscuit_token" ≠ .ok t) : IssuedAlike a a
  | issued (a a' : HttpAnswer) (v v' : PyVal) (ha : a.json? 201 = some v)
      (ha' : a'.json? 201 = some v') (ht : v.getItem "biscuit_token" = .ok tok)
      (ht' : v'.getItem "biscuit_token" = .ok tok') : IssuedAlike a a'

/-- Neither a reading of the clock nor a request. -/
def Plain : SessionQuestion → Prop
  | .call .utcNow | .call (.http _) => False
  | _ => True

inductive LikeEvent : SessionEvent V X → SessionEvent V X → Prop where
  | plain (q : SessionQuestion) (a : SessionAnswer V X q) (hq : Plain q) : LikeEvent ⟨q, a⟩ ⟨q, a⟩
  | clock (now : DateTime) (hnow : TokensAlike h c tools tok tok' now) :
      LikeEvent ⟨.call .utcNow, now⟩ ⟨.call .utcNow, now⟩
  | http (r r' : Request) (a : HttpAnswer) (hr : anonymous r = anonymous r')
      (hroute : r.route ≠ .issueToken) : LikeEvent ⟨.call (.http r), a⟩ ⟨.call (.http r'), a⟩
  | issue (r r' : Request) (a a' : HttpAnswer) (hr : anonymous r = anonymous r')
      (hroute : r.route = .issueToken) (ha : IssuedAlike tok tok' a a') :
      LikeEvent ⟨.call (.http r), a⟩ ⟨.call (.http r'), a'⟩
  | logBatch (events : List PyVal) (r r' : Request) (a : HttpAnswer)
      (hr : anonymous r = anonymous r') : LikeEvent ⟨.logBatch events r, a⟩ ⟨.logBatch events r', a⟩

def credentialLikeness : Likeness SessionQuestion (SessionAnswer V X) where
  same := LikeQuestion
  alike := LikeEvent h c tools tok tok'

/-- The same, of the questions of a call. -/
def callLikeness : Likeness Question (Answer V X) where
  same q q' := LikeQuestion (.call q) (.call q')
  alike e e' := LikeEvent h c tools tok tok' (V := V) (X := X) ⟨.call e.1, e.2⟩ ⟨.call e'.1, e'.2⟩

end Alike

/-! ## Requests -/

section Requests

variable (c : SigilClient) (token : String) (hne : token ≠ "") (tok tok' : PyVal)

theorem toolgateHeaders_anonymous :
    (withInternalToken c token hne).toolgateHeaders.filter
        (fun kv => kv.1 ≠ "X-Internal-Service-Token") =
      c.toolgateHeaders.filter fun kv => kv.1 ≠ "X-Internal-Service-Token" := by
  unfold SigilClient.toolgateHeaders
  show List.filter _ (if c.agentId = "" then _ else _ ++ [("X-Sigil-Agent-ID", c.agentId)]) = _
  split
  · rfl
  · rw [List.filter_append, List.filter_append]
    rfl

theorem preflightRequest_anonymous (toolNamespace toolName argsHash agentId taskId : String) :
    anonymous (c.preflightRequest tok toolNamespace toolName argsHash agentId taskId) =
      anonymous ((withInternalToken c token hne).preflightRequest tok' toolNamespace toolName argsHash
        agentId taskId) := by
  unfold anonymous SigilClient.preflightRequest
  rw [toolgateHeaders_anonymous]
  rfl

theorem approvalRequest_anonymous (id : String) :
    anonymous (c.approvalRequest id) =
      anonymous ((withInternalToken c token hne).approvalRequest id) := by
  unfold anonymous SigilClient.approvalRequest
  rw [toolgateHeaders_anonymous]
  rfl

theorem redeemRequest_anonymous (id : String) :
    anonymous (c.redeemRequest id tok) =
      anonymous ((withInternalToken c token hne).redeemRequest id tok') := by
  unfold anonymous SigilClient.redeemRequest
  rw [toolgateHeaders_anonymous]
  rfl

theorem logBatchRequest_anonymous (events : List PyVal) :
    anonymous (c.logBatchRequest events) =
      anonymous ((withInternalToken c token hne).logBatchRequest events) := by
  unfold anonymous SigilClient.logBatchRequest
  rw [toolgateHeaders_anonymous]
  rfl

theorem issueRequest_anonymous (agentId serviceAccountId taskId : String)
    (toolAllowlist : List String) (ttlSeconds : ℤ) (attenuationRoot : Option String) :
    anonymous (c.issueRequest agentId serviceAccountId taskId toolAllowlist ttlSeconds
        attenuationRoot) =
      anonymous ((withInternalToken c token hne).issueRequest agentId serviceAccountId taskId
        toolAllowlist ttlSeconds attenuationRoot) := rfl

end Requests

/-! ## Calls -/

section Agreement

variable {h : Host} {c : SigilClient} {tools : List Tool} {tok tok' : PyVal} (token : String)
  (hne : token ≠ "")

theorem LikeEvent.eq_of_plain {q : SessionQuestion} {a a' : SessionAnswer V X q} (hq : Plain q)
    (ha : LikeEvent h c tools tok tok' (V := V) (X := X) ⟨q, a⟩ ⟨q, a'⟩) : a = a' := by
  cases ha with
  | plain => rfl
  | clock => rfl
  | http => rfl
  | issue => exact hq.elim
  | logBatch => rfl

theorem LikeEvent.eq_of_logBatch {events : List PyVal} {r r' : Request} {a a' : HttpAnswer}
    (ha : LikeEvent h c tools tok tok' (V := V) (X := X) ⟨.logBatch events r, a⟩
      ⟨.logBatch events r', a'⟩) : a = a' := by
  cases ha with
  | plain => rfl
  | logBatch => rfl

theorem corresponds_plain (q : Question) (hq : Plain (.call q)) :
    Gate.Corresponds (callLikeness h c tools tok tok' : Likeness Question (Answer V X)) q q :=
  ⟨.refl _, fun _ _ ha => heq_of_eq (LikeEvent.eq_of_plain hq ha)⟩

theorem corresponds_http (r r' : Request) (hr : anonymous r = anonymous r')
    (hroute : r.route ≠ .issueToken) :
    Gate.Corresponds (callLikeness h c tools tok tok' : Likeness Question (Answer V X)) (.http r)
      (.http r') := by
  refine ⟨.http r r' hr, fun a a' ha => heq_of_eq ?_⟩
  have hlike : LikeEvent h c tools tok tok' (V := V) (X := X) ⟨.call (.http r), a⟩
      ⟨.call (.http r'), a'⟩ := ha
  cases hlike with
  | plain => rfl
  | http => rfl
  | issue _ _ _ _ _ hissue => exact absurd hissue hroute

theorem call_counterparts (hnone : tok.isNone = tok'.isNone) (task : SigilTaskContext)
    (htask : task.biscuitToken = tok) (tool : Tool) (htool : tool ∈ tools) (mode : Mode)
    (call : CallArgs) (ah : String) (argsRedacted : Option PyVal) (entropy : UInt64) :
    Counterparts (callLikeness h c tools tok tok' : Likeness Question (Answer V X)) h c
      (withInternalToken c token hne) task { task with biscuitToken := tok' }
      (Gate.governed c task tool ah argsRedacted)
      (Gate.governed (withInternalToken c token hne) { task with biscuitToken := tok' } tool ah
        argsRedacted) mode mode call entropy entropy where
  baseUrl := rfl
  failMode := rfl
  killSwitchFailMode := rfl
  approvalTimeout := rfl
  approvalPollInterval := rfl
  untokened := htask ▸ hnone
  taskId := rfl
  tool := rfl
  isRevoked := corresponds_plain _ trivial
  isKillSwitchHealthy := corresponds_plain _ trivial
  monotonic := corresponds_plain _ trivial
  utcNow := .refl _
  verified := fun now now' ha => by
    have hlike : LikeEvent h c tools tok tok' (V := V) (X := X) ⟨.call .utcNow, now⟩
        ⟨.call .utcNow, now'⟩ := ha
    rw [htask]
    cases hlike with
    | plain _ _ hq => exact hq.elim
    | clock _ hnow => exact hnow.calling tool htool
  preflight := corresponds_http _ _ (preflightRequest_anonymous c token hne _ _ _ _ _ _ _) nofun
  status := fun id => corresponds_http _ _ (approvalRequest_anonymous c token hne id) nofun
  redeem := fun id => corresponds_http _ _ (redeemRequest_anonymous c token hne _ _ id) nofun
  sleep := fun seconds => corresponds_plain _ trivial
  denied := fun reason => .refl _
  spilled := fun reason => .refl _
  recorded := fun latencyMs outcome failOpen grant => .refl _
  executed := corresponds_plain _ trivial

theorem inSession_agree {α' : Type} {post : α → α' → Prop} {p : Call V X α} {p' : Call V X α'}
    (hp : Agree (callLikeness h c tools tok tok') post p p') :
    Agree (credentialLikeness h c tools tok tok') post (inSession p) (inSession p') :=
  hp.interpret fun _ _ hq => .ask _ _ _ _ hq fun a a' ha => .done a a' ha

/-! ## The flusher -/

theorem flushAsked_agree (q : FlushQuestion) :
    Agree (credentialLikeness h c tools tok tok' : Likeness SessionQuestion (SessionAnswer V X))
      (· = ·) (flushAsked c q) (flushAsked (withInternalToken c token hne) q) := by
  cases q with
  | logBatch source events =>
    refine agree_query_bind (.logBatch _ _ _ (logBatchRequest_anonymous c token hne events))
      fun answer answer' ha => ?_
    refine .done _ _ ?_
    rw [LikeEvent.eq_of_logBatch ha]
    unfold SigilClient.logBatch
    rw [receive_congr "log_batch" 202 _ ((withInternalToken c token hne).logBatchRequest events)
      answer' rfl rfl]
    rfl
  | _ => exact .ask _ _ _ _ (.refl _) fun a a' ha => .done a a' (LikeEvent.eq_of_plain trivial ha)

theorem flusher_agree (p : Flush α) :
    Agree (credentialLikeness h c tools tok tok' : Likeness SessionQuestion (SessionAnswer V X))
      (· = ·) (flusher c p) (flusher (withInternalToken c token hne) p) := by
  have hself : Agree (⟨(· = ·), (· = ·)⟩ : Likeness FlushQuestion FlushAnswer) (· = ·) p p :=
    Agree.refl p (fun _ => rfl) fun q a a' ha => eq_of_heq (Sigma.mk.inj ha).2
  refine hself.interpret ?_
  rintro q _ rfl
  exact (flushAsked_agree token hne q).mono fun a a' ha => congrArg (Sigma.mk q) ha

/-! ## Entering the task -/

/-- The tasks entered differ in their tokens only. -/
def Entered (tok tok' : PyVal) (task task' : SigilTaskContext) : Prop :=
  task.biscuitToken = tok ∧ task' = { task with biscuitToken := tok' }

theorem afterIssue_agree (t : SigilTaskContext) (taskId : String) (r r' : Request)
    (hmethod : r.method = r'.method) (hurl : r.url = r'.url) (a a' : HttpAnswer)
    (ha : IssuedAlike tok tok' a a') :
    Agree (callLikeness h c tools tok tok' : Likeness Question (Answer V X)) (Entered tok tok')
      (afterIssue h c t taskId r a)
      (afterIssue h (withInternalToken c token hne) t taskId r' a') := by
  unfold afterIssue
  rw [receive_congr "issue_token" 201 r r' a hmethod hurl]
  cases ha with
  | refused hnone =>
    cases hv : a.json? 201 with
    | none =>
      obtain ⟨e, he, -⟩ := Gate.receive_of_no_json (X := X) "issue_token" 201 r' a hv
      rw [he]
      exact .fail e
    | some v =>
      rw [Gate.receive_of_json "issue_token" 201 r' a v hv]
      cases hitem : v.getItem "biscuit_token" with
      | error e =>
        simp only [Dialogue.ofExcept, Dialogue.done_bind, hitem, liftPy, Dialogue.fail_bind]
        exact .fail _
      | ok t => exact absurd hitem (hnone v hv t)
  | issued a' v v' hv hv' ht ht' =>
    rw [Gate.receive_of_json "issue_token" 201 r' a v hv,
      Gate.receive_of_json "issue_token" 201 r' a' v' hv']
    simp only [Dialogue.ofExcept, Dialogue.done_bind, ht, ht', liftPy]
    show Agree _ _ (if c.biscuitKeyring.entries.isEmpty then _ else _)
      (if c.biscuitKeyring.entries.isEmpty then _ else _)
    split
    · exact .done _ _ ⟨rfl, rfl⟩
    · next hkeys =>
      refine agree_query_bind (.refl _) fun now now' hnow => ?_
      have hlike : LikeEvent h c tools tok tok' (V := V) (X := X) ⟨.call .utcNow, now⟩
          ⟨.call .utcNow, now'⟩ := hnow
      cases hlike with
      | plain _ _ hq => exact hq.elim
      | clock _ halike =>
        have hsame := halike.entering (Bool.eq_false_of_not_eq_true hkeys)
        show Agree _ _ (liftPy (verifyToken h tok c.biscuitKeyring (orNone c.activeKid) none none now)
          >>= _) (liftPy (verifyToken h tok' c.biscuitKeyring (orNone c.activeKid) none none now)
          >>= _)
        rw [← hsame]
        cases verifyToken h tok c.biscuitKeyring (orNone c.activeKid) none none now with
        | error e => exact .fail _
        | ok result => exact .done _ _ ⟨rfl, rfl⟩

theorem enter_agree (t : SigilTaskContext) :
    Agree (callLikeness h c tools tok tok' : Likeness Question (Answer V X)) (Entered tok tok')
      (t.enter h c) (t.enter h (withInternalToken c token hne)) := by
  rw [enter_eq, enter_eq]
  refine .ask _ _ _ _ (.refl _) fun taskId taskId' hid => ?_
  have hsame : taskId = taskId' := LikeEvent.eq_of_plain (q := .call .uuid4) trivial hid
  rw [← hsame]
  refine .ask _ _ _ _ (.http _ _ (issueRequest_anonymous c token hne _ _ _ _ _ _)) fun a a' ha => ?_
  have hlike : LikeEvent h c tools tok tok' (V := V) (X := X) ⟨.call (.http _), a⟩
      ⟨.call (.http _), a'⟩ := ha
  refine afterIssue_agree token hne t taskId _ _ rfl rfl a a' ?_
  cases hlike with
  | plain _ _ hq => exact hq.elim
  | http _ _ _ _ hroute => exact absurd rfl hroute
  | issue _ _ _ _ _ _ halike => exact halike

/-! ## The task -/

theorem runOp_agree (hnone : tok.isNone = tok'.isNone) (L : Json.Limits) (w : OverflowWriter) (fuel rounds : ℕ)
    (task : SigilTaskContext) (htask : task.biscuitToken = tok) (op : Op)
    (hop : ∀ tool ∈ op.tools, tool ∈ tools) :
    Agree (credentialLikeness h c tools tok tok' : Likeness SessionQuestion (SessionAnswer V X))
      (· = ·) (runOp h L w fuel rounds c task op)
      (runOp h L w fuel rounds (withInternalToken c token hne) { task with biscuitToken := tok' } op) := by
  cases op with
  | call d mode tool args =>
    have hcall := governedCall_agree h c (withInternalToken c token hne) task
      { task with biscuitToken := tok' } mode mode tool args (d.argsRedacted args)
      (d.argsRedacted args) (d.promptEntropy h args) (d.promptEntropy h args) fuel fun ah =>
        call_counterparts (V := V) (X := X) token hne hnone task htask tool
          (hop tool (List.mem_singleton_self tool)) mode args ah (d.argsRedacted args)
          (d.promptEntropy h args)
    rw [← wrapper_eq, ← wrapper_eq] at hcall
    refine (inSession_agree hcall).attempt.bind fun result result' hr => ?_
    rw [hr.eq]
    exact .done _ _ rfl
  | flush =>
    refine (flusher_agree token hne (doFlushWithin h L w rounds)).attempt.bind fun result result' hr => ?_
    rw [hr.eq]
    exact .done _ _ rfl
  | replay =>
    refine (flusher_agree token hne (replayWithin h L w)).attempt.bind fun result result' hr => ?_
    rw [hr.eq]
    exact .done _ _ rfl

theorem runOps_agree (hnone : tok.isNone = tok'.isNone) (L : Json.Limits) (w : OverflowWriter) (fuel rounds : ℕ)
    (task : SigilTaskContext) (htask : task.biscuitToken = tok) (ops : List Op)
    (hops : ∀ tool ∈ ops.flatMap Op.tools, tool ∈ tools) :
    Agree (credentialLikeness h c tools tok tok' : Likeness SessionQuestion (SessionAnswer V X))
      (· = ·) (runOps h L w fuel rounds c task ops)
      (runOps h L w fuel rounds (withInternalToken c token hne) { task with biscuitToken := tok' }
        ops) := by
  induction ops with
  | nil => exact .done _ _ rfl
  | cons op ops ih =>
    rw [List.flatMap_cons] at hops
    refine (runOp_agree token hne hnone L w fuel rounds task htask op fun tool ht =>
      hops tool (List.mem_append_left _ ht)).bind ?_
    rintro outcome _ rfl
    refine (ih fun tool ht => hops tool (List.mem_append_right _ ht)).bind ?_
    rintro outcomes _ rfl
    exact .done _ _ rfl

theorem runTask_agree (hnone : tok.isNone = tok'.isNone) (L : Json.Limits) (w : OverflowWriter)
    (fuel rounds : ℕ) (t : SigilTaskContext) (ops : List Op)
    (hops : ∀ tool ∈ ops.flatMap Op.tools, tool ∈ tools) :
    Agree (credentialLikeness h c tools tok tok' : Likeness SessionQuestion (SessionAnswer V X))
      (· = ·) (runTask h L w fuel rounds c t ops)
      (runTask h L w fuel rounds (withInternalToken c token hne) t ops) := by
  refine (inSession_agree (enter_agree token hne t)).bind ?_
  rintro task _ ⟨htask, rfl⟩
  refine (runOps_agree token hne hnone L w fuel rounds task htask ops hops).bind ?_
  rintro outcomes _ rfl
  exact (flusher_agree token hne (doFlushWithin h L w rounds)).attempt.bind fun _ _ _ => .done _ _ rfl

end Agreement

/-! ## What is recorded -/

/-- A trace a run leaves in the audit trail. -/
inductive Output where
  | pushed (event : PyVal)
  | written (line : List UInt8)
  | batch (events : List PyVal)

def outputOf (h : Host) : SessionEvent V X → Option Output
  | ⟨.call (.push event), _⟩ => some (.pushed event)
  | ⟨.call (.overflowWrite event), _⟩ => some (.written (OverflowWriter.line h event))
  | ⟨.logBatch events _, _⟩ => some (.batch events)
  | _ => none

theorem outputOf_alike (h : Host) (c : SigilClient) (tools : List Tool) (tok tok' : PyVal)
    (e e' : SessionEvent V X) (he : LikeEvent h c tools tok tok' e e') :
    outputOf h e = outputOf h e' := by
  cases he with
  | _ => rfl

/-- **Credentials do not flow.** Two runs of a task, which differ in its biscuit token and in the
client's service token while `verify_local` makes the same of both biscuits and the world answers
the same, leave the same in the audit trail, end alike, and raise the same to the caller. -/
theorem credentials_do_not_flow (h : Host) (L : Json.Limits) (w : OverflowWriter)
    (fuel rounds : ℕ) (c : SigilClient) (token : String) (hne : token ≠ "") (t : SigilTaskContext)
    (ops : List Op) (tok tok' : PyVal) (hnone : tok.isNone = tok'.isNone) (rel : σ → σ' → Prop)
    (env : Environment SessionQuestion (SessionAnswer V X) σ)
    (env' : Environment SessionQuestion (SessionAnswer V X) σ')
    (henv : Resemble (credentialLikeness h c (ops.flatMap Op.tools) tok tok') rel env env')
    (s : σ) (s' : σ') (hs : rel s s') :
    let R := run env (runTask h L w fuel rounds c t ops) s
    let R' := run env' (runTask h L w fuel rounds (withInternalToken c token hne) t ops) s'
    R.result = R'.result ∧
      R.events.filterMap (outputOf h) = R'.events.filterMap (outputOf h) := by
  have hagree := runTask_agree (V := V) (X := X) (h := h) (c := c) token hne hnone L w fuel rounds t
    ops fun _ ht => ht
  obtain ⟨hend, hevents⟩ := hagree.run henv s s' hs
  exact ⟨hend.eq, Dialogue.filterMap_alike (outputOf_alike h c _ tok tok') hevents⟩

/-! ## Scripts with a token each -/

/-- The world of a script, with nothing to flush and nothing to replay. -/
def sessionAnswer (S : Script V X) : (q : SessionQuestion) → Moment → SessionAnswer V X q × Moment
  | .call q, m => S.answer q m
  | .drain _, m => ([], m)
  | .logBatch _ _, m => (.raised, m)
  | .listDir, m => (some [], m)
  | .readFile _, m => (none, m)
  | .unlink _, m => ((), m)

theorem script_http {h : Host} {c : SigilClient} {tools : List Tool} {tok tok' : PyVal}
    (S : Script V X) (issue : HttpAnswer) (hissue : IssuedAlike tok tok' S.issue issue)
    (r r' : Request) (hr : anonymous r = anonymous r') (m : Moment) :
    LikeEvent h c tools tok tok' (V := V) (X := X) ⟨.call (.http r), (S.answer (.http r) m).1⟩
        ⟨.call (.http r'), (({ S with issue := issue } : Script V X).answer (.http r') m).1⟩ ∧
      (S.answer (.http r) m).2 = (({ S with issue := issue } : Script V X).answer (.http r') m).2 := by
  have hroute : (anonymous r).route = (anonymous r').route := congrArg Request.route hr
  have hroute : r.route = r'.route := hroute
  unfold Script.answer
  simp only [← hroute]
  cases hr' : r.route with
  | issueToken => exact ⟨.issue _ _ _ _ hr hr' hissue, rfl⟩
  | _ => exact ⟨.http _ _ _ hr (by rw [hr']; nofun), rfl⟩

theorem script_resemble {h : Host} {c : SigilClient} {tools : List Tool} {tok tok' : PyVal}
    (S : Script V X) (issue : HttpAnswer) (hissue : IssuedAlike tok tok' S.issue issue)
    (hnow : TokensAlike h c tools tok tok' S.utcNow) :
    Resemble (credentialLikeness h c tools tok tok' : Likeness SessionQuestion (SessionAnswer V X))
      (· = ·) ⟨sessionAnswer S⟩ ⟨sessionAnswer { S with issue := issue }⟩ := by
  rintro q q' m _ hq rfl
  cases hq with
  | http r r' hr => exact script_http S issue hissue r r' hr m
  | logBatch events r r' hr => exact ⟨.logBatch events r r' _ hr, rfl⟩
  | refl =>
    cases q with
    | call q =>
      cases q with
      | utcNow => exact ⟨.clock _ hnow, rfl⟩
      | http r => exact script_http S issue hissue r r rfl m
      | _ => exact ⟨.plain _ _ trivial, rfl⟩
    | _ => exact ⟨.plain _ _ trivial, rfl⟩

/-! ## Two tokens for one signature -/

section Sample

open Gate (noArgs openedTask sampleClient sampleScript sampleTool)
open Verify (Reading SignedText authorityBlock authoritySig authorityText sampleHost sampleKey
  sampleKeyring verifyLocal_accepts_iff)

/-- Base64 ignores the last bits of the signature's text. -/
def respelledText : SignedText := { authorityText with sig := authoritySig.val.dropLast ++ ['x'] }

theorem respelledText_carries : respelledText.Carries sampleHost ⟨"k", [authorityBlock]⟩ where
  dotFree := by decide +kernel
  payload_ne := Verify.authorityText_carries.payload_ne
  sig_ne := by decide
  payload_decodes := Verify.authorityText_carries.payload_decodes
  sig_decodes := by decide +kernel
  parses := Verify.authorityText_carries.parses
  typed := Verify.authorityText_carries.typed
  aware := Verify.authorityText_carries.aware

def respelledReading : Reading sampleHost respelledText.token :=
  respelledText.reading ⟨"k", [authorityBlock]⟩ respelledText_carries

theorem respelledReading_signed : respelledReading.Signed sampleKeyring none :=
  ⟨sampleKey, .named (by decide) rfl, by decide +kernel⟩

theorem sample_tokensAlike :
    TokensAlike sampleHost sampleClient [sampleTool] (.str authorityText.token)
      (.str respelledText.token) ⟨true, 0⟩ where
  entering := fun _ =>
    ((verifyLocal_accepts_iff Verify.authorityReading sampleKeyring none none none none
        ⟨true, 0⟩ _).mpr ⟨Verify.authorityReading_signed, by decide +kernel, rfl⟩).1.trans
      ((verifyLocal_accepts_iff respelledReading sampleKeyring none none none none
        ⟨true, 0⟩ _).mpr ⟨respelledReading_signed, by decide +kernel, rfl⟩).1.symm
  calling := fun tool htool => by
    rw [List.mem_singleton.mp htool]
    exact ((verifyLocal_accepts_iff Verify.authorityReading sampleKeyring none (some "a.b")
        (some "t") none ⟨true, 0⟩ _).mpr
          ⟨Verify.authorityReading_signed, by decide +kernel, rfl⟩).1.trans
      ((verifyLocal_accepts_iff respelledReading sampleKeyring none (some "a.b") (some "t") none
        ⟨true, 0⟩ _).mpr ⟨respelledReading_signed, by decide +kernel, rfl⟩).1.symm

def sampleWriter : OverflowWriter := { dir := "d", agentId := "a1", writable := true, dropCount := 0 }

/-- The answer to an issue request, with this token. -/
def issuing (token : PyVal) : HttpAnswer := .response 201 (some (.dict [(.str "biscuit_token", token)]))

theorem issuing_alike (tok tok' : PyVal) : IssuedAlike tok tok' (issuing tok) (issuing tok') :=
  .issued _ _ _ _ rfl rfl rfl rfl

/-- The sample task, with each spelling of its token and under two service tokens. -/
theorem credentials_do_not_flow_sample :
    let ops := [Op.call .instrumentedTool .sync sampleTool noArgs, .flush, .replay]
    let R := run ⟨sessionAnswer sampleScript⟩ (runTask sampleHost Audit.plainLimits sampleWriter
      (Gate.pollFuel sampleClient) 1 sampleClient openedTask ops) .start
    let R' := run ⟨sessionAnswer { sampleScript with issue := issuing (.str respelledText.token) }⟩
      (runTask sampleHost Audit.plainLimits sampleWriter (Gate.pollFuel sampleClient) 1
        (withInternalToken sampleClient "other" (by decide)) openedTask ops) .start
    R.result = R'.result ∧ R.events.filterMap (outputOf sampleHost) =
      R'.events.filterMap (outputOf sampleHost) :=
  credentials_do_not_flow sampleHost Audit.plainLimits sampleWriter (Gate.pollFuel sampleClient) 1
    sampleClient "other" (by decide) openedTask [.call .instrumentedTool .sync sampleTool noArgs, .flush, .replay]
    (.str authorityText.token) (.str respelledText.token) (Eq.refl false) (· = ·) _ _
    (script_resemble sampleScript _ (issuing_alike _ _) sample_tokensAlike) .start .start rfl

end Sample

end Sigil.Session
