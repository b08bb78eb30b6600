import Sigil.Gate.Conversation.Protocol

/-! # The order of requests

What a call by the protocol asks over the network, and when: nothing after a local denial, then
preflight, status requests for the approval it handed out, and one redemption of it.
-/
set_option autoImplicit false

namespace Sigil.Gate

open Dialogue (Ensures Follows)

variable {V X : Type}

/-! ## Requests -/

def networkOf : CallEvent V X → Option (Request × HttpAnswer)
  | ⟨.http r, answer⟩ => some (r, answer)
  | _ => none

/-- The network operations of a conversation. -/
def network (tr : List (CallEvent V X)) : List (Request × HttpAnswer) := tr.filterMap networkOf

theorem network_append (tr tr' : List (CallEvent V X)) :
    network (tr ++ tr') = network tr ++ network tr' := List.filterMap_append

theorem network_concat (tr : List (CallEvent V X)) (e : CallEvent V X) :
    network (tr ++ [e]) = network tr ++ (networkOf e).toList := by
  rw [network_append]
  exact congrArg _ (filterMap_cons_of_nil networkOf e [] rfl)

/-- The answer is a verdict `approve` with this approval. -/
def AsksApproval (h : Host) (id : String) (answer : HttpAnswer) : Prop :=
  ∃ kvs v, answer.json? 200 = some (.dict kvs) ∧
    kvs.lookup (.str "verdict") = some (.str "approve") ∧
    kvs.lookup (.str "approval_id") = some v ∧ v.truthy = true ∧ v.toStr h = id

/-- The answer to a local check denies the call. -/
def LocallyDenies (h : Host) (c : SigilClient) (task : SigilTaskContext) (tool : Tool) :
    CallEvent V X → Prop
  | ⟨.isRevoked _ _, revoked⟩ => revoked = true
  | ⟨.isKillSwitchHealthy, healthy⟩ => healthy = false
  | ⟨.utcNow, now⟩ => ∀ vr, verifyTask h c task.biscuitToken tool now = .ok vr → vr.ok = false
  | _ => False

/-- The answer to a request denies the call. -/
def RemotelyDenies (h : Host) (c : SigilClient) : CallEvent V X → Prop
  | ⟨.http r, answer⟩ => match r.route with
    | .preflight => match rulePreflight h c answer with
      | .cleared _ | .pending _ => False
      | _ => True
    | .approval _ => ∃ outcome, settledAs h answer = some outcome ∧ outcome ≠ "approved"
    | .redeem _ => grantOf h answer = none
    | _ => False
  | _ => False

def RecordsDenial (e : CallEvent V X) : Prop :=
  ∃ a, auditOf e = some a ∧ eventField a.2 "outcome" = some (.str "denied")

/-- The conversation of a call, as it ought to go. -/
structure Orderly (h : Host) (c : SigilClient) (task : SigilTaskContext) (tool : Tool)
    (tr : List (CallEvent V X)) : Prop where
  order : ∃ id n, (network tr).map (fun op => op.1.route) <+:
    .preflight :: (List.replicate (n + 1) (.approval id) ++ [.redeem id])
  handedOut : ∀ before op after id, network tr = before ++ op :: after →
    op.1.route = .approval id ∨ op.1.route = .redeem id →
    ∃ pf ∈ before, pf.1.route = .preflight ∧ AsksApproval h id pf.2
  approved : ∀ before op after id, network tr = before ++ op :: after → op.1.route = .redeem id →
    after = [] ∧ ∃ earlier st, before = earlier ++ [st] ∧ st.1.route = .approval id ∧
      answerText h "status" st.2 = some "approved"
  executesLast : ∀ before e after, tr = before ++ e :: after → executionOf e ≠ none →
    network after = []
  locally : ∀ e ∈ tr, LocallyDenies h c task tool e → network tr = []
  untokened : task.biscuitToken.isNone = true → network tr = []
  lowRisk : tool.riskTier.isHighRisk = false → network tr = []
  denied : ∀ before e after, tr = before ++ e :: after →
    LocallyDenies h c task tool e ∨ RemotelyDenies h c e ∨ RecordsDenial e →
    network after = [] ∧ executions after = []

/-! ## What a stage tells of the requests made -/

structure Waiting (h : Host) (id : String) (pf : Request × HttpAnswer)
    (polls : List (Request × HttpAnswer)) : Prop where
  preflight : pf.1.route = .preflight
  asks : AsksApproval h id pf.2
  polls : ∀ st ∈ polls, st.1.route = .approval id

/-- The requests a call may have made. -/
inductive Made (h : Host) : List (Request × HttpAnswer) → Prop where
  | none : Made h []
  | asked (pf : Request × HttpAnswer) (hpf : pf.1.route = .preflight) : Made h [pf]
  | waited (id : String) (pf : Request × HttpAnswer) (polls : List (Request × HttpAnswer))
      (hw : Waiting h id pf polls) : Made h (pf :: polls)
  | redeemed (id : String) (pf st rd : Request × HttpAnswer) (polls : List (Request × HttpAnswer))
      (hw : Waiting h id pf (polls ++ [st]))
      (hst : answerText h "status" st.2 = some "approved") (hrd : rd.1.route = .redeem id) :
      Made h ((pf :: (polls ++ [st])) ++ [rd])

/-- The requests made when a call is at a stage. -/
def Past (h : Host) : Stage → List (Request × HttpAnswer) → Prop
  | .checking, ops | .verified, ops => ops = []
  | .waiting id, ops => ∃ pf polls, ops = pf :: polls ∧ Waiting h id pf polls
  | .approved id, ops => ∃ pf polls st, ops = pf :: (polls ++ [st]) ∧
      Waiting h id pf (polls ++ [st]) ∧ answerText h "status" st.2 = some "approved"
  | .permitted, ops | .executed, ops | .closed, ops => Made h ops

theorem Past.made {h : Host} {s : Stage} {ops : List (Request × HttpAnswer)} (hs : Past h s ops) :
    Made h ops := by
  cases s with
  | checking => exact (show ops = [] from hs) ▸ .none
  | verified => exact (show ops = [] from hs) ▸ .none
  | waiting id =>
    obtain ⟨pf, polls, rfl, hw⟩ := hs
    exact .waited id pf polls hw
  | approved id =>
    obtain ⟨pf, polls, st, rfl, hw, -⟩ := hs
    exact .waited id pf _ hw
  | permitted => exact hs
  | executed => exact hs
  | closed => exact hs

theorem lookup_of_orElse (o : Option PyVal) (s d : String) (hne : s ≠ d)
    (ho : (o.getD .none).orElse (.str d) = .str s) : o = some (.str s) := by
  unfold PyVal.orElse at ho
  split at ho
  · cases o with
    | none => cases ho
    | some v => exact congrArg some ho
  · exact absurd (PyVal.str.inj ho).symm hne

theorem pending_asksApproval (h : Host) (c : SigilClient) (answer : HttpAnswer) (id : String)
    (hr : rulePreflight h c answer = .pending id) : AsksApproval h id answer := by
  unfold rulePreflight at hr
  cases hv : answer.json? 200 with
  | none =>
    rw [hv] at hr
    cases hmode : c.failMode <;> rw [hmode] at hr <;> cases hr
  | some v =>
    rw [hv] at hr
    cases v with
    | dict kvs =>
      simp only [ruleVerdict] at hr
      split at hr
      · cases hr
      · split at hr
        · next hverdict =>
          split at hr
          · next htruthy =>
            cases happroval : kvs.lookup (.str "approval_id") with
            | none =>
              rw [happroval] at htruthy
              cases htruthy
            | some v =>
              rw [happroval] at htruthy hr
              exact ⟨kvs, v, hv, lookup_of_orElse _ _ "deny" (by decide)
                ((PyVal.isStr_iff _ _).mp hverdict), happroval, htruthy,
                Ruling.pending.inj hr⟩
          · cases hr
        · split at hr <;> cases hr
    | _ => cases hr

theorem settledAs_approved (h : Host) (answer : HttpAnswer)
    (hs : settledAs h answer = some "approved") : answerText h "status" answer = some "approved" := by
  unfold settledAs at hs
  split at hs
  · exact absurd (Option.some.inj hs) (by decide)
  · next status ht =>
    split at hs
    · rw [ht, hs]
    · cases hs

theorem past_step (h : Host) (c : SigilClient) (task : SigilTaskContext) (tool : Tool) (s : Stage)
    (e : CallEvent V X) (s' : Stage) (before : List (CallEvent V X))
    (hs : Past h s (network before)) (he : Step h c task tool s e s') :
    Past h s' (network (before ++ [e])) := by
  rw [network_concat]
  have hquiet : networkOf e = none → Past h s' (network before) →
      Past h s' (network before ++ (networkOf e).toList) := by
    intro hnone hpast
    rwa [hnone, Option.toList_none, List.append_nil]
  cases he with
  | preflight r answer hr htier =>
    have hnone : network before = [] := hs
    rw [hnone]
    cases hruling : rulePreflight h c answer with
    | pending id =>
      exact ⟨_, [], rfl, hr, pending_asksApproval h c answer id hruling, by simp⟩
    | _ => exact .asked _ hr
  | status id r answer hr =>
    obtain ⟨pf, polls, hops, hw⟩ := hs
    have hnext : Waiting h id pf (polls ++ [(r, answer)]) := by
      refine ⟨hw.preflight, hw.asks, fun st hst => ?_⟩
      rcases List.mem_append.mp hst with hst | hst
      · exact hw.polls st hst
      · rw [List.mem_singleton.mp hst]
        exact hr
    rw [hops]
    unfold statusStage
    cases hsettled : settledAs h answer with
    | none => exact ⟨pf, _, rfl, hnext⟩
    | some outcome =>
      simp only
      by_cases happroved : outcome = "approved"
      · rw [if_pos happroved]
        rw [happroved] at hsettled
        exact ⟨pf, polls, (r, answer), rfl, hnext, settledAs_approved h answer hsettled⟩
      · rw [if_neg happroved]
        exact .waited id pf _ hnext
  | redeem id r answer hr =>
    obtain ⟨pf, polls, st, hops, hw, hst⟩ := hs
    have hmade : Made h (network before ++ [(r, answer)]) := by
      rw [hops]
      exact .redeemed id pf st (r, answer) polls hw hst hr
    unfold redeemStage
    split
    · exact hmade
    · exact hmade
  | clock s now => exact hquiet rfl hs
  | sleep id mode seconds slept => exact hquiet rfl hs
  | registry agentId taskId revoked =>
    refine hquiet rfl ?_
    cases revoked with
    | false => exact hs
    | true => exact hs.made
  | health healthy =>
    refine hquiet rfl ?_
    cases healthy with
    | false => exact hs.made
    | true => exact hs
  | verify now =>
    refine hquiet rfl ?_
    unfold verifiedStage
    cases verifyTask h c task.biscuitToken tool now with
    | error e => exact hs.made
    | ok vr =>
      simp only
      split
      · exact hs
      · exact hs.made
  | execute s hs' mode call result => exact hquiet rfl hs.made
  | record event => exact hquiet rfl hs
  | deny s hs' event => exact hquiet rfl hs.made
  | spill event => exact hquiet rfl hs

/-! ## What the requests made tell -/

theorem Made.order {h : Host} {ops : List (Request × HttpAnswer)} (hm : Made h ops) :
    ∃ id n, ops.map (fun op => op.1.route) <+:
      .preflight :: (List.replicate (n + 1) (.approval id) ++ [.redeem id]) := by
  have hpolls : ∀ {id : String} {pf : Request × HttpAnswer} {polls : List (Request × HttpAnswer)},
      Waiting h id pf polls →
      (pf :: polls).map (fun op => op.1.route) =
        .preflight :: List.replicate polls.length (.approval id) := by
    intro id pf polls hw
    have hroutes : polls.map (fun op => op.1.route) =
        List.replicate polls.length (Route.approval id) := by
      refine List.eq_replicate_iff.mpr ⟨by simp, fun r hr => ?_⟩
      obtain ⟨st, hst, rfl⟩ := List.mem_map.mp hr
      exact hw.polls st hst
    rw [List.map_cons, hw.preflight, hroutes]
  cases hm with
  | none => exact ⟨"", 0, List.nil_prefix⟩
  | asked pf hpf => exact ⟨"", 0, _, by rw [List.map_cons, hpf]; rfl⟩
  | waited id pf polls hw =>
    refine ⟨id, polls.length, ?_⟩
    rw [hpolls hw, List.replicate_succ']
    exact ⟨[.approval id, .redeem id], by simp⟩
  | redeemed id pf st rd polls hw hst hrd =>
    refine ⟨id, polls.length, ?_⟩
    rw [List.map_append, hpolls hw, List.map_singleton, hrd, List.length_append,
      List.length_singleton]
    exact List.prefix_rfl

/-- A request that is not preflight comes after it. -/
theorem after_preflight {ops before after : List (Request × HttpAnswer)}
    {pf op : Request × HttpAnswer} (hpf : pf.1.route = .preflight)
    (hop : op.1.route ≠ .preflight) (hops : pf :: ops = before ++ op :: after) :
    pf ∈ before ∧ op ∈ ops := by
  cases before with
  | nil =>
    rw [List.nil_append] at hops
    injection hops with heq
    exact absurd (heq ▸ hpf) hop
  | cons b before =>
    rw [List.cons_append] at hops
    injection hops with heq hrest
    rw [heq, hrest]
    exact ⟨List.mem_cons_self, by simp⟩

/-- Every request after the first is made for the approval preflight handed out. -/
theorem Made.handedOut {h : Host} {ops : List (Request × HttpAnswer)} (hm : Made h ops)
    (before : List (Request × HttpAnswer)) (op : Request × HttpAnswer)
    (after : List (Request × HttpAnswer)) (id : String) (hops : ops = before ++ op :: after)
    (hop : op.1.route = .approval id ∨ op.1.route = .redeem id) :
    ∃ pf ∈ before, pf.1.route = .preflight ∧ AsksApproval h id pf.2 := by
  have hnot : op.1.route ≠ .preflight := by
    rcases hop with hop | hop <;> rw [hop] <;> exact nofun
  have hpoll : ∀ {id' : String} {pf : Request × HttpAnswer} {polls : List (Request × HttpAnswer)},
      Waiting h id' pf polls → op ∈ polls → id' = id := by
    intro id' pf polls hw hmem
    have hroute := hw.polls op hmem
    rcases hop with hop | hop <;> rw [hop] at hroute
    · exact (Route.approval.inj hroute).symm
    · cases hroute
  cases hm with
  | none => simp at hops
  | asked pf hpf => exact absurd (after_preflight hpf hnot hops).2 List.not_mem_nil
  | waited id' pf polls hw =>
    obtain ⟨hmem, hin⟩ := after_preflight hw.preflight hnot hops
    obtain rfl := hpoll hw hin
    exact ⟨pf, hmem, hw.preflight, hw.asks⟩
  | redeemed id' pf st rd polls hw hst hrd =>
    obtain ⟨hmem, hin⟩ := after_preflight hw.preflight hnot hops
    have hid : id' = id := by
      rcases List.mem_append.mp hin with hin | hin
      · exact hpoll hw hin
      · rw [List.mem_singleton.mp hin, hrd] at hop
        rcases hop with hop | hop
        · cases hop
        · exact Route.redeem.inj hop
    subst hid
    exact ⟨pf, hmem, hw.preflight, hw.asks⟩

/-- The redemption comes last, right after an approved status. -/
theorem Made.approved {h : Host} {ops : List (Request × HttpAnswer)} (hm : Made h ops)
    (before : List (Request × HttpAnswer)) (op : Request × HttpAnswer)
    (after : List (Request × HttpAnswer)) (id : String) (hops : ops = before ++ op :: after)
    (hop : op.1.route = .redeem id) :
    after = [] ∧ ∃ earlier st, before = earlier ++ [st] ∧ st.1.route = .approval id ∧
      answerText h "status" st.2 = some "approved" := by
  have hwaiting : ∀ {id' : String} {pf : Request × HttpAnswer} {polls : List (Request × HttpAnswer)},
      Waiting h id' pf polls → op ∉ pf :: polls := by
    intro id' pf polls hw hmem
    rcases List.mem_cons.mp hmem with rfl | hmem
    · exact absurd (hop.symm.trans hw.preflight) nofun
    · exact absurd (hop.symm.trans (hw.polls op hmem)) nofun
  have hmem : op ∈ ops := by
    rw [hops]
    simp
  cases hm with
  | none => exact absurd hmem List.not_mem_nil
  | asked pf hpf =>
    rw [List.mem_singleton.mp hmem, hpf] at hop
    cases hop
  | waited id' pf polls hw => exact absurd hmem (hwaiting hw)
  | redeemed id' pf st rd polls hw hst hrd =>
    rcases List.eq_nil_or_concat after with rfl | ⟨front, last, rfl⟩
    · obtain ⟨hbefore, hlast⟩ := List.append_inj' hops rfl
      have hid : id' = id := by
        rw [← List.singleton_inj.mp hlast, hrd] at hop
        exact Route.redeem.inj hop
      subst hid
      exact ⟨rfl, pf :: polls, st, hbefore.symm, hw.polls st (by simp), hst⟩
    · have hops' : (pf :: (polls ++ [st])) ++ [rd] = (before ++ op :: front) ++ [last] := by
        rw [hops]
        simp
      obtain ⟨hbefore, -⟩ := List.append_inj' hops' rfl
      refine absurd ?_ (hwaiting hw)
      rw [hbefore]
      simp

/-! ## Nothing after the end -/

/-- The call has been made, or denied. -/
def Over (s : Stage) : Prop := s = .executed ∨ s = .closed

theorem cleared_stage {tool : Tool} {s : Stage} (hs : Cleared tool none s) :
    s = .permitted ∨ s = .verified := hs.imp_right And.left

theorem over_step (h : Host) (c : SigilClient) (task : SigilTaskContext) (tool : Tool) (s : Stage)
    (e : CallEvent V X) (s' : Stage) (hs : Over s) (he : Step h c task tool s e s') :
    (networkOf e = none ∧ executionOf e = none) ∧ Over s' := by
  rcases hs with rfl | rfl
  · cases he with
    | clock => exact ⟨⟨rfl, rfl⟩, Or.inl rfl⟩
    | record => exact ⟨⟨rfl, rfl⟩, Or.inl rfl⟩
    | deny => exact ⟨⟨rfl, rfl⟩, Or.inr rfl⟩
    | execute _ hs => exact absurd (cleared_stage hs) (by simp)
  · cases he with
    | clock => exact ⟨⟨rfl, rfl⟩, Or.inr rfl⟩
    | deny => exact ⟨⟨rfl, rfl⟩, Or.inr rfl⟩
    | spill => exact ⟨⟨rfl, rfl⟩, Or.inr rfl⟩
    | execute _ hs => exact absurd (cleared_stage hs) (by simp)

theorem over_quiet {h : Host} {c : SigilClient} {task : SigilTaskContext} {tool : Tool}
    {s s' : Stage} {tr : List (CallEvent V X)} (hs : Over s)
    (htr : Follows (Step h c task tool) s tr s') : network tr = [] ∧ executions tr = [] := by
  have hquiet := htr.confined (over_step h c task tool) hs
  exact ⟨List.filterMap_eq_nil_iff.mpr fun e he => (hquiet e he).1,
    List.filterMap_eq_nil_iff.mpr fun e he => (hquiet e he).2⟩

section Denial

variable {h : Host} {c : SigilClient} {task : SigilTaskContext} {tool : Tool} {s s' : Stage}
  {e : CallEvent V X}

/-- The local checks come first, and one that denies ends the call. -/
theorem over_of_local (he : Step h c task tool s e s') (hdenies : LocallyDenies h c task tool e) :
    s = .checking ∧ networkOf e = none ∧ Over s' := by
  cases he with
  | registry agentId taskId revoked =>
    rw [show revoked = true from hdenies]
    exact ⟨rfl, rfl, Or.inr rfl⟩
  | health healthy =>
    rw [show healthy = false from hdenies]
    exact ⟨rfl, rfl, Or.inr rfl⟩
  | verify now =>
    refine ⟨rfl, rfl, Or.inr ?_⟩
    unfold verifiedStage
    cases hvr : verifyTask h c task.biscuitToken tool now with
    | error e => rfl
    | ok vr => simp only [hdenies vr hvr, Bool.false_eq_true, if_false]
  | _ => exact hdenies.elim

theorem over_of_remote (he : Step h c task tool s e s') (hdenies : RemotelyDenies h c e) :
    Over s' := by
  cases he with
  | preflight r answer hr htier =>
    simp only [RemotelyDenies, hr] at hdenies
    cases hruling : rulePreflight h c answer with
    | cleared failOpen => exact (hruling ▸ hdenies).elim
    | pending id => exact (hruling ▸ hdenies).elim
    | _ => exact Or.inr rfl
  | status id r answer hr =>
    simp only [RemotelyDenies, hr] at hdenies
    obtain ⟨outcome, hsettled, hne⟩ := hdenies
    unfold statusStage
    rw [hsettled]
    simp only [if_neg hne]
    exact Or.inr rfl
  | redeem id r answer hr =>
    simp only [RemotelyDenies, hr] at hdenies
    unfold redeemStage
    rw [hdenies]
    exact Or.inr rfl
  | _ => exact hdenies.elim

/-- An audit event ends the call. -/
theorem over_of_audit (he : Step h c task tool s e s') (haudit : auditOf e ≠ none) : Over s' := by
  cases he with
  | record event => exact Or.inl rfl
  | deny s hs event => exact Or.inr rfl
  | spill event => exact Or.inr rfl
  | _ => exact absurd rfl haudit

theorem over_of_denial (he : Step h c task tool s e s')
    (hdenies : LocallyDenies h c task tool e ∨ RemotelyDenies h c e ∨ RecordsDenial e) :
    Over s' := by
  rcases hdenies with hlocal | hremote | ⟨a, ha, -⟩
  · exact (over_of_local he hlocal).2.2
  · exact over_of_remote he hremote
  · exact over_of_audit he (by rw [ha]; exact nofun)

theorem over_of_execution (he : Step h c task tool s e s') (hexec : executionOf e ≠ none) :
    Over s' := by
  cases he with
  | execute s hs mode call result => exact Or.inl rfl
  | _ => exact absurd rfl hexec

end Denial

/-! ## Without a token, or at low risk -/

theorem verifiedStage_cases (h : Host) (c : SigilClient) (task : SigilTaskContext) (tool : Tool)
    (now : DateTime) : verifiedStage h c task tool now = .verified ∨
      verifiedStage h c task tool now = .closed := by
  unfold verifiedStage
  split
  · split
    · exact Or.inl rfl
    · exact Or.inr rfl
  · exact Or.inr rfl

/-- A step of the local checks goes on with them, verifies the token, or ends the call. -/
theorem checking_step {h : Host} {c : SigilClient} {task : SigilTaskContext} {tool : Tool}
    {e : CallEvent V X} {s' : Stage} (he : Step h c task tool .checking e s') :
    networkOf e = none ∧
      (s' = .checking ∨ (∃ now, s' = verifiedStage h c task tool now) ∨ Over s') := by
  cases he with
  | clock => exact ⟨rfl, Or.inl rfl⟩
  | registry agentId taskId revoked =>
    cases revoked with
    | false => exact ⟨rfl, Or.inl rfl⟩
    | true => exact ⟨rfl, Or.inr (Or.inr (Or.inr rfl))⟩
  | health healthy =>
    cases healthy with
    | false => exact ⟨rfl, Or.inr (Or.inr (Or.inr rfl))⟩
    | true => exact ⟨rfl, Or.inl rfl⟩
  | verify now => exact ⟨rfl, Or.inr (Or.inl ⟨now, rfl⟩)⟩
  | execute _ hs => exact absurd (cleared_stage hs) (by simp)
  | deny _ hs => exact absurd hs (by simp)

/-- There is nothing to split in a token that is no text. -/
theorem verifiedStage_untokened (h : Host) (c : SigilClient) (task : SigilTaskContext) (tool : Tool)
    (htoken : task.biscuitToken.isNone = true) (now : DateTime) :
    verifiedStage h c task tool now = .closed := by
  have hraises : verifyTask h c task.biscuitToken tool now = .error .attributeError := by
    cases hv : task.biscuitToken with
    | none => rfl
    | _ =>
      rw [hv] at htoken
      cases htoken
  unfold verifiedStage
  rw [hraises]

theorem untokened_step (h : Host) (c : SigilClient) (task : SigilTaskContext) (tool : Tool)
    (htoken : task.biscuitToken.isNone = true) (s : Stage) (e : CallEvent V X) (s' : Stage)
    (hs : s = .checking ∨ Over s) (he : Step h c task tool s e s') :
    networkOf e = none ∧ (s' = .checking ∨ Over s') := by
  rcases hs with rfl | hs
  · obtain ⟨hquiet, hnext⟩ := checking_step he
    refine ⟨hquiet, ?_⟩
    rcases hnext with hchecking | ⟨now, hverified⟩ | hover
    · exact Or.inl hchecking
    · rw [hverified, verifiedStage_untokened h c task tool htoken]
      exact Or.inr (Or.inr rfl)
    · exact Or.inr hover
  · obtain ⟨hquiet, hover⟩ := over_step h c task tool s e s' hs he
    exact ⟨hquiet.1, Or.inr hover⟩

theorem lowRisk_step (h : Host) (c : SigilClient) (task : SigilTaskContext) (tool : Tool)
    (hlow : tool.riskTier.isHighRisk = false) (s : Stage) (e : CallEvent V X) (s' : Stage)
    (hs : s = .checking ∨ s = .verified ∨ Over s) (he : Step h c task tool s e s') :
    networkOf e = none ∧ (s' = .checking ∨ s' = .verified ∨ Over s') := by
  rcases hs with rfl | rfl | hs
  · obtain ⟨hquiet, hnext⟩ := checking_step he
    refine ⟨hquiet, ?_⟩
    rcases hnext with hchecking | ⟨now, hverified⟩ | hover
    · exact Or.inl hchecking
    · rw [hverified]
      exact Or.inr ((verifiedStage_cases h c task tool now).imp_right Or.inr)
    · exact Or.inr (Or.inr hover)
  · cases he with
    | clock => exact ⟨rfl, Or.inr (Or.inl rfl)⟩
    | preflight r answer hr htier =>
      rw [hlow] at htier
      cases htier
    | execute => exact ⟨rfl, Or.inr (Or.inr (Or.inl rfl))⟩
    | deny _ hs => exact absurd hs (by simp)
  · obtain ⟨hquiet, hover⟩ := over_step h c task tool s e s' hs he
    exact ⟨hquiet.1, Or.inr (Or.inr hover)⟩

/-! ## The order of a call -/

/-- A conversation by the protocol goes as it ought to. -/
theorem orderly_of_follows {h : Host} {c : SigilClient} {task : SigilTaskContext} {tool : Tool}
    {s' : Stage} {tr : List (CallEvent V X)} (htr : Follows (Step h c task tool) .checking tr s') :
    Orderly h c task tool tr := by
  have hpast : ∀ {s' : Stage} {tr : List (CallEvent V X)},
      Follows (Step h c task tool) .checking tr s' → Past h s' (network tr) := by
    intro s' tr htr
    have hstart : Past h .checking (network ([] : List (CallEvent V X))) := rfl
    exact htr.history (fun s tr => Past h s (network tr)) (past_step h c task tool) [] hstart
  have hmade := (hpast htr).made
  have hsilent : ∀ {within : Stage → Prop}, within .checking →
      (∀ s (e : CallEvent V X) s', within s → Step h c task tool s e s' →
        networkOf e = none ∧ within s') →
      network tr = [] := by
    intro within hstart hstep
    exact List.filterMap_eq_nil_iff.mpr (htr.confined hstep hstart)
  refine ⟨hmade.order, hmade.handedOut, hmade.approved, ?_, ?_, ?_, ?_, ?_⟩
  · rintro before e after rfl hexec
    obtain ⟨s₁, s₂, -, he, hafter⟩ := htr.at
    exact (over_quiet (over_of_execution he hexec) hafter).1
  · intro e hmem hdenies
    obtain ⟨before, after, rfl⟩ := List.append_of_mem hmem
    obtain ⟨s₁, s₂, hbefore, he, hafter⟩ := htr.at
    obtain ⟨rfl, hquiet, hover⟩ := over_of_local he hdenies
    have hnone : network before = [] := hpast hbefore
    rw [network_append, hnone, List.nil_append, network, List.filterMap_cons_none hquiet]
    exact (over_quiet hover hafter).1
  · intro htoken
    exact hsilent (Or.inl rfl) (untokened_step h c task tool htoken)
  · intro hlow
    exact hsilent (Or.inl rfl) (lowRisk_step h c task tool hlow)
  · rintro before e after rfl hdenies
    obtain ⟨s₁, s₂, -, he, hafter⟩ := htr.at
    exact over_quiet (over_of_denial he hdenies) hafter

/-- **The conversation of a call.** Whatever a governed call is answered, and wherever it is cut
off, its requests are in order; outside a task it asks nothing. -/
theorem wrapper_orderly (d : Decorator) (mode : Mode) (h : Host)
    (current : Option (SigilClient × SigilTaskContext)) (tool : Tool) (call : CallArgs) (fuel : ℕ) :
    Ensures (wrapper d mode h current tool call fuel : Call V X V) fun tr _ =>
      match current with
      | none => tr = []
      | some (c, task) => Orderly h c task tool tr := by
  cases current with
  | none =>
    rw [wrapper_eq]
    exact Dialogue.ensures_fail rfl rfl
  | some current =>
    obtain ⟨c, task⟩ := current
    refine Ensures.mono (wrapper_goes h c task tool d mode call fuel) ?_
    rintro tr r ⟨s', htr, -⟩
    exact orderly_of_follows htr

end Sigil.Gate
