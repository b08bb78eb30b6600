import Sigil.Gate.Conversation.Call
import Sigil.Library.Pool

/-! # One approval, one execution

Governed calls run concurrently, in any interleaving, and nothing is assumed about the answers they
get except that the server redeems an approval at most once and gives distinct grants distinct
revocation ids. Since a call that waits for an approval executes only after a redemption of its
own, no approval leads to two executions.
-/
set_option autoImplicit false

namespace Sigil.Gate

open Dialogue (Ensures Steps heardBy)

variable {V X : Type}

/-! ## Any number of calls -/

/-- A call of a decorated function: who makes it, of what, and in which task. -/
structure Invocation where
  decorator : Decorator
  mode : Mode
  current : Option (SigilClient × SigilTaskContext)
  tool : Tool
  call : CallArgs
  fuel : ℕ

def Invocation.run (h : Host) (i : Invocation) : Call V X V :=
  wrapper i.decorator i.mode h i.current i.tool i.call i.fuel

theorem Invocation.run_oneShot (h : Host) (i : Invocation) :
    Ensures (i.run h : Call V X V) fun tr _ => OneShot h tr := by
  unfold Invocation.run
  rw [wrapper_eq]
  exact governedCall_oneShot i.mode h i.current i.tool i.call _ _ i.fuel

section Pool

variable {ι : Type} [DecidableEq ι]

/-- The server redeems an approval at most once, and no two grants have the same revocation id. -/
structure OneShotServer (h : Host) (tr : List (ι × CallEvent V X)) : Prop where
  redeemsOnce : ((grants h (tr.map Prod.snd)).map Prod.fst).Nodup
  distinctIds : ((grants h (tr.map Prod.snd)).map Prod.snd).Nodup

/-- The execution of an event, if `id` was handed to the call that makes it. -/
def executionUnder (h : Host) (id : String) (tr : List (ι × CallEvent V X))
    (e : ι × CallEvent V X) : Option (ι × Mode × CallArgs) :=
  if id ∈ handed h (heardBy e.1 tr) then (executionOf e.2).map fun x => (e.1, x) else none

/-- The executions an approval leads to: those of the calls it was handed to. -/
def executionsUnder (h : Host) (id : String) (tr : List (ι × CallEvent V X)) :
    List (ι × Mode × CallArgs) :=
  tr.filterMap (executionUnder h id tr)

theorem executionUnder_some {h : Host} {id : String} {tr : List (ι × CallEvent V X)} {i : ι}
    {e : CallEvent V X} {x : ι × Mode × CallArgs} (hx : executionUnder h id tr (i, e) = some x) :
    id ∈ handed h (heardBy i tr) ∧ ∃ y, executionOf e = some y := by
  unfold executionUnder at hx
  rw [Option.ite_none_right_eq_some, Option.map_eq_some_iff] at hx
  obtain ⟨hid, y, hy, -⟩ := hx
  exact ⟨hid, y, hy⟩

theorem OneShot.redeemed_of_executionUnder {h : Host} {id : String}
    {tr : List (ι × CallEvent V X)} {i : ι} {e : CallEvent V X} {x : ι × Mode × CallArgs}
    (hone : OneShot h (heardBy i tr)) (he : e ∈ heardBy i tr)
    (hx : executionUnder h id tr (i, e) = some x) :
    ∃ grant, (id, grant) ∈ grants h (heardBy i tr) := by
  obtain ⟨hid, y, hy⟩ := executionUnder_some hx
  have hmem : y ∈ executions (heardBy i tr) := List.mem_filterMap.mpr ⟨e, he, hy⟩
  exact hone.redeemed (List.ne_nil_of_mem hmem) id hid

theorem grants_heardBy {h : Host} {β : Type} {tr : List (ι × CallEvent V X)}
    {key : String × String → β} (hkeys : ((grants h (tr.map Prod.snd)).map key).Nodup) {i j : ι}
    {p q : String × String} (hp : p ∈ grants h (heardBy i tr)) (hq : q ∈ grants h (heardBy j tr))
    (hpq : key p = key q) : i = j := by
  obtain ⟨a, ha, hga⟩ := List.mem_filterMap.mp hp
  obtain ⟨b, hb, hgb⟩ := List.mem_filterMap.mp hq
  have hnodup : (tr.filterMap fun e => (grantedBy h e.2).map key).Nodup := by
    have heq : (grants h (tr.map Prod.snd)).map key =
        tr.filterMap fun e => (grantedBy h e.2).map key := by
      unfold grants
      rw [List.map_filterMap, List.filterMap_map]
      rfl
    rwa [← heq]
  have hsame : (i, a) = (j, b) := by
    refine Dialogue.eq_of_nodup_filterMap hnodup ((Dialogue.mem_heardBy i a tr).mp ha)
      ((Dialogue.mem_heardBy j b tr).mp hb) (c := key p) ?_ ?_
    · rw [hga, Option.map_some]
    · rw [hgb, Option.map_some, hpq]
  exact congrArg Prod.fst hsame

/-- **One approval, one execution.** However the calls are interleaved and answered, an approval
leads to at most one execution, and no two audit events carry the same grant. -/
theorem one_approval_one_execution (h : Host) (calls : ι → Invocation)
    (tr : List (ι × CallEvent V X)) (pool : ι → Call V X V)
    (hsteps : Steps (fun i => (calls i).run h) tr pool) (hserver : OneShotServer h tr) :
    (∀ id, (executionsUnder h id tr).length ≤ 1) ∧ (recordedGrants (tr.map Prod.snd)).Nodup := by
  have hone : ∀ i, OneShot h (heardBy i tr) := fun i =>
    (calls i).run_oneShot h _ _ (hsteps.plays i)
  constructor
  · intro id
    refine Dialogue.length_le_one_of_pairwise (List.pairwise_filterMap.mpr
      (Dialogue.pairwise_by_member tr ?_ ?_))
    · intro i a b hab x hx y hy
      obtain ⟨-, x', hx'⟩ := executionUnder_some hx
      obtain ⟨-, y', hy'⟩ := executionUnder_some hy
      exact Dialogue.no_two_of_length_le_one (hone i).once hab hx' hy'
    · intro i j a b hij ha hb x hx y hy
      obtain ⟨grant, hgrant⟩ := (hone i).redeemed_of_executionUnder ha hx
      obtain ⟨grant', hgrant'⟩ := (hone j).redeemed_of_executionUnder hb hy
      exact hij (grants_heardBy hserver.redeemsOnce hgrant hgrant' rfl)
  · have hgrants : recordedGrants (tr.map Prod.snd) = tr.filterMap fun e => recordedGrant e.2 := by
      unfold recordedGrants
      rw [List.filterMap_map]
      rfl
    rw [hgrants]
    refine List.pairwise_filterMap.mpr (Dialogue.pairwise_by_member tr ?_ ?_)
    · intro i a b hab v hv w hw
      exact absurd (Dialogue.no_two_of_length_le_one (hone i).recordsOnce hab hv hw) not_false
    · intro i j a b hij ha hb v hv w hw hvw
      obtain ⟨id, g, rfl, hmem⟩ := (hone i).recordsOwn v (List.mem_filterMap.mpr ⟨a, ha, hv⟩)
      obtain ⟨id', g', rfl, hmem'⟩ := (hone j).recordsOwn w (List.mem_filterMap.mpr ⟨b, hb, hw⟩)
      exact hij (grants_heardBy hserver.distinctIds hmem hmem' (PyVal.str.inj hvw))

end Pool

/-! ### Two calls handed one approval -/

section Sample

open Dialogue (Plays Result)
open Verify (sampleHost)

/-- The sample call, up to its approval. -/
def sampleWait : List (CallEvent ℕ String) :=
  [⟨.isRevoked "a1" "k1", false⟩, ⟨.utcNow, sampleScript.utcNow⟩,
    ⟨.http (sampleClient.preflightRequest sampleTask.biscuitToken "a" "b" sampleGoverned.ah "a1"
      "k1"), sampleScript.preflight⟩, ⟨.monotonic, 0⟩,
    ⟨.http (sampleClient.approvalRequest "ap1"), sampleScript.status 1⟩]

def sampleRedeem : Call ℕ String String :=
  redeemApproval sampleHost sampleClient "ap1" (sampleTask.biscuitToken.orElse (.str ""))
    sampleGoverned

def sampleRedemption (answer : HttpAnswer) : CallEvent ℕ String :=
  ⟨.http (sampleClient.redeemRequest "ap1" (sampleTask.biscuitToken.orElse (.str ""))), answer⟩

/-- The sample call, from its approval. -/
def sampleExecution : List (CallEvent ℕ String) :=
  [sampleRedemption sampleScript.redeem, ⟨.monotonic, 0⟩, ⟨.execute .sync noArgs, .ok 7⟩,
    ⟨.monotonic, 0⟩, ⟨.push (makeEvent sampleGoverned 0 "allowed" none false (some "r1") 0), ()⟩]

def sampleInvocation (mode : Mode) : Invocation :=
  ⟨.instrumentedTool, mode, some (sampleClient, sampleTask), sampleTool, noArgs, 1⟩

theorem sampleCheck_plays : Plays
    (governanceCheck sampleHost sampleClient sampleTask sampleGoverned : Call ℕ String _)
    (sampleWait.take 3) (.returned (false, some "ap1")) := by
  have hrevoked : Plays (checkRevoked sampleGoverned : Call ℕ String _)
      [⟨.isRevoked "a1" "k1", false⟩] (.returned ()) := .ask _ _ _ _ _ (.done ())
  have hkill : Plays (checkKillSwitch sampleClient sampleGoverned : Call ℕ String _) []
      (.returned ()) := .done ()
  have htoken : Plays (checkVerified sampleHost sampleClient sampleTask.biscuitToken sampleGoverned :
      Call ℕ String _) [⟨.utcNow, sampleScript.utcNow⟩] (.returned ()) := by
    have hask : Plays (utcNow : Call ℕ String _) [⟨.utcNow, sampleScript.utcNow⟩]
      (.returned sampleScript.utcNow) := .ask _ _ _ _ _ (.done _)
    refine hask.bind ?_
    rw [show sampleGoverned.tool = sampleTool from rfl, sampleTask_verified]
    exact .done ()
  have hpreflight : Plays
      (checkPreflight sampleHost sampleClient sampleTask sampleGoverned : Call ℕ String _)
      (sampleWait.drop 2 |>.take 1) (.returned (false, some "ap1")) :=
    .ask _ _ _ _ _ (.done (false, some "ap1"))
  exact hrevoked.bind (hkill.bind (htoken.bind hpreflight))

theorem sampleInvocation_plays (mode : Mode) (tr : List (CallEvent ℕ String))
    (r : Result (Exc String) ℕ)
    (htr : Plays (do
      let grant ← sampleRedeem
      execute mode noArgs sampleGoverned false (some grant) 0) tr r) :
    Plays ((sampleInvocation mode).run sampleHost) (sampleWait ++ tr) r := by
  have hpoll : Plays (pollWith mode sampleHost sampleClient "ap1" 1 : Call ℕ String _)
      (sampleWait.drop 3) (.returned "approved") := by
    cases mode <;> exact .ask _ _ _ _ _ (.ask _ _ _ _ _ (.done "approved"))
  have hfinal : Plays (finalizeApproval sampleGoverned "approved" : Call ℕ String _) []
      (.returned ()) := .done ()
  have hgate : (approvalGate mode sampleHost sampleClient sampleTask sampleGoverned "ap1" 1 :
      Call ℕ String String) = (do
        let outcome ← pollWith mode sampleHost sampleClient "ap1" 1
        finalizeApproval sampleGoverned outcome
        sampleRedeem) := rfl
  have hcall : Plays (governedCall mode sampleHost (some (sampleClient, sampleTask)) sampleTool
      noArgs none 0 1) (sampleWait ++ tr) r := by
    rw [governedCall_eq sampleHost sampleClient sampleTask sampleTool mode noArgs none 0 1 _ rfl,
      ← List.take_append_drop 3 sampleWait, List.append_assoc]
    refine sampleCheck_plays.bind ?_
    have hgated : Plays (do
        let grant ← approvalGate mode sampleHost sampleClient sampleTask sampleGoverned "ap1" 1
        execute mode noArgs sampleGoverned false (some grant) 0) (sampleWait.drop 3 ++ tr) r := by
      rw [hgate]
      simp only [Dialogue.bind_assoc]
      exact hpoll.bind (hfinal.bind htr)
    exact hgated
  rw [Invocation.run, wrapper_eq]
  exact hcall

theorem sampleExecution_plays : Plays ((sampleInvocation .sync).run sampleHost)
    (sampleWait ++ sampleExecution) (.returned 7) := by
  refine sampleInvocation_plays .sync _ _ ?_
  have hredeem : Plays sampleRedeem [sampleRedemption sampleScript.redeem] (.returned "r1") :=
    .ask _ _ _ _ _ (.done "r1")
  have hclock : Plays (monotonic : Call ℕ String ℚ) [⟨.monotonic, 0⟩] (.returned 0) :=
    .ask _ _ _ _ _ (.done 0)
  have hcall : Plays (callFunction .sync noArgs : Call ℕ String _) [⟨.execute .sync noArgs, .ok 7⟩]
      (.returned (.ok 7)) := .ask _ _ _ _ _ (.done _)
  have hlatency : truncate ((0 - 0) * 1000) = 0 := by norm_num [truncate]
  refine hredeem.bind (hclock.bind (hcall.bind (hclock.bind ?_)))
  rw [hlatency]
  exact .ask _ _ _ _ _ (.done 7)

theorem sampleReplay_plays : Plays ((sampleInvocation .async).run sampleHost)
    (sampleWait ++ [sampleRedemption (.response 409 none)]) .unfinished :=
  sampleInvocation_plays .async _ _ (.ask _ _ _ _ _ (.cut _))

/-- Two calls wait for one approval; one redeems it and executes, the other is told it is replayed. -/
def sampleTrace : List (Mode × CallEvent ℕ String) :=
  (sampleWait ++ sampleExecution).map (fun e => (.sync, e)) ++
    (sampleWait ++ [sampleRedemption (.response 409 none)]).map fun e => (.async, e)

example : (executionsUnder sampleHost "ap1" sampleTrace).length = 1 := rfl

theorem sampleTrace_server : OneShotServer sampleHost sampleTrace := by
  have hgrants : grants sampleHost (sampleTrace.map Prod.snd) = [("ap1", "r1")] := rfl
  refine ⟨?_, ?_⟩ <;> rw [hgrants] <;> exact List.nodup_singleton _

theorem one_approval_one_execution_replayed :
    (∀ id, (executionsUnder sampleHost id sampleTrace).length ≤ 1) ∧
      (recordedGrants (sampleTrace.map Prod.snd)).Nodup := by
  have hne : Mode.async ≠ Mode.sync := by decide
  obtain ⟨p, hfirst⟩ := sampleExecution_plays.steps Mode.sync
    (fun mode => ((sampleInvocation mode).run sampleHost : Call ℕ String ℕ)) rfl
  obtain ⟨q, hsecond⟩ := sampleReplay_plays.steps Mode.async
    (Function.update (fun mode => (sampleInvocation mode).run sampleHost) .sync p)
    (by rw [Function.update_of_ne hne])
  exact one_approval_one_execution sampleHost sampleInvocation sampleTrace _
    (hfirst.trans hsecond) sampleTrace_server

end Sample

end Sigil.Gate
