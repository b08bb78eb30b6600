import Sigil.Gate.Conversation.Check

/-! # The conversation of a governed call

Whatever a call is answered, it executes at most once, and one that waits for an approval executes
only after a redemption of its own, whose grant it records.
-/
set_option autoImplicit false

namespace Sigil.Gate

open Dialogue (Ensures Only)

variable {V X α : Type}

/-! ## The approval gate -/

theorem pollWith_plain (h : Host) (mode : Mode) (c : SigilClient) (id : String) (fuel : ℕ) :
    Only (Plain h) (pollWith mode h c id fuel : Call V X String) := by
  have honce : ∀ deadline, Only (Plain h)
      (approvalPollOnce h c id deadline : Call V X (Option String × ℚ)) := by
    intro deadline
    unfold approvalPollOnce
    refine Only.bind (Only.handle ?_ fun e => Dialogue.only_done none) fun status => ?_
    · refine Only.bind ?_ fun status => Dialogue.only_done (some status)
      unfold SigilClient.approvalStatus SigilClient.send
      refine Only.bind (Dialogue.only_query_bind (fun _ => ⟨⟨rfl, rfl⟩, rfl⟩) fun answer => ?_)
        fun result => ofExcept_plain h _
      exact ofExcept_plain h _
    · cases status with
      | none => exact Dialogue.only_done _
      | some status =>
        by_cases hterm : status ∈ approvalTerminal
        · simp only [if_pos hterm]
          exact Dialogue.only_done _
        · simp only [if_neg hterm]
          refine Dialogue.only_query_bind (fun _ => ⟨⟨rfl, rfl⟩, rfl⟩) fun now => ?_
          split <;> exact Dialogue.only_done _
  have hloop : ∀ deadline, Only (Plain h)
      (pollLoop h c id mode deadline fuel : Call V X String) := by
    intro deadline
    induction fuel with
    | zero =>
      rw [pollLoop_zero]
      exact Dialogue.only_spent
    | succ fuel ih =>
      rw [pollLoop_step]
      refine Only.bind (honce deadline) ?_
      rintro ⟨result, sleepFor⟩
      cases result with
      | some result => exact Dialogue.only_done result
      | none =>
        refine Only.bind ?_ fun _ => ih
        exact Dialogue.only_query_bind (fun _ => ⟨⟨rfl, rfl⟩, rfl⟩) fun _ => liftPy_plain h _
  rw [pollWith_eq]
  exact Dialogue.only_query_bind (fun _ => ⟨⟨rfl, rfl⟩, rfl⟩) fun now => hloop _

/-- What may be heard of an approval gate: a grant it returns is one it was given for this
approval. -/
structure Granted (h : Host) (id : String) (tr : List (CallEvent V X))
    (r : Dialogue.Result (Exc X) String) : Prop where
  plain : ∀ e ∈ tr, Plain h e
  own : ∀ grant, r = .returned grant → (id, grant) ∈ grants h tr

structure Redeemed (h : Host) (id : String) (tr : List (CallEvent V X))
    (r : Dialogue.Result (Exc X) (Except String PyVal)) : Prop where
  plain : ∀ e ∈ tr, Plain h e
  own : ∀ result, r = .returned (.ok result) → ∃ kvs, result = .dict kvs ∧
    fieldText h "revocation_id" kvs ≠ "" ∧ (id, fieldText h "revocation_id" kvs) ∈ grants h tr

theorem tryRedeem_redeemed (h : Host) (c : SigilClient) (id : String) (token : PyVal) :
    Ensures (tryRedeem h c id token : Call V X (Except String PyVal)) (Redeemed h id) := by
  rw [tryRedeem_eq]
  refine Dialogue.ensures_ask ⟨by simp, fun _ hr => by cases hr⟩ fun answer => ?_
  have hplain : ∀ e ∈ [(⟨.http (c.redeemRequest id token), answer⟩ : CallEvent V X)], Plain h e := by
    intro e he
    rw [List.mem_singleton.mp he]
    exact ⟨⟨rfl, rfl⟩, rfl⟩
  rcases redeemResult_cases h answer with ⟨kvs, hg, hne, heq⟩ | ⟨hg, heq⟩
  · rw [heq]
    refine Dialogue.ensures_done ⟨hplain, ?_⟩ ⟨hplain, fun _ hr => by cases hr⟩
    intro result hr
    cases hr
    refine ⟨kvs, rfl, hne, List.mem_filterMap.mpr ⟨_, List.mem_singleton_self _, ?_⟩⟩
    exact congrArg (Option.map fun grant => (id, grant)) hg
  · rw [heq]
    exact Dialogue.ensures_done ⟨hplain, fun _ hr => by cases hr⟩ ⟨hplain, fun _ hr => by cases hr⟩

theorem grants_append (h : Host) (tr tr' : List (CallEvent V X)) :
    grants h (tr ++ tr') = grants h tr ++ grants h tr' := List.filterMap_append

theorem redeemApproval_granted (h : Host) (c : SigilClient) (id : String) (token : PyVal)
    (g : Governed) : Ensures (redeemApproval h c id token g : Call V X String) (Granted h id) := by
  unfold redeemApproval
  refine (tryRedeem_redeemed h c id token).bind ?_ ?_ ?_
  · intro tr redeemed htr
    cases redeemed with
    | error reason =>
      refine (deny_refused h g (.str reason) _).mono ?_
      intro tr' r hr
      refine ⟨?_, fun grant hgrant => absurd hgrant (hr.never grant)⟩
      intro e he
      exact (List.mem_append.mp he).elim (htr.plain e) (hr.plain e)
    | ok result =>
      obtain ⟨kvs, rfl, hne, hgrant⟩ := htr.own result rfl
      simp only [PyVal.get_dict, liftPy, Dialogue.done_bind]
      rw [← fieldText, if_neg hne]
      refine Dialogue.ensures_done ?_ ?_
      · rw [List.append_nil]
        refine ⟨htr.plain, ?_⟩
        intro grant hr
        cases hr
        exact hgrant
      · rw [List.append_nil]
        exact ⟨htr.plain, fun _ hr => by cases hr⟩
  · intro tr e htr
    exact ⟨htr.plain, fun _ hr => by cases hr⟩
  · intro tr htr
    exact ⟨htr.plain, fun _ hr => by cases hr⟩

theorem approvalGate_granted (h : Host) (mode : Mode) (c : SigilClient) (task : SigilTaskContext)
    (g : Governed) (id : String) (fuel : ℕ) :
    Ensures (approvalGate mode h c task g id fuel : Call V X String) (Granted h id) := by
  have hgate : (approvalGate mode h c task g id fuel : Call V X String) = (do
      let outcome ← pollWith mode h c id fuel
      finalizeApproval g outcome) >>= fun _ =>
        redeemApproval h c id (task.biscuitToken.orElse (.str "")) g := by
    rw [approvalGate, Dialogue.bind_assoc]
  have hwait : Only (Plain h) (do
      let outcome ← pollWith mode h c id fuel
      finalizeApproval g outcome : Call V X Unit) := by
    refine (pollWith_plain h mode c id fuel).bind fun outcome => ?_
    unfold finalizeApproval
    split
    · exact Dialogue.only_done ()
    · exact deny_plain h g _ _
  rw [hgate]
  refine Ensures.bind hwait ?_ ?_ ?_
  · intro tr _ htr
    refine (redeemApproval_granted h c id (task.biscuitToken.orElse (.str "")) g).mono ?_
    intro tr' r hr
    refine ⟨?_, ?_⟩
    · intro e he
      exact (List.mem_append.mp he).elim (htr e) (hr.plain e)
    · intro grant hgrant
      rw [grants_append]
      exact List.mem_append_right _ (hr.own grant hgrant)
  · intro tr e htr
    exact ⟨htr, fun _ hr => by cases hr⟩
  · intro tr htr
    exact ⟨htr, fun _ hr => by cases hr⟩

/-! ## The execution -/

structure ExecutedOnce (h : Host) (grant : Option String) (tr : List (CallEvent V X)) : Prop where
  once : (executions tr).length ≤ 1
  handsNothing : handed h tr = []
  recordsOnce : (recordedGrants tr).length ≤ 1
  recordsGrant : ∀ v ∈ recordedGrants tr, ∃ id, grant = some id ∧ v = .str id

theorem executedOnce_of_unrecorded (h : Host) (grant : Option String) (tr : List (CallEvent V X))
    (honce : (executions tr).length ≤ 1) (hhanded : handed h tr = [])
    (hrecorded : recordedGrants tr = []) : ExecutedOnce h grant tr := by
  refine ⟨honce, hhanded, ?_, ?_⟩
  · rw [hrecorded]
    exact Nat.zero_le 1
  · intro v hv
    rw [hrecorded] at hv
    cases hv

theorem executedOnce_of_recorded (h : Host) (grant : Option String) (tr : List (CallEvent V X))
    (honce : (executions tr).length ≤ 1) (hhanded : handed h tr = [])
    (hrecorded : recordedGrants tr = ((grant.filter (· ≠ "")).map PyVal.str).toList) :
    ExecutedOnce h grant tr := by
  refine ⟨honce, hhanded, ?_, ?_⟩
  · rw [hrecorded]
    cases (grant.filter (· ≠ "")).map PyVal.str <;> simp
  · intro v hv
    rw [hrecorded, Option.mem_toList, Option.map_eq_some_iff] at hv
    obtain ⟨id, hid, rfl⟩ := hv
    exact ⟨id, (Option.filter_eq_some_iff.mp hid).1, rfl⟩

theorem execute_executedOnce (h : Host) (mode : Mode) (call : CallArgs) (g : Governed)
    (failOpen : Bool) (grant : Option String) (promptEntropy : UInt64) :
    Ensures (execute mode call g failOpen grant promptEntropy : Call V X V)
      fun tr _ => ExecutedOnce h grant tr := by
  rw [execute_eq]
  -- one question after the other: the clock, the function, the clock, the audit event
  refine Dialogue.ensures_ask (executedOnce_of_unrecorded h grant _ (Nat.zero_le 1) rfl rfl) ?_
  intro t0
  refine Dialogue.ensures_ask (executedOnce_of_unrecorded h grant _ (Nat.zero_le 1) rfl rfl) ?_
  intro result
  refine Dialogue.ensures_ask (executedOnce_of_unrecorded h grant _ (Nat.le_refl 1) rfl rfl) ?_
  intro t1
  refine Dialogue.ensures_ask (executedOnce_of_unrecorded h grant _ (Nat.le_refl 1) rfl rfl) ?_
  intro _
  have hrecorded : ExecutedOnce h grant ([⟨.monotonic, t0⟩, ⟨.execute mode call, result⟩,
      ⟨.monotonic, t1⟩, ⟨.push (makeEvent g (truncate ((t1 - t0) * 1000)) (outcomeOf result) none
        failOpen grant promptEntropy), ()⟩] : List (CallEvent V X)) := by
    refine executedOnce_of_recorded h grant _ (Nat.le_refl 1) rfl ?_
    rw [← makeEvent_grant g (truncate ((t1 - t0) * 1000)) (outcomeOf result) none failOpen grant
      promptEntropy]
    exact filterMap_cons_of_nil recordedGrant _ [] rfl
  cases result with
  | ok v => exact Dialogue.ensures_done hrecorded hrecorded
  | error x => exact Dialogue.ensures_fail hrecorded hrecorded

/-! ## The whole call -/

/-- Whatever is heard of a call, it executes at most once, after a redemption of the approval it was
handed, if any, and it records no grant but one it was given. -/
structure OneShot (h : Host) (tr : List (CallEvent V X)) : Prop where
  once : (executions tr).length ≤ 1
  redeemed : executions tr ≠ [] → ∀ id ∈ handed h tr, ∃ grant, (id, grant) ∈ grants h tr
  recordsOnce : (recordedGrants tr).length ≤ 1
  recordsOwn : ∀ v ∈ recordedGrants tr, ∃ id grant, v = .str grant ∧ (id, grant) ∈ grants h tr

theorem executions_of_preliminary {tr : List (CallEvent V X)} (htr : ∀ e ∈ tr, Preliminary e) :
    executions tr = [] := List.filterMap_eq_nil_iff.mpr fun e he => (htr e he).1

theorem recordedGrants_of_preliminary {tr : List (CallEvent V X)}
    (htr : ∀ e ∈ tr, Preliminary e) : recordedGrants tr = [] :=
  List.filterMap_eq_nil_iff.mpr fun e he => (htr e he).2

theorem oneShot_of_preliminary (h : Host) {tr : List (CallEvent V X)}
    (htr : ∀ e ∈ tr, Preliminary e) : OneShot h tr := by
  have hexec : executions tr = [] := executions_of_preliminary htr
  have hrecorded : recordedGrants tr = [] := recordedGrants_of_preliminary htr
  refine ⟨?_, fun hne => absurd hexec hne, ?_, ?_⟩
  · rw [hexec]
    exact Nat.zero_le 1
  · rw [hrecorded]
    exact Nat.zero_le 1
  · intro v hv
    rw [hrecorded] at hv
    cases hv

/-- An execution with a grant given before it, for the approval handed out before it. -/
theorem ExecutedOnce.oneShot {h : Host} {grant : Option String} {before tr : List (CallEvent V X)}
    (hexec : ExecutedOnce h grant tr) (hbefore : ∀ e ∈ before, Preliminary e)
    (hhanded : ∀ id ∈ handed h before, ∃ grant, (id, grant) ∈ grants h before)
    (hgrant : ∀ g, grant = some g → ∃ id, (id, g) ∈ grants h before) : OneShot h (before ++ tr) := by
  have hrecorded : recordedGrants (before ++ tr) = recordedGrants tr := by
    unfold recordedGrants
    rw [List.filterMap_append, ← recordedGrants, recordedGrants_of_preliminary hbefore,
      List.nil_append]
  refine ⟨?_, ?_, ?_, ?_⟩
  · rw [executions_append, executions_of_preliminary hbefore, List.nil_append]
    exact hexec.once
  · intro _ id hid
    rw [handed_append, hexec.handsNothing, List.append_nil] at hid
    obtain ⟨grant, hmem⟩ := hhanded id hid
    rw [grants_append]
    exact ⟨grant, List.mem_append_left _ hmem⟩
  · rw [hrecorded]
    exact hexec.recordsOnce
  · intro v hv
    rw [hrecorded] at hv
    obtain ⟨g, hg, rfl⟩ := hexec.recordsGrant v hv
    obtain ⟨id, hmem⟩ := hgrant g hg
    rw [grants_append]
    exact ⟨id, g, rfl, List.mem_append_left _ hmem⟩

theorem governedCall_oneShot (mode : Mode) (h : Host)
    (current : Option (SigilClient × SigilTaskContext)) (tool : Tool) (call : CallArgs)
    (argsRedacted : Option PyVal) (promptEntropy : UInt64) (fuel : ℕ) :
    Ensures (governedCall mode h current tool call argsRedacted promptEntropy fuel : Call V X V)
      fun tr _ => OneShot h tr := by
  have hnone : OneShot h ([] : List (CallEvent V X)) := oneShot_of_preliminary h (by simp)
  cases current with
  | none => exact Dialogue.ensures_fail hnone hnone
  | some current =>
    obtain ⟨c, task⟩ := current
    cases hah : call.raw.argsHash h with
    | none =>
      rw [governedCall_unhashed h c task tool mode call argsRedacted promptEntropy fuel hah]
      exact Dialogue.ensures_fail hnone hnone
    | some ah =>
      rw [governedCall_eq h c task tool mode call argsRedacted promptEntropy fuel ah hah]
      refine (governanceCheck_checked h c task (governed c task tool ah argsRedacted)).bind ?_ ?_ ?_
      · rintro tr ⟨failOpen, approvalId⟩ hcheck
        have hhanded : handed h tr = approvalId.toList := hcheck.approval failOpen approvalId rfl
        cases approvalId with
        | none =>
          refine (execute_executedOnce h mode call _ failOpen none promptEntropy).mono ?_
          intro tr' _ hexec
          refine hexec.oneShot hcheck.preliminary ?_ fun g hg => by cases hg
          intro id hid
          rw [hhanded] at hid
          cases hid
        | some id =>
          have hgates : ∀ gate, (∀ e ∈ gate, Plain h e) → ∀ e ∈ tr ++ gate, Preliminary e := by
            intro gate hgate e he
            exact (List.mem_append.mp he).elim (hcheck.preliminary e) fun he => (hgate e he).1
          refine (approvalGate_granted h mode c task _ id fuel).bind ?_ ?_ ?_
          · intro gate grant hgate
            refine (execute_executedOnce h mode call _ failOpen (some grant) promptEntropy).mono ?_
            intro tr' _ hexec
            have hmem : (id, grant) ∈ grants h (tr ++ gate) := by
              rw [grants_append]
              exact List.mem_append_right _ (hgate.own grant rfl)
            rw [← List.append_assoc]
            refine hexec.oneShot (hgates gate hgate.plain) ?_ ?_
            · intro id' hid'
              rw [handed_append, handed_of_plain hgate.plain, hhanded, List.append_nil,
                Option.toList_some, List.mem_singleton] at hid'
              subst hid'
              exact ⟨grant, hmem⟩
            · intro g hg
              cases hg
              exact ⟨id, hmem⟩
          · intro gate _ hgate
            exact oneShot_of_preliminary h (hgates gate hgate.plain)
          · intro gate hgate
            exact oneShot_of_preliminary h (hgates gate hgate.plain)
      · intro tr _ hcheck
        exact oneShot_of_preliminary h hcheck.preliminary
      · intro tr hcheck
        exact oneShot_of_preliminary h hcheck.preliminary

end Sigil.Gate
