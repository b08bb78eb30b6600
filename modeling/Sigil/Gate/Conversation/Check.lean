import Sigil.Gate.Audit

/-! # The conversation of a governance check

Nothing is assumed about the answers here. Whatever they are, a check calls nothing and records no
grant, and the approval it returns is the one preflight handed out.
-/
set_option autoImplicit false

namespace Sigil.Gate

open Dialogue (Ensures Only)

variable {V X α : Type}

/-! ## What an event says of approvals -/

/-- The approval a preflight answer asks the caller to wait for. -/
def handedIn (h : Host) (answer : HttpAnswer) : Option String :=
  match answer.json? 200 with
  | some (.dict kvs) => match ruleVerdict h kvs with
    | .pending id => some id
    | _ => none
  | _ => none

def handedOf (h : Host) : CallEvent V X → Option String
  | ⟨.http r, answer⟩ => match r.route with
    | .preflight => handedIn h answer
    | _ => none
  | _ => none

/-- A successful redemption: the approval, and the text of its revocation id. -/
def grantedBy (h : Host) : CallEvent V X → Option (String × String)
  | ⟨.http r, answer⟩ => match r.route with
    | .redeem id => (grantOf h answer).map fun grant => (id, grant)
    | _ => none
  | _ => none

def recordedGrant (e : CallEvent V X) : Option PyVal :=
  (auditOf e).bind fun a => eventField a.2 "approval_grant_id"

def handed (h : Host) (tr : List (CallEvent V X)) : List String := tr.filterMap (handedOf h)

def grants (h : Host) (tr : List (CallEvent V X)) : List (String × String) :=
  tr.filterMap (grantedBy h)

def recordedGrants (tr : List (CallEvent V X)) : List PyVal := tr.filterMap recordedGrant

/-- An event before the execution: it calls nothing and records no grant. -/
def Preliminary (e : CallEvent V X) : Prop := executionOf e = none ∧ recordedGrant e = none

/-- A preliminary event that hands out no approval. -/
def Plain (h : Host) (e : CallEvent V X) : Prop := Preliminary e ∧ handedOf h e = none

theorem plain_deniedEvent (h : Host) (g : Governed) (reason : Option PyVal) :
    Plain h (⟨.push (deniedEvent g reason), ()⟩ : CallEvent V X) ∧
      Plain h (⟨.overflowWrite (deniedEvent g reason), ()⟩ : CallEvent V X) := by
  have hgrant : eventField (deniedEvent g reason) "approval_grant_id" = none := makeEvent_grant ..
  exact ⟨⟨⟨rfl, hgrant⟩, rfl⟩, ⟨rfl, hgrant⟩, rfl⟩

structure Refused (h : Host) (tr : List (CallEvent V X)) (r : Dialogue.Result (Exc X) α) : Prop where
  plain : ∀ e ∈ tr, Plain h e
  declined : ∀ e, r = .raised e → e.isUnreachable = false
  never : ∀ a, r ≠ .returned a

theorem deny_refused (h : Host) (g : Governed) (reason : PyVal) (message : String) :
    Ensures (deny g reason message : Call V X α) (Refused h) := by
  refine Dialogue.ensures_ask ⟨by simp, by simp, by simp⟩ fun _ => ?_
  have hplain : ∀ e ∈ [(⟨.push (deniedEvent g (some reason)), ()⟩ : CallEvent V X)], Plain h e := by
    intro e he
    rw [List.mem_singleton.mp he]
    exact (plain_deniedEvent h g _).1
  refine Dialogue.ensures_fail ⟨hplain, ?_, by simp⟩ ⟨hplain, by simp, by simp⟩
  intro e he
  cases he
  rfl

theorem deny_plain (h : Host) (g : Governed) (reason : PyVal) (message : String) :
    Only (Plain h) (deny g reason message : Call V X α) :=
  (deny_refused h g reason message).mono fun _ _ hr => hr.plain

theorem liftPy_plain (h : Host) (r : Except PyError α) :
    Only (Plain h) (liftPy r : Call V X α) := by
  cases r with
  | ok a => exact Dialogue.only_done a
  | error e => exact Dialogue.only_fail _

theorem ofExcept_plain (h : Host) (r : Except (Exc X) α) :
    Only (Plain h) (Dialogue.ofExcept r : Call V X α) := by
  cases r with
  | ok a => exact Dialogue.only_done a
  | error e => exact Dialogue.only_fail e

/-! ## The governance check -/

theorem localChecks_plain (h : Host) (c : SigilClient) (task : SigilTaskContext) (g : Governed) :
    Only (Plain h) (do
      checkRevoked g
      checkKillSwitch c g
      checkToken h c task g : Call V X Unit) := by
  refine Only.bind ?_ fun _ => Only.bind ?_ fun _ => ?_
  · unfold checkRevoked
    refine Dialogue.only_query_bind (fun _ => ⟨⟨rfl, rfl⟩, rfl⟩) fun revoked => ?_
    cases revoked with
    | true => exact deny_plain h g _ _
    | false => exact Dialogue.only_done ()
  · unfold checkKillSwitch
    cases c.killSwitchFailMode with
    | opened => exact Dialogue.only_done ()
    | closed =>
      refine Dialogue.only_query_bind (fun _ => ⟨⟨rfl, rfl⟩, rfl⟩) fun healthy => ?_
      cases healthy with
      | true => exact Dialogue.only_done ()
      | false => exact deny_plain h g _ _
  · unfold checkToken
    split
    · exact Dialogue.only_fail _
    · unfold checkVerified
      refine Dialogue.only_query_bind (fun _ => ⟨⟨rfl, rfl⟩, rfl⟩) fun now => ?_
      refine Only.bind (liftPy_plain h _) fun vr => ?_
      split
      · exact Dialogue.only_done ()
      · exact Dialogue.only_query_bind (fun _ => (plain_deniedEvent h g _).1)
          fun _ => Dialogue.only_fail _

/-- What may be heard once preflight has answered, if it hands out `id`. -/
structure Judged (h : Host) (id : Option String) (tr : List (CallEvent V X))
    (r : Dialogue.Result (Exc X) (Bool × Option String)) : Prop where
  plain : ∀ e ∈ tr, Plain h e
  declined : ∀ e, r = .raised e → e.isUnreachable = false
  approval : ∀ failOpen a, r = .returned (failOpen, a) → a = id

theorem judged_unfinished (h : Host) (id : Option String) (tr : List (CallEvent V X))
    (htr : ∀ e ∈ tr, Plain h e) : Judged h id tr .unfinished := by
  refine ⟨htr, ?_, ?_⟩
  · intro e he
    cases he
  · intro failOpen a ha
    cases ha

theorem done_judged (h : Host) (failOpen : Bool) (id : Option String) :
    Ensures (.done (failOpen, id) : Call V X (Bool × Option String)) (Judged h id) := by
  refine Dialogue.ensures_done ⟨by simp, ?_, ?_⟩ (judged_unfinished h id [] (by simp))
  · intro e he
    cases he
  · intro failOpen' a ha
    cases ha
    rfl

theorem fail_judged (h : Host) (id : Option String) (e : Exc X) (he : e.isUnreachable = false) :
    Ensures (.fail e : Call V X (Bool × Option String)) (Judged h id) := by
  refine Dialogue.ensures_fail ⟨by simp, ?_, ?_⟩ (judged_unfinished h id [] (by simp))
  · intro e' he'
    cases he'
    exact he
  · intro failOpen a ha
    cases ha

theorem deny_judged (h : Host) (g : Governed) (reason : PyVal) (message : String)
    (id : Option String) :
    Ensures (deny g reason message : Call V X (Bool × Option String)) (Judged h id) :=
  (deny_refused h g reason message).mono fun _ _ hr =>
    ⟨hr.plain, hr.declined, fun _ _ ha => absurd ha (hr.never _)⟩

theorem judgeVerdict_judged (h : Host) (g : Governed) (kvs : List (PyKey × PyVal)) :
    Ensures (judgeVerdict h g (.dict kvs) : Call V X (Bool × Option String))
      (Judged h (match ruleVerdict h kvs with | .pending id => some id | _ => none)) := by
  unfold judgeVerdict ruleVerdict
  simp only [PyVal.get_dict, liftPy, Dialogue.done_bind]
  split
  · exact deny_judged h g _ _ _
  · split
    · split
      · exact done_judged h false _
      · exact deny_judged h g _ _ _
    · split
      · exact done_judged h false none
      · exact deny_judged h g _ _ _

theorem preflight_answer_judged (h : Host) (c : SigilClient) (g : Governed) (name : String)
    (r : Request) (answer : HttpAnswer) :
    Ensures (Dialogue.handle
      (fun e => if e.isUnreachable then some (afterUnreachable c g) else none)
      (Dialogue.ofExcept (SigilClient.receive name 200 r answer) >>= judgeVerdict h g :
        Call V X (Bool × Option String))) (Judged h (handedIn h answer)) := by
  unfold handedIn
  cases hv : answer.json? 200 with
  | none =>
    obtain ⟨e, hreceive, he⟩ := @receive_of_no_json X name 200 r answer hv
    rw [hreceive]
    have hhandle : (Dialogue.handle
        (fun e => if e.isUnreachable then some (afterUnreachable c g) else none)
        (Dialogue.ofExcept (.error e) >>= judgeVerdict h g) : Call V X (Bool × Option String)) =
        afterUnreachable c g := by
      simp [Dialogue.ofExcept, Dialogue.handle, he]
    rw [hhandle]
    unfold afterUnreachable handlePreflightUnreachable
    cases c.failMode with
    | opened => exact done_judged h true none
    | closed =>
      refine Dialogue.ensures_ask (judged_unfinished h none [] (by simp)) fun _ => ?_
      refine (fail_judged h none _ rfl).mono ?_
      intro tr r hr
      refine ⟨?_, hr.declined, hr.approval⟩
      intro e he
      rcases List.mem_cons.mp he with rfl | he
      · exact (plain_deniedEvent h g _).2
      · exact hr.plain e he
  | some v =>
    rw [receive_of_json name 200 r answer v hv]
    simp only [Dialogue.ofExcept, Dialogue.done_bind]
    have hjudge : Ensures (judgeVerdict h g v : Call V X (Bool × Option String))
        (Judged h (match some v with
          | some (.dict kvs) => match ruleVerdict h kvs with
            | .pending id => some id
            | _ => none
          | _ => none)) := by
      cases v with
      | dict kvs => exact judgeVerdict_judged h g kvs
      | _ => exact fail_judged h none (.py .attributeError) rfl
    refine hjudge.handle (fun _ _ hr => hr) ?_ fun _ hr => hr
    intro tr e hr
    rw [if_neg (by rw [hr.declined e rfl]; exact Bool.false_ne_true)]
    refine Dialogue.ensures_fail (by simpa using hr) ?_
    rw [List.append_nil]
    exact judged_unfinished h _ tr hr.plain

/-- What may be heard of a governance check: nothing is called, no grant is recorded, and the
approval it returns is the one preflight handed out. -/
structure Checked (h : Host) (tr : List (CallEvent V X))
    (r : Dialogue.Result (Exc X) (Bool × Option String)) : Prop where
  preliminary : ∀ e ∈ tr, Preliminary e
  approval : ∀ failOpen a, r = .returned (failOpen, a) → handed h tr = a.toList

theorem handed_of_plain {h : Host} {tr : List (CallEvent V X)} (htr : ∀ e ∈ tr, Plain h e) :
    handed h tr = [] := List.filterMap_eq_nil_iff.mpr fun e he => (htr e he).2

theorem handed_append (h : Host) (tr tr' : List (CallEvent V X)) :
    handed h (tr ++ tr') = handed h tr ++ handed h tr' := List.filterMap_append

theorem filterMap_cons_of_nil {β γ : Type} (f : β → Option γ) (b : β) (l : List β)
    (hl : l.filterMap f = []) : (b :: l).filterMap f = (f b).toList := by
  cases hb : f b with
  | none => rw [List.filterMap_cons_none hb, hl, Option.toList_none]
  | some c => rw [List.filterMap_cons_some hb, hl, Option.toList_some]

theorem checked_unfinished {h : Host} {tr : List (CallEvent V X)} (htr : ∀ e ∈ tr, Preliminary e) :
    Checked h tr .unfinished := by
  refine ⟨htr, ?_⟩
  intro failOpen a ha
  cases ha

theorem checkPreflight_checked (h : Host) (c : SigilClient) (task : SigilTaskContext)
    (g : Governed) : Ensures (checkPreflight h c task g : Call V X (Bool × Option String))
      (Checked h) := by
  unfold checkPreflight
  split
  · refine Dialogue.ensures_ask (checked_unfinished (by simp)) fun answer => ?_
    refine (preflight_answer_judged h c g "preflight" _ answer).mono ?_
    intro tr r hr
    refine ⟨?_, ?_⟩
    · intro e he
      rcases List.mem_cons.mp he with rfl | he
      · exact ⟨rfl, rfl⟩
      · exact (hr.plain e he).1
    · intro failOpen a ha
      rw [hr.approval failOpen a ha]
      exact filterMap_cons_of_nil _ _ tr (handed_of_plain hr.plain)
  · refine Dialogue.ensures_done ⟨by simp, ?_⟩ (checked_unfinished (by simp))
    intro failOpen a ha
    cases ha
    rfl

theorem governanceCheck_checked (h : Host) (c : SigilClient) (task : SigilTaskContext)
    (g : Governed) : Ensures (governanceCheck h c task g : Call V X (Bool × Option String))
      (Checked h) := by
  have hassoc : (governanceCheck h c task g : Call V X (Bool × Option String)) = (do
      checkRevoked g
      checkKillSwitch c g
      checkToken h c task g) >>= fun _ => checkPreflight h c task g := by
    unfold governanceCheck
    simp only [Dialogue.bind_assoc]
  rw [hassoc]
  refine Ensures.bind (localChecks_plain h c task g) ?_ ?_ ?_
  · intro tr _ htr
    refine (checkPreflight_checked h c task g).mono ?_
    intro tr' r hr
    refine ⟨?_, ?_⟩
    · intro e he
      exact (List.mem_append.mp he).elim (fun he => (htr e he).1) (hr.preliminary e)
    · intro failOpen a ha
      rw [handed_append, handed_of_plain htr, List.nil_append]
      exact hr.approval failOpen a ha
  · intro tr e htr
    refine ⟨fun e he => (htr e he).1, ?_⟩
    intro failOpen a ha
    cases ha
  · intro tr htr
    exact checked_unfinished fun e he => (htr e he).1

end Sigil.Gate
