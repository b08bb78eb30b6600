import Sigil.Gate.Conversation.Call
import Sigil.Library.Told

/-! # What the fail modes decide

Two clients that differ in their fail modes alone. Whatever call one of them executes the other
executes too, in the same conversation but for the question whether the kill-switch is healthy,
unless it is the one that fails closed and preflight has failed (`fail_modes_decide`).
-/
set_option autoImplicit false

namespace Sigil.Gate

open Dialogue (Plays handle_congr plays_query)

variable {V X α β : Type}

/-- The question that only a client with a closed kill-switch mode asks. -/
def asksHealth : CallEvent V X → Bool
  | ⟨.isKillSwitchHealthy, _⟩ => true
  | _ => false

/-- The conversation without that question. -/
def otherwise (tr : List (CallEvent V X)) : List (CallEvent V X) := tr.filter fun e => !asksHealth e

theorem otherwise_append (tr tr' : List (CallEvent V X)) :
    otherwise (tr ++ tr') = otherwise tr ++ otherwise tr' := List.filter_append ..

/-- A preflight that was answered by no JSON response of status 200. -/
def failsPreflight : CallEvent V X → Bool
  | ⟨.http r, answer⟩ => r.route = .preflight ∧ answer.json? 200 = none
  | _ => false

/-- What `p` returns `p'` may return, in the same conversation but for that question. -/
def Mirrors (ok : CallEvent V X → Prop) (p p' : Call V X α) : Prop :=
  ∀ tr a, Plays p tr (.returned a) → (∀ e ∈ tr, ok e) →
    ∃ tr', Plays p' tr' (.returned a) ∧ otherwise tr' = otherwise tr

section Mirrors

variable {ok : CallEvent V X → Prop}

theorem mirrors_refl (p : Call V X α) : Mirrors ok p p := fun tr _ hp _ => ⟨tr, hp, rfl⟩

theorem Mirrors.bind {p p' : Call V X α} {f f' : α → Call V X β} (hp : Mirrors ok p p')
    (hf : ∀ a, Mirrors ok (f a) (f' a)) : Mirrors ok (p >>= f) (p' >>= f') := by
  intro tr b hplays hok
  obtain ⟨a, tr₁, tr₂, rfl, hfirst, hrest⟩ := hplays.bind_inv
  obtain ⟨tr₁', hfirst', hsame₁⟩ := hp tr₁ a hfirst fun e he => hok e (List.mem_append_left _ he)
  obtain ⟨tr₂', hrest', hsame₂⟩ := hf a tr₂ b hrest fun e he => hok e (List.mem_append_right _ he)
  refine ⟨tr₁' ++ tr₂', hfirst'.bind hrest', ?_⟩
  rw [otherwise_append, otherwise_append, hsame₁, hsame₂]

theorem mirrors_ask {q : Question} {k k' : Answer V X q → Call V X α}
    (hk : ∀ a, ok ⟨q, a⟩ → Mirrors ok (k a) (k' a)) : Mirrors ok (.ask q k) (.ask q k') := by
  intro tr b hplays hok
  cases hplays with
  | ask _ _ a tr _ hrest =>
    obtain ⟨tr', hrest', hsame⟩ := hk a (hok _ List.mem_cons_self) tr b hrest
      fun e he => hok e (List.mem_cons_of_mem _ he)
    refine ⟨⟨q, a⟩ :: tr', .ask q k' a tr' _ hrest', ?_⟩
    rw [otherwise, otherwise, List.filter_cons, List.filter_cons]
    split
    · exact congrArg _ hsame
    · exact hsame

end Mirrors

/-! ## The checks -/

section Checks

variable {h : Host} {c : SigilClient} {task : SigilTaskContext} {g : Governed} {f k : FailMode}
  {ok : CallEvent V X → Prop}

variable (c f k) in
/-- The same client with other fail modes. -/
def withFailModes : SigilClient := { c with failMode := f, killSwitchFailMode := k }

theorem deny_not_returned {reason : PyVal} {message : String} {tr : List (CallEvent V X)} {a : α}
    (hplays : Plays (deny g reason message : Call V X α) tr (.returned a)) : False := by
  cases hplays with
  | ask _ _ _ _ _ hrest => cases hrest

theorem checkKillSwitch_mirrors :
    Mirrors ok (checkKillSwitch c g : Call V X Unit) (checkKillSwitch (withFailModes c f k) g) := by
  intro tr a hplays _
  have hsilent : otherwise tr = [] := by
    unfold checkKillSwitch at hplays
    cases hmode : c.killSwitchFailMode with
    | opened =>
      rw [hmode] at hplays
      cases hplays
      rfl
    | closed =>
      rw [hmode] at hplays
      cases hplays with
      | ask _ _ healthy _ _ hrest =>
        cases healthy with
        | true =>
          cases hrest
          rfl
        | false => exact (deny_not_returned hrest).elim
  rw [hsilent]
  cases k with
  | opened => exact ⟨[], .done (), rfl⟩
  | closed =>
    refine ⟨[⟨.isKillSwitchHealthy, true⟩], ?_, rfl⟩
    unfold checkKillSwitch withFailModes
    have hasked : Plays (isKillSwitchHealthy : Call V X Bool) [⟨.isKillSwitchHealthy, true⟩]
        (.returned true) := plays_query (A := Answer V X) Question.isKillSwitchHealthy true
    refine hasked.bind ?_
    exact .done ()

/-- A verdict is judged without a transport or an API error. -/
theorem judgeVerdict_declined (v : PyVal) (tr : List (CallEvent V X)) (e : Exc X)
    (hplays : Plays (judgeVerdict h g v) tr (.raised e)) : e.isUnreachable = false := by
  cases v with
  | dict kvs => exact (judgeVerdict_judged h g kvs tr _ hplays).declined e rfl
  | _ =>
    cases hplays
    rfl

/-- The two clients part only where preflight has failed. -/
def Undecided (c : SigilClient) (f : FailMode) (e : CallEvent V X) : Prop :=
  f = .closed → c.failMode = .opened → failsPreflight e = false

theorem afterUnreachable_mirrors (hundecided : f = .closed → c.failMode = .closed) :
    Mirrors ok (afterUnreachable c g : Call V X (Bool × Option String))
      (afterUnreachable (withFailModes c f k) g) := by
  intro tr a hplays _
  unfold afterUnreachable handlePreflightUnreachable at hplays ⊢
  cases hmode : c.failMode with
  | closed =>
    rw [hmode] at hplays
    cases hplays with
    | ask _ _ _ _ _ hrest => cases hrest
  | opened =>
    rw [hmode] at hplays
    cases f with
    | closed => cases (hundecided rfl).symm.trans hmode
    | opened => exact ⟨tr, hplays, rfl⟩

/-- Once preflight has been answered. -/
theorem answered_mirrors (r : Request) (answer : HttpAnswer)
    (hundecided : answer.json? 200 = none → f = .closed → c.failMode = .closed) :
    Mirrors ok
      (Dialogue.handle (fun e => if e.isUnreachable then some (afterUnreachable c g) else none)
        (Dialogue.ofExcept (SigilClient.receive "preflight" 200 r answer) >>= judgeVerdict h g :
          Call V X (Bool × Option String)))
      (Dialogue.handle
        (fun e => if e.isUnreachable then some (afterUnreachable (withFailModes c f k) g) else none)
        (Dialogue.ofExcept (SigilClient.receive "preflight" 200 r answer) >>=
          judgeVerdict h g)) := by
  cases hv : answer.json? 200 with
  | none =>
    obtain ⟨e, hreceive, he⟩ := @receive_of_no_json X "preflight" 200 r answer hv
    rw [hreceive]
    simp only [Dialogue.ofExcept, Dialogue.fail_bind, Dialogue.handle, he, if_true,
      Option.getD_some]
    exact afterUnreachable_mirrors (hundecided hv)
  | some v =>
    rw [receive_of_json "preflight" 200 r answer v hv]
    simp only [Dialogue.ofExcept, Dialogue.done_bind]
    rw [handle_congr _ fun e =>
      if e.isUnreachable then some (afterUnreachable (withFailModes c f k) g) else none]
    · exact mirrors_refl _
    · intro tr e he
      rw [judgeVerdict_declined v tr e he]
      rfl

theorem checkPreflight_mirrors :
    Mirrors (Undecided c f) (checkPreflight h c task g : Call V X (Bool × Option String))
      (checkPreflight h (withFailModes c f k) task g) := by
  unfold checkPreflight
  split
  · refine mirrors_ask fun answer hok => answered_mirrors _ answer fun hnone hclosed => ?_
    by_contra hopened
    have hfails := hok hclosed (by cases hmode : c.failMode with
      | closed => exact absurd hmode hopened
      | opened => rfl)
    simp [failsPreflight, SigilClient.preflightRequest, hnone] at hfails
  · exact mirrors_refl _

theorem governanceCheck_mirrors :
    Mirrors (Undecided c f) (governanceCheck h c task g : Call V X (Bool × Option String))
      (governanceCheck h (withFailModes c f k) task g) :=
  (mirrors_refl _).bind fun _ => checkKillSwitch_mirrors.bind fun _ =>
    (mirrors_refl (checkToken h c task g)).bind fun _ => checkPreflight_mirrors

/-! ## The call -/

theorem pollLoop_withFailModes (id : String) (mode : Mode) (deadline : ℚ) (fuel : ℕ) :
    (pollLoop h (withFailModes c f k) id mode deadline fuel : Call V X String) =
      pollLoop h c id mode deadline fuel := by
  induction fuel with
  | zero => rfl
  | succ fuel ih =>
    have honce : approvalPollOnce h (withFailModes c f k) id deadline =
        (approvalPollOnce h c id deadline : Call V X (Option String × ℚ)) := rfl
    rw [pollLoop_step, pollLoop_step, honce, ih]

theorem approvalGate_withFailModes (mode : Mode) (id : String) (fuel : ℕ) :
    (approvalGate mode h (withFailModes c f k) task g id fuel : Call V X String) =
      approvalGate mode h c task g id fuel := by
  unfold approvalGate
  simp only [pollWith_eq, pollLoop_withFailModes]
  rfl

end Checks

/-- **What the fail modes decide.** A call that one client executes is executed, and ends alike, at
a client that differs in its fail modes alone, in the same conversation but for the kill-switch
question; unless that client fails closed where the first does not, and preflight has failed. -/
theorem fail_modes_decide (h : Host) (c : SigilClient) (f k : FailMode) (task : SigilTaskContext)
    (d : Decorator) (mode : Mode) (tool : Tool) (call : CallArgs) (fuel : ℕ)
    (tr : List (CallEvent V X)) (r : Dialogue.Result (Exc X) V)
    (hplays : Plays (wrapper d mode h (some (c, task)) tool call fuel) tr r)
    (hexecuted : executions tr ≠ [])
    (hanswered : f = .closed → c.failMode = .opened → ∀ e ∈ tr, failsPreflight e = false) :
    ∃ tr', Plays (wrapper d mode h (some (withFailModes c f k, task)) tool call fuel) tr' r ∧
      otherwise tr' = otherwise tr := by
  rw [wrapper_eq] at hplays ⊢
  cases hah : call.raw.argsHash h with
  | none =>
    rw [governedCall_unhashed h c task tool mode call _ _ fuel hah] at hplays
    cases hplays <;> exact absurd rfl hexecuted
  | some ah =>
    have hgoverned : governed (withFailModes c f k) task tool ah (d.argsRedacted call) =
        governed c task tool ah (d.argsRedacted call) := rfl
    rw [governedCall_eq h c task tool mode call _ _ fuel ah hah] at hplays
    rw [governedCall_eq h _ task tool mode call _ _ fuel ah hah, hgoverned]
    simp only [approvalGate_withFailModes]
    generalize governed c task tool ah (d.argsRedacted call) = g at hplays
    have hnone (tr : List (CallEvent V X)) (x : Dialogue.Result (Exc X) (Bool × Option String))
        (hchecks : Plays (governanceCheck h c task g) tr x) : executions tr = [] :=
      executions_of_preliminary (governanceCheck_checked h c task g tr x hchecks).preliminary
    obtain ⟨a, tr₁, tr₂, rfl, hchecks, hrest⟩ | ⟨x, hchecks⟩ := hplays.bind_cases
    · obtain ⟨tr₁', hchecks', hsame⟩ := governanceCheck_mirrors tr₁ a hchecks
        fun e he hf hc => hanswered hf hc e (List.mem_append_left _ he)
      refine ⟨tr₁' ++ tr₂, hchecks'.bind hrest, ?_⟩
      rw [otherwise_append, otherwise_append, hsame]
    · exact absurd (hnone tr x hchecks) hexecuted

/-- A call that waits for an approval, at a client that denies when the kill-switch is degraded. -/
theorem fail_modes_decide_approved : ∃ tr', Plays
    (wrapper .instrumentedTool .sync Verify.sampleHost
      (some (withFailModes sampleClient .closed .closed, sampleTask)) sampleTool noArgs
      (pollFuel sampleClient)) tr' (sampleCall sampleScript).result ∧
    otherwise tr' = otherwise (sampleCall sampleScript).events := by
  have hone : (executions (sampleCall sampleScript).events).length = 1 := by decide +kernel
  refine fail_modes_decide Verify.sampleHost sampleClient .closed .closed sampleTask
    .instrumentedTool .sync sampleTool noArgs (pollFuel sampleClient) _ _
    (Dialogue.plays_run sampleScript.env _ .start) ?_ fun _ hopened => by cases hopened
  intro hnil
  rw [show executions (sampleCall sampleScript).events = [] from hnil] at hone
  cases hone

end Sigil.Gate
