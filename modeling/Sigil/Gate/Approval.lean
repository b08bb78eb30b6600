import Sigil.Gate.Ruling
import Mathlib.Algebra.Order.Floor.Semiring
import Mathlib.Tactic.Linarith

/-! # How an approval ends

`PollEnds` says how the poll of an approval ends, from the status answers and the time left, with no
bound on the number of requests. The loop of the model reaches that end when its bound admits as
many requests as fit in the approval timeout (`pollLoop_play`). The redemption then yields the text
of `revocation_id`, or a reason for denial.
-/
set_option autoImplicit false

namespace Sigil.Gate

open Dialogue (Run)

variable {V X α : Type}

/-! ## Answers -/

/-- `str(result.get(field) or "")` -/
def fieldText (h : Host) (field : String) (kvs : List (PyKey × PyVal)) : String :=
  (((kvs.lookup (.str field)).getD .none).orElse (.str "")).toStr h

/-- The non-empty text of a field of a JSON object, in a response of status 200. -/
def answerText (h : Host) (field : String) (answer : HttpAnswer) : Option String :=
  match answer.json? 200 with
  | some (.dict kvs) => if fieldText h field kvs = "" then none else some (fieldText h field kvs)
  | _ => none

/-- The outcome a status answer settles; `none` is to go on waiting. -/
def settledAs (h : Host) (answer : HttpAnswer) : Option String :=
  match answerText h "status" answer with
  | none => some "unavailable"
  | some status => if status ∈ approvalTerminal then some status else none

def grantOf (h : Host) (answer : HttpAnswer) : Option String := answerText h "revocation_id" answer

def redeemReason : HttpAnswer → String
  | .response status _ =>
    if status = 409 then "approval_replayed" else "approval_token_unavailable"
  | .raised => "approval_token_unavailable"

section Text

variable (h : Host) (name field missing : String) (r : Request) (answer : HttpAnswer)

theorem answerText_eq_some (t : String) (ht : answerText h field answer = some t) :
    ∃ kvs, answer.json? 200 = some (.dict kvs) ∧ fieldText h field kvs = t ∧ t ≠ "" := by
  unfold answerText at ht
  split at ht
  · next kvs hv =>
    split_ifs at ht with hne
    cases ht
    exact ⟨kvs, hv, rfl, hne⟩
  · cases ht

theorem textField_dict (kvs : List (PyKey × PyVal)) :
    SigilClient.textField h field missing (.dict kvs) =
      (if fieldText h field kvs = "" then .error (.api missing 200)
        else .ok (fieldText h field kvs) : Except (Exc X) String) := by
  rw [SigilClient.textField, PyVal.get_dict]
  rfl

theorem textless (ht : answerText h field answer = none) :
    (∃ e : Exc X, SigilClient.receive name 200 r answer = .error e ∧
      redeemDeniedReason e = redeemReason answer) ∨
    ∃ v, (SigilClient.receive name 200 r answer : Except (Exc X) PyVal) = .ok v ∧
      ∃ e : Exc X, SigilClient.textField h field missing v = .error e ∧
        redeemDeniedReason e = redeemReason answer := by
  cases answer with
  | raised => exact Or.inl ⟨_, rfl, rfl⟩
  | response status body =>
    by_cases hs : status = 200
    · subst hs
      cases body with
      | none => exact Or.inl ⟨_, rfl, rfl⟩
      | some v =>
        refine Or.inr ⟨v, rfl, ?_⟩
        cases v with
        | dict kvs =>
          have hempty : fieldText h field kvs = "" := by
            simpa [answerText, HttpAnswer.json?] using ht
          exact ⟨.api missing 200, by rw [textField_dict, if_pos hempty], rfl⟩
        | _ => exact ⟨.py .attributeError, rfl, rfl⟩
    · exact Or.inl ⟨_, if_pos hs, rfl⟩

end Text

section ReadText

variable (h : Host) (name field missing : String) (r : Request) (answer : HttpAnswer)
  (k : PyVal → String → Call V X α)

/-- What is done with the answer to a request for a text field. -/
def readText : Call V X α := do
  let result ← Dialogue.ofExcept (SigilClient.receive name 200 r answer)
  let text ← Dialogue.ofExcept (SigilClient.textField h field missing result)
  k result text

theorem readText_of_text (t : String) (ht : answerText h field answer = some t) :
    ∃ kvs, answer.json? 200 = some (.dict kvs) ∧
      readText h name field missing r answer k = k (.dict kvs) t := by
  obtain ⟨kvs, hv, rfl, hne⟩ := answerText_eq_some h field answer t ht
  refine ⟨kvs, hv, ?_⟩
  rw [readText, receive_of_json name 200 r answer _ hv]
  simp only [Dialogue.ofExcept, Dialogue.done_bind]
  rw [textField_dict, if_neg hne]
  rfl

theorem readText_of_none (ht : answerText h field answer = none) :
    ∃ e : Exc X, redeemDeniedReason e = redeemReason answer ∧
      readText h name field missing r answer k = .fail e := by
  rcases @textless X h name field missing r answer ht with ⟨e, hv, he⟩ | ⟨v, hv, e, htext, he⟩
  · refine ⟨e, he, ?_⟩
    rw [readText, hv]
    rfl
  · refine ⟨e, he, ?_⟩
    rw [readText, hv]
    simp only [Dialogue.ofExcept, Dialogue.done_bind]
    rw [htext]
    rfl

end ReadText

/-! ## Polling -/

/-- What one iteration of the poll makes of a status answer, with so much time left. -/
def pollOnceResult (h : Host) (c : SigilClient) (answer : HttpAnswer) (remaining : ℚ) :
    Option String × ℚ :=
  match settledAs h answer with
  | some outcome => (some outcome, 0)
  | none =>
    if remaining ≤ 0 then (some "timeout", 0) else (none, min c.approvalPollInterval remaining)

/-- One status request was made, and the time it takes has passed. -/
structure Asked (S : Script V X) (m : Moment) (a : α)
    (R : Run Question (Answer V X) (Exc X) α Moment) : Prop extends Returns a R where
  polls : R.final.polls = m.polls + 1
  now : R.final.now = m.now + S.latency m.polls

theorem Asked.bind {β : Type} {S : Script V X} {p : Call V X α} {f : α → Call V X β} {m : Moment}
    {a : α} {b : β} (hp : Asked S m a (S.play p m)) (hf : ∀ m', m'.now = m.now + S.latency m.polls →
      Passes m' b (S.play (f a) m') ∧ (S.play (f a) m').final.now = m'.now) :
    Asked S m b (S.play (p >>= f) m) := by
  obtain ⟨hpass, hnow⟩ := hf (S.play p m).final hp.now
  obtain ⟨-, -, hfin⟩ := play_bind_events (f := f) hp.returned
  refine ⟨hp.toReturns.bind hpass.returns, ?_, ?_⟩
  · rw [hfin, hpass.polls, hp.polls]
  · rw [hfin, hnow, hp.now]

/-- The `try` block of a poll; `none` stands for any exception. -/
def tryStatus (h : Host) (c : SigilClient) (approvalId : String) : Call V X (Option String) :=
  Dialogue.handle (fun _ => some (pure none)) do
    let status ← c.approvalStatus h approvalId
    pure (some status)

/-- It makes one request, and reads the text of its answer. -/
theorem tryStatus_eq (h : Host) (c : SigilClient) (approvalId : String) :
    (tryStatus h c approvalId : Call V X (Option String)) =
      .ask (.http (c.approvalRequest approvalId)) fun answer =>
        .done (answerText h "status" answer) := by
  have hrun : (tryStatus h c approvalId : Call V X (Option String)) =
      .ask (.http (c.approvalRequest approvalId)) fun answer =>
        Dialogue.handle (fun _ => some (pure none))
          (readText h "approval_status" "status" "approval_status: response missing 'status' field"
            (c.approvalRequest approvalId) answer fun _ t => pure (some t)) := by
    simp only [tryStatus, SigilClient.approvalStatus, SigilClient.send, Dialogue.bind_assoc]
    rfl
  rw [hrun]
  refine congrArg (Dialogue.ask _) (funext fun answer => ?_)
  cases ht : answerText h "status" answer with
  | some t =>
    obtain ⟨kvs, -, heq⟩ := readText_of_text h "approval_status" "status"
      "approval_status: response missing 'status' field" (c.approvalRequest approvalId)
      answer (fun _ t => (pure (some t) : Call V X _)) t ht
    rw [heq]
    rfl
  | none =>
    obtain ⟨e, -, heq⟩ := readText_of_none h "approval_status" "status"
      "approval_status: response missing 'status' field" (c.approvalRequest approvalId)
      answer (fun _ t => (pure (some t) : Call V X _)) ht
    rw [heq]
    rfl

theorem status_asked (S : Script V X) (h : Host) (c : SigilClient) (approvalId : String)
    (m : Moment) : Asked S m (answerText h "status" (S.status m.polls))
      (S.play (tryStatus h c approvalId) m) := by
  rw [tryStatus_eq]
  exact ⟨⟨rfl, rfl, rfl⟩, rfl, rfl⟩

theorem play_monotonic (S : Script V X) (f : ℚ → Call V X α) (m : Moment) :
    S.play (monotonic >>= f) m = { S.play (f m.now) m.tick with
      events := ⟨.monotonic, m.now⟩ :: (S.play (f m.now) m.tick).events } := rfl

theorem approvalPollOnce_play (S : Script V X) (h : Host) (c : SigilClient) (approvalId : String)
    (deadline : ℚ) (m : Moment) :
    Asked S m (pollOnceResult h c (S.status m.polls)
        (deadline - (m.now + S.latency m.polls)))
      (S.play (approvalPollOnce h c approvalId deadline) m) := by
  unfold approvalPollOnce
  refine (status_asked S h c approvalId m).bind ?_
  intro m' hnow
  unfold pollOnceResult settledAs
  cases answerText h "status" (S.status m.polls) with
  | none => exact ⟨passes_done S _ m', rfl⟩
  | some status =>
    by_cases hterm : status ∈ approvalTerminal
    · simp only [if_pos hterm]
      exact ⟨passes_done S _ m', rfl⟩
    · simp only [if_neg hterm]
      rw [← hnow, play_monotonic]
      by_cases hrem : deadline - m'.now ≤ 0
      · simp only [if_pos hrem]
        exact ⟨⟨rfl, rfl, rfl, rfl⟩, rfl⟩
      · simp only [if_neg hrem]
        exact ⟨⟨rfl, rfl, rfl, rfl⟩, rfl⟩

/-! ### The loop -/

/-- How the poll ends, from the `n`-th status request on, with so much time left. -/
inductive PollEnds (h : Host) (S : Script V X) (interval : ℚ) : ℕ → ℚ → String → Prop
  | settled (n : ℕ) (remaining : ℚ) (outcome : String)
      (hs : settledAs h (S.status n) = some outcome) : PollEnds h S interval n remaining outcome
  | timeout (n : ℕ) (remaining : ℚ) (hs : settledAs h (S.status n) = none)
      (hr : remaining ≤ S.latency n) : PollEnds h S interval n remaining "timeout"
  | again (n : ℕ) (remaining : ℚ) (outcome : String) (hs : settledAs h (S.status n) = none)
      (hr : S.latency n < remaining)
      (hnext : PollEnds h S interval (n + 1)
        (remaining - S.latency n - min interval (remaining - S.latency n) - S.overshoot (n + 1))
        outcome) : PollEnds h S interval n remaining outcome

theorem PollEnds.unique {h : Host} {S : Script V X} {interval : ℚ} {n : ℕ} {remaining : ℚ}
    {o o' : String} (ho : PollEnds h S interval n remaining o)
    (ho' : PollEnds h S interval n remaining o') : o = o' := by
  induction ho with
  | settled n remaining o hs =>
    cases ho' with
    | settled _ _ _ hs' => exact Option.some.inj (hs.symm.trans hs')
    | timeout _ _ hs' => cases hs.symm.trans hs'
    | again _ _ _ hs' => cases hs.symm.trans hs'
  | timeout n remaining hs hr =>
    cases ho' with
    | settled _ _ _ hs' => cases hs.symm.trans hs'
    | timeout => rfl
    | again _ _ _ _ hr' => exact absurd hr (not_le.mpr hr')
  | again n remaining o hs hr hnext ih =>
    cases ho' with
    | settled _ _ _ hs' => cases hs.symm.trans hs'
    | timeout _ _ _ hr' => exact absurd hr' (not_le.mpr hr)
    | again _ _ _ _ _ hnext' => exact ih hnext'

theorem PollEnds.withRegistry {h : Host} {S : Script V X} {interval : ℚ} {n : ℕ} {remaining : ℚ}
    {outcome : String} (isRevoked : ℕ → String → String → Bool)
    (hp : PollEnds h S interval n remaining outcome) :
    PollEnds h (S.withRegistry isRevoked) interval n remaining outcome := by
  induction hp with
  | settled n remaining outcome hs => exact .settled n remaining outcome hs
  | timeout n remaining hs hr => exact .timeout n remaining hs hr
  | again n remaining outcome hs hr _ ih => exact .again n remaining outcome hs hr ih

/-- One round of the loop ends the poll, or sleeps and leaves the rest to the next round. -/
theorem pollLoop_round (S : Script V X) (h : Host) (c : SigilClient) (approvalId : String)
    (mode : Mode) (deadline : ℚ) (fuel : ℕ) (m : Moment) :
    (∃ outcome, PollEnds h S c.approvalPollInterval m.polls (deadline - m.now) outcome ∧
      Returns outcome (S.play (pollLoop h c approvalId mode deadline (fuel + 1)) m)) ∨
    ∃ m' : Moment, settledAs h (S.status m.polls) = none ∧
      S.latency m.polls < deadline - m.now ∧ m'.polls = m.polls + 1 ∧
      deadline - m'.now = deadline - m.now - S.latency m.polls -
        min c.approvalPollInterval (deadline - m.now - S.latency m.polls) -
        S.overshoot (m.polls + 1) ∧
      ∀ outcome, Returns outcome (S.play (pollLoop h c approvalId mode deadline fuel) m') →
        Returns outcome (S.play (pollLoop h c approvalId mode deadline (fuel + 1)) m) := by
  rw [pollLoop_step]
  have hp := approvalPollOnce_play S h c approvalId deadline m
  have hrem : deadline - (m.now + S.latency m.polls) = deadline - m.now - S.latency m.polls := by
    ring
  rw [hrem] at hp
  unfold pollOnceResult at hp
  cases hs : settledAs h (S.status m.polls) with
  | some outcome =>
    rw [hs] at hp
    refine Or.inl ⟨outcome, .settled _ _ _ hs, ?_⟩
    exact hp.toReturns.bind (passes_done S outcome _).returns
  | none =>
    rw [hs] at hp
    by_cases hle : deadline - m.now - S.latency m.polls ≤ 0
    · simp only [if_pos hle] at hp
      refine Or.inl ⟨"timeout", .timeout _ _ hs (by linarith), ?_⟩
      exact hp.toReturns.bind (passes_done S "timeout" _).returns
    · simp only [if_neg hle] at hp
      have hsleep : Returns () (S.play (sleep mode
          (min c.approvalPollInterval (deadline - m.now - S.latency m.polls)))
          (S.play (approvalPollOnce h c approvalId deadline) m).final) := ⟨rfl, rfl, rfl⟩
      refine Or.inr ⟨(S.play (approvalPollOnce h c approvalId deadline) m).final.after
        (min c.approvalPollInterval (deadline - m.now - S.latency m.polls) +
          S.overshoot (S.play (approvalPollOnce h c approvalId deadline) m).final.polls),
        rfl, by linarith, hp.polls, ?_, ?_⟩
      · rw [Moment.after, hp.now, hp.polls]
        ring
      · intro outcome hnext
        exact hp.toReturns.bind (hsleep.bind hnext)

/-- The loop ends as the poll does, once its bound admits the requests that fit in the time left:
each but the last is followed by a sleep of the interval, or of all the time left. -/
theorem pollLoop_play (S : Script V X) (h : Host) (c : SigilClient) (approvalId : String)
    (mode : Mode) (deadline : ℚ) (fuel : ℕ) (m : Moment)
    (hfuel : deadline - m.now ≤ fuel * c.approvalPollInterval) :
    ∃ outcome, PollEnds h S c.approvalPollInterval m.polls (deadline - m.now) outcome ∧
      Returns outcome (S.play (pollLoop h c approvalId mode deadline (fuel + 1)) m) := by
  induction fuel generalizing m with
  | zero =>
    rcases pollLoop_round S h c approvalId mode deadline 0 m with hend | ⟨m', -, hlt, -⟩
    · exact hend
    · -- no time is left, and requests take no negative time
      have hlat := S.latency_nonneg m.polls
      rw [Nat.cast_zero, zero_mul] at hfuel
      exact absurd (hlt.trans_le hfuel) (not_lt.mpr hlat)
  | succ fuel ih =>
    rcases pollLoop_round S h c approvalId mode deadline (fuel + 1) m with
      hend | ⟨m', hs, hlt, hpolls, hnow, hnext⟩
    · exact hend
    · have hlat := S.latency_nonneg m.polls
      have hover := S.overshoot_nonneg (m.polls + 1)
      have hfuel' : deadline - m'.now ≤ fuel * c.approvalPollInterval := by
        rw [hnow]
        rcases min_choice c.approvalPollInterval (deadline - m.now - S.latency m.polls) with
          hmin | hmin
        · rw [hmin]
          push_cast at hfuel
          linarith
        · rw [hmin]
          have hpos : 0 ≤ (fuel : ℚ) * c.approvalPollInterval :=
            mul_nonneg (Nat.cast_nonneg fuel) c.approvalPollInterval_pos.le
          linarith
      obtain ⟨outcome, hend, hret⟩ := ih m' hfuel'
      rw [hpolls, hnow] at hend
      exact ⟨outcome, .again _ _ _ hs hlt hend, hnext outcome hret⟩

/-- As many requests as fit in the approval timeout, and one more. -/
def pollFuel (c : SigilClient) : ℕ := ⌈c.approvalTimeout / c.approvalPollInterval⌉₊ + 1

theorem pollWith_play (S : Script V X) (h : Host) (c : SigilClient) (approvalId : String)
    (mode : Mode) (fuel : ℕ) (hfuel : pollFuel c ≤ fuel) (m : Moment) :
    ∃ outcome, PollEnds h S c.approvalPollInterval m.polls c.approvalTimeout outcome ∧
      Returns outcome (S.play (pollWith mode h c approvalId fuel) m) := by
  obtain ⟨k, rfl⟩ : ∃ k, fuel = k + 1 := ⟨fuel - 1, by unfold pollFuel at hfuel; omega⟩
  have hk : c.approvalTimeout ≤ k * c.approvalPollInterval := by
    have hceil : c.approvalTimeout / c.approvalPollInterval ≤ k := by
      refine (Nat.le_ceil _).trans ?_
      exact_mod_cast Nat.le_of_succ_le_succ hfuel
    rwa [div_le_iff₀ c.approvalPollInterval_pos] at hceil
  have hclock : Returns m.now (S.play monotonic m) := ⟨rfl, rfl, rfl⟩
  have hleft : m.now + c.approvalTimeout - (S.play (monotonic : Call V X ℚ) m).final.now =
      c.approvalTimeout := add_sub_cancel_left m.now c.approvalTimeout
  obtain ⟨outcome, hend, hret⟩ := pollLoop_play S h c approvalId mode
    (m.now + c.approvalTimeout) k (S.play (monotonic : Call V X ℚ) m).final (by rwa [hleft])
  rw [hleft] at hend
  rw [pollWith_eq]
  exact ⟨outcome, hend, hclock.bind hret⟩

/-! ## After the poll -/

theorem finalizeApproval_approved (S : Script V X) (g : Governed) (m : Moment) :
    Passes m () (S.play (finalizeApproval g "approved") m) := passes_done S () m

theorem finalizeApproval_denied (S : Script V X) (g : Governed) (outcome : String)
    (ho : outcome ≠ "approved") (m : Moment) :
    DeniedWith (.str (finalizeReason outcome))
      [(.buffer, deniedEvent g (some (.str (finalizeReason outcome))))]
      (S.play (finalizeApproval g outcome) m) := by
  unfold finalizeApproval
  rw [if_neg ho]
  exact deny_deniedWith S g _ _ m

section Redeem

variable (S : Script V X) (h : Host) (c : SigilClient) (approvalId : String) (token : PyVal)
  (g : Governed) (m : Moment)

/-- The `try` block of a redemption: a result, or a reason for denial. -/
def tryRedeem : Call V X (Except String PyVal) :=
  Dialogue.handle (fun e => some (pure (.error (redeemDeniedReason e)))) do
    let result ← c.redeemApproval h approvalId token
    pure (.ok result)

/-- What a redemption makes of its answer. -/
def redeemResult (h : Host) (answer : HttpAnswer) : Except String PyVal :=
  match grantOf h answer, answer.json? 200 with
  | some _, some result => .ok result
  | _, _ => .error (redeemReason answer)

/-- It makes one request, and reads its answer. -/
theorem tryRedeem_eq :
    (tryRedeem h c approvalId token : Call V X (Except String PyVal)) =
      .ask (.http (c.redeemRequest approvalId token)) fun answer => .done (redeemResult h answer) := by
  have hrun : (tryRedeem h c approvalId token : Call V X (Except String PyVal)) =
      .ask (.http (c.redeemRequest approvalId token)) fun answer =>
        Dialogue.handle (fun e => some (pure (.error (redeemDeniedReason e))))
          (readText h "redeem_approval" "revocation_id"
            "redeem_approval: response missing 'revocation_id'" (c.redeemRequest approvalId token)
            answer fun result _ => pure (.ok result)) := by
    simp only [tryRedeem, SigilClient.redeemApproval, SigilClient.send, Dialogue.bind_assoc]
    rfl
  rw [hrun]
  refine congrArg (Dialogue.ask _) (funext fun answer => ?_)
  unfold redeemResult
  cases hg : grantOf h answer with
  | some grant =>
    obtain ⟨kvs, hv, heq⟩ := readText_of_text h "redeem_approval" "revocation_id"
      "redeem_approval: response missing 'revocation_id'" (c.redeemRequest approvalId token)
      answer (fun result _ => (pure (.ok result) : Call V X (Except String PyVal))) grant hg
    rw [heq, hv]
    rfl
  | none =>
    obtain ⟨e, he, heq⟩ := readText_of_none h "redeem_approval" "revocation_id"
      "redeem_approval: response missing 'revocation_id'" (c.redeemRequest approvalId token)
      answer (fun result _ => (pure (.ok result) : Call V X (Except String PyVal))) hg
    rw [heq, ← he]
    rfl

/-- An answer yields a grant, or a reason. -/
theorem redeemResult_cases (h : Host) (answer : HttpAnswer) :
    (∃ kvs, grantOf h answer = some (fieldText h "revocation_id" kvs) ∧
      fieldText h "revocation_id" kvs ≠ "" ∧ redeemResult h answer = .ok (.dict kvs)) ∨
    (grantOf h answer = none ∧ redeemResult h answer = .error (redeemReason answer)) := by
  unfold redeemResult
  cases hg : grantOf h answer with
  | some grant =>
    obtain ⟨kvs, hv, rfl, hne⟩ := answerText_eq_some h "revocation_id" answer grant hg
    rw [hv]
    exact Or.inl ⟨kvs, rfl, hne, rfl⟩
  | none => exact Or.inr ⟨rfl, rfl⟩

theorem tryRedeem_returns :
    (∃ kvs, grantOf h S.redeem = some (fieldText h "revocation_id" kvs) ∧
      fieldText h "revocation_id" kvs ≠ "" ∧
      Returns (.ok (.dict kvs)) (S.play (tryRedeem h c approvalId token) m)) ∨
    (grantOf h S.redeem = none ∧
      Returns (.error (redeemReason S.redeem)) (S.play (tryRedeem h c approvalId token) m)) := by
  have hreturns : Returns (redeemResult h S.redeem)
      (S.play (tryRedeem h c approvalId token : Call V X (Except String PyVal)) m) := by
    rw [tryRedeem_eq]
    exact ⟨rfl, rfl, rfl⟩
  rcases redeemResult_cases h S.redeem with ⟨kvs, hg, hne, heq⟩ | ⟨hg, heq⟩
  · rw [heq] at hreturns
    exact Or.inl ⟨kvs, hg, hne, hreturns⟩
  · rw [heq] at hreturns
    exact Or.inr ⟨hg, hreturns⟩

theorem redeemApproval_play :
    (∃ grant, grantOf h S.redeem = some grant ∧
      Returns grant (S.play (redeemApproval h c approvalId token g) m)) ∨
    (grantOf h S.redeem = none ∧ DeniedWith (.str (redeemReason S.redeem))
      [(.buffer, deniedEvent g (some (.str (redeemReason S.redeem))))]
      (S.play (redeemApproval h c approvalId token g) m)) := by
  unfold redeemApproval
  rcases tryRedeem_returns S h c approvalId token m with ⟨kvs, hg, hne, hret⟩ | ⟨hg, hret⟩
  · refine Or.inl ⟨_, hg, hret.bind ?_⟩
    have hget : (PyVal.dict kvs).get "revocation_id" =
        .ok ((kvs.lookup (.str "revocation_id")).getD .none) := PyVal.get_dict kvs _
    refine (liftPy_passes S _ _ hget _).returns.bind ?_
    rw [← fieldText, if_neg hne]
    exact (passes_done S _ _).returns
  · exact Or.inr ⟨hg, hret.bind_denied (deny_deniedWith S g _ _ _)⟩

end Redeem

end Sigil.Gate
