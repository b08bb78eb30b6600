import Sigil.Gate.Decision

/-! # The poll of an approval against any clock

A `Timed` world answers as it likes, on a clock that does not go back while a request is answered and
that a sleep moves on by at least what was asked for. `Polls` is the conversation the poll loop may
have with it: a request and a reading of the clock in every round, and a sleep that fits in the time
left. Its end says what the last answer was, and its length is bounded since every round but the last
sleeps for an interval, or for all the time there is.
-/
set_option autoImplicit false

namespace Sigil.Gate

open Dialogue (Environment Run run run_ask)

variable {V X σ : Type}

/-! ## Worlds with a clock -/

structure Timed (V X σ : Type) where
  env : Environment Question (Answer V X) σ
  now : σ → ℚ
  forward : ∀ r s, now s ≤ now (env.answer (.http r) s).2
  /-- The clock is read at some moment while the question is answered. -/
  reads : ∀ s, now s ≤ (env.answer .monotonic s).1 ∧
    (env.answer .monotonic s).1 ≤ now (env.answer .monotonic s).2
  sleeps : ∀ mode d s, 0 ≤ d → (env.answer (.sleep mode d) s).1 = .ok () ∧
    now s + d ≤ now (env.answer (.sleep mode d) s).2

/-- The world of a script keeps time. -/
def Script.timed (S : Script V X) : Timed V X Moment where
  env := S.env
  now := Moment.now
  forward r m := by
    have hlatency := S.latency_nonneg m.polls
    show m.now ≤ (S.answer (.http r) m).2.now
    cases hroute : r.route <;> simp only [Script.answer, hroute, Moment.tick, Moment.polled]
    · rfl
    · rfl
    · linarith
    · rfl
    · rfl
  reads m := ⟨le_rfl, le_rfl⟩
  sleeps mode d m hd := by
    have hovershoot := S.overshoot_nonneg m.polls
    refine ⟨rfl, ?_⟩
    show m.now + d ≤ m.now + (d + S.overshoot m.polls)
    linarith

/-! ## The conversation -/

def requestOf : CallEvent V X → Option (Request × HttpAnswer)
  | ⟨.http r, answer⟩ => some (r, answer)
  | _ => none

def sleepOf : CallEvent V X → Option ℚ
  | ⟨.sleep _ d, _⟩ => some d
  | _ => none

/-- The requests of a conversation, with their answers. -/
def requests (tr : List (CallEvent V X)) : List (Request × HttpAnswer) := tr.filterMap requestOf

/-- The sum of the sleeps asked for. -/
def slept (tr : List (CallEvent V X)) : ℚ := (tr.filterMap sleepOf).foldr (· + ·) 0

/-- What a poll may say and hear, up to its outcome. -/
inductive Polls (h : Host) (c : SigilClient) (id : String) (mode : Mode) (deadline : ℚ) :
    List (CallEvent V X) → String → Prop
  | settled (a : HttpAnswer) (outcome : String) (hs : settledAs h a = some outcome) :
      Polls h c id mode deadline [⟨.http (c.approvalRequest id), a⟩] outcome
  | timeout (a : HttpAnswer) (r : ℚ) (hs : settledAs h a = none) (hr : deadline ≤ r) :
      Polls h c id mode deadline [⟨.http (c.approvalRequest id), a⟩, ⟨.monotonic, r⟩] "timeout"
  | again (a : HttpAnswer) (r : ℚ) (tr : List (CallEvent V X)) (outcome : String)
      (hs : settledAs h a = none) (hr : r < deadline)
      (hnext : Polls h c id mode deadline tr outcome) :
      Polls h c id mode deadline (⟨.http (c.approvalRequest id), a⟩ :: ⟨.monotonic, r⟩ ::
        ⟨.sleep mode (min c.approvalPollInterval (deadline - r)), .ok ()⟩ :: tr) outcome

section Loop

variable (W : Timed V X σ) (h : Host) (c : SigilClient) (id : String) (mode : Mode) (deadline : ℚ)

/-- One round of the loop, question by question. -/
theorem pollLoop_succ (fuel : ℕ) :
    (pollLoop h c id mode deadline (fuel + 1) : Call V X String) =
      .ask (.http (c.approvalRequest id)) fun a =>
        match settledAs h a with
        | some outcome => .done outcome
        | none => .ask .monotonic fun r =>
          if deadline - r ≤ 0 then .done "timeout"
          else .ask (.sleep mode (min c.approvalPollInterval (deadline - r))) fun slept =>
            liftPy slept >>= fun _ => pollLoop h c id mode deadline fuel := by
  rw [pollLoop_step, approvalPollOnce]
  change ((tryStatus h c id >>= _) >>= _ : Call V X String) = _
  rw [tryStatus_eq, Dialogue.ask_bind, Dialogue.ask_bind]
  refine congrArg (Dialogue.ask _) (funext fun a => ?_)
  rw [settledAs, Dialogue.done_bind]
  cases answerText h "status" a with
  | none => rfl
  | some status =>
    by_cases hterm : status ∈ approvalTerminal
    · simp only [if_pos hterm]
      rfl
    · simp only [if_neg hterm, Dialogue.ask_bind, Dialogue.query]
      refine congrArg (Dialogue.ask _) (funext fun r => ?_)
      by_cases hr : deadline - r ≤ 0
      · simp only [if_pos hr, Dialogue.done_bind]
        rfl
      · simp only [if_neg hr, Dialogue.done_bind]
        rfl

/-- A round ends the poll, or sleeps and leaves the rest to the next. -/
theorem pollLoop_round_timed (fuel : ℕ) (s : σ) :
    (∃ outcome tr, (run W.env (pollLoop h c id mode deadline (fuel + 1) : Call V X String) s).result =
        .returned outcome ∧
      (run W.env (pollLoop h c id mode deadline (fuel + 1) : Call V X String) s).events = tr ∧
      Polls h c id mode deadline tr outcome ∧ (requests tr).length = 1 ∧ slept tr = 0) ∨
    ∃ a r s', settledAs h a = none ∧ W.now s ≤ r ∧ r < deadline ∧
      r + min c.approvalPollInterval (deadline - r) ≤ W.now s' ∧
      run W.env (pollLoop h c id mode deadline (fuel + 1) : Call V X String) s =
        { run W.env (pollLoop h c id mode deadline fuel : Call V X String) s' with
          events := ⟨.http (c.approvalRequest id), a⟩ :: ⟨.monotonic, r⟩ ::
            ⟨.sleep mode (min c.approvalPollInterval (deadline - r)), .ok ()⟩ ::
            (run W.env (pollLoop h c id mode deadline fuel : Call V X String) s').events } := by
  rw [pollLoop_succ, run_ask]
  generalize ha : (W.env.answer (.http (c.approvalRequest id)) s).1 = a
  generalize hs₁ : (W.env.answer (.http (c.approvalRequest id)) s).2 = s₁
  have hasked : W.now s ≤ W.now s₁ := by
    rw [← hs₁]
    exact W.forward _ s
  cases hs : settledAs h a with
  | some outcome =>
    exact Or.inl ⟨outcome, _, rfl, rfl, .settled a outcome hs, rfl, rfl⟩
  | none =>
    simp only [run_ask]
    generalize hr : (W.env.answer .monotonic s₁).1 = r
    generalize hs₂ : (W.env.answer .monotonic s₁).2 = s₂
    have hread : W.now s₁ ≤ r ∧ r ≤ W.now s₂ := by
      rw [← hr, ← hs₂]
      exact W.reads s₁
    by_cases hleft : deadline - r ≤ 0
    · simp only [if_pos hleft]
      exact Or.inl ⟨"timeout", _, rfl, rfl, .timeout a r hs (by linarith), rfl, rfl⟩
    · simp only [if_neg hleft, run_ask]
      have hpos : 0 ≤ min c.approvalPollInterval (deadline - r) :=
        le_min c.approvalPollInterval_pos.le (by linarith)
      obtain ⟨hret, hslept⟩ := W.sleeps mode _ s₂ hpos
      rw [hret]
      refine Or.inr ⟨a, r, _, hs, by linarith [hread.1], by linarith, ?_, rfl⟩
      linarith [hread.2]

/-- A loop that may go round often enough ends. It sends a request for every interval in the time
left, and one more, and sleeps no longer than the time left. -/
theorem pollLoop_polls (k : ℕ) (s : σ)
    (hk : deadline - W.now s ≤ k * c.approvalPollInterval) (fuel : ℕ) (hfuel : k < fuel) :
    ∃ outcome tr, (run W.env (pollLoop h c id mode deadline fuel : Call V X String) s).result =
        .returned outcome ∧
      (run W.env (pollLoop h c id mode deadline fuel : Call V X String) s).events = tr ∧
      Polls h c id mode deadline tr outcome ∧ (requests tr).length ≤ k + 1 ∧
      slept tr ≤ max 0 (deadline - W.now s) := by
  obtain ⟨fuel, rfl⟩ : ∃ n, fuel = n + 1 := ⟨fuel - 1, by omega⟩
  induction k generalizing s fuel with
  | zero =>
    rcases pollLoop_round_timed W h c id mode deadline fuel s with
      ⟨outcome, tr, hret, htr, hpolls, hone, hzero⟩ | ⟨a, r, s', -, hread, hlt, -⟩
    · exact ⟨outcome, tr, hret, htr, hpolls, hone.le, by rw [hzero]; exact le_max_left _ _⟩
    · -- no time is left
      rw [Nat.cast_zero, zero_mul] at hk
      linarith
  | succ k ih =>
    rcases pollLoop_round_timed W h c id mode deadline fuel s with
      ⟨outcome, tr, hret, htr, hpolls, hone, hzero⟩ | ⟨a, r, s', hs, hread, hlt, hnow, hrun⟩
    · exact ⟨outcome, tr, hret, htr, hpolls, by omega, by rw [hzero]; exact le_max_left _ _⟩
    · have hnext : deadline - W.now s' ≤ k * c.approvalPollInterval := by
        rcases min_choice c.approvalPollInterval (deadline - r) with hmin | hmin
        · rw [hmin] at hnow
          push_cast at hk
          linarith
        · rw [hmin] at hnow
          have hpos : 0 ≤ (k : ℚ) * c.approvalPollInterval :=
            mul_nonneg (Nat.cast_nonneg k) c.approvalPollInterval_pos.le
          linarith
      obtain ⟨n, rfl⟩ : ∃ n, fuel = n + 1 := ⟨fuel - 1, by omega⟩
      obtain ⟨outcome, tr, hret, htr, hpolls, hcount, hslept⟩ := ih s' hnext n (by omega)
      rw [hrun]
      refine ⟨outcome, _, hret, rfl, .again a r _ outcome hs hlt (htr ▸ hpolls), ?_, ?_⟩
      · rw [htr]
        exact Nat.succ_le_succ hcount
      · rw [htr]
        have hfirst : slept (⟨.http (c.approvalRequest id), a⟩ :: ⟨.monotonic, r⟩ ::
            ⟨.sleep mode (min c.approvalPollInterval (deadline - r)), .ok ()⟩ :: tr :
              List (CallEvent V X)) =
            min c.approvalPollInterval (deadline - r) + slept tr := rfl
        have hcap := min_le_right c.approvalPollInterval (deadline - r)
        rw [hfirst]
        refine le_trans ?_ (le_max_right _ _)
        rcases max_choice 0 (deadline - W.now s') with hmax | hmax
        · rw [hmax] at hslept
          linarith
        · rw [hmax] at hslept
          linarith

end Loop

/-! ## What the outcome says -/

/-- A status was answered, and it is not a final one. -/
def Pending (h : Host) (a : HttpAnswer) : Prop :=
  ∃ status, answerText h "status" a = some status ∧ status ∉ approvalTerminal

theorem settledAs_eq_none {h : Host} {a : HttpAnswer} : settledAs h a = none ↔ Pending h a := by
  rw [settledAs, Pending]
  cases answerText h "status" a with
  | none => simp
  | some status =>
    by_cases hterm : status ∈ approvalTerminal
    · simp [hterm]
    · simp [hterm]

theorem settledAs_eq_some {h : Host} {a : HttpAnswer} {outcome : String}
    (hs : settledAs h a = some outcome) :
    answerText h "status" a = none ∧ outcome = "unavailable" ∨
      answerText h "status" a = some outcome ∧ outcome ∈ approvalTerminal := by
  rw [settledAs] at hs
  cases ht : answerText h "status" a with
  | none =>
    rw [ht] at hs
    exact Or.inl ⟨rfl, (Option.some.inj hs).symm⟩
  | some status =>
    rw [ht] at hs
    simp only at hs
    split_ifs at hs with hterm
    obtain rfl := Option.some.inj hs
    exact Or.inr ⟨rfl, hterm⟩

section Outcome

variable {h : Host} {c : SigilClient} {id : String} {mode : Mode} {deadline : ℚ}
  {tr : List (CallEvent V X)} {outcome : String}

theorem Polls.sent (hp : Polls h c id mode deadline tr outcome) :
    ∀ q ∈ requests tr, q.1 = c.approvalRequest id := by
  induction hp with
  | settled a outcome _ => exact fun q hq => by rw [List.mem_singleton.mp hq]
  | timeout a r _ _ => exact fun q hq => by rw [List.mem_singleton.mp hq]
  | again a r tr outcome _ _ _ ih =>
    intro q hq
    rcases List.mem_cons.mp hq with rfl | hq
    · rfl
    · exact ih q hq

/-- A sleep comes right after a reading of the clock, and fits in the time left at that moment. -/
theorem Polls.capped (hp : Polls h c id mode deadline tr outcome) (pre post : List (CallEvent V X))
    (m : Mode) (d : ℚ) (heq : tr = pre ++ ⟨.sleep m d, .ok ()⟩ :: post) :
    ∃ before r, pre = before ++ [⟨.monotonic, r⟩] ∧ d ≤ deadline - r := by
  induction hp generalizing pre with
  | settled a outcome _ =>
    rcases pre with _ | ⟨e, _ | ⟨e', pre⟩⟩ <;> simp at heq
  | timeout a r _ _ =>
    rcases pre with _ | ⟨e, _ | ⟨e', _ | ⟨e'', pre⟩⟩⟩ <;> simp at heq
  | again a r tr outcome _ hr _ ih =>
    rcases pre with _ | ⟨e, _ | ⟨e', _ | ⟨e'', pre⟩⟩⟩
    · simp at heq
    · simp at heq
    · simp only [List.cons_append, List.nil_append, List.cons.injEq, Sigma.mk.injEq,
        Question.sleep.injEq, heq_eq_eq] at heq
      obtain ⟨rfl, rfl, ⟨⟨-, rfl⟩, -⟩, -⟩ := heq
      exact ⟨[_], r, rfl, min_le_right _ _⟩
    · simp only [List.cons_append, List.cons.injEq] at heq
      obtain ⟨rfl, rfl, rfl, htr⟩ := heq
      obtain ⟨before, r', rfl, hd⟩ := ih pre htr
      exact ⟨_ :: _ :: _ :: before, r', rfl, hd⟩

/-- All answers but the last leave the poll pending. The last settles the outcome, or is pending too
and the clock has reached the deadline. -/
theorem Polls.ends (hp : Polls h c id mode deadline tr outcome) :
    ∃ earlier last, requests tr = earlier ++ [last] ∧ (∀ q ∈ earlier, Pending h q.2) ∧
      (settledAs h last.2 = some outcome ∨ Pending h last.2 ∧ outcome = "timeout" ∧
        ∃ before r, tr = before ++ [⟨.monotonic, r⟩] ∧ deadline ≤ r) := by
  induction hp with
  | settled a outcome hs =>
    exact ⟨[], (_, a), rfl, fun q hq => absurd hq List.not_mem_nil, Or.inl hs⟩
  | timeout a r hs hr =>
    exact ⟨[], (_, a), rfl, fun q hq => absurd hq List.not_mem_nil,
      Or.inr ⟨settledAs_eq_none.mp hs, rfl, [_], r, rfl, hr⟩⟩
  | again a r tr outcome hs hr _ ih =>
    obtain ⟨earlier, last, hreq, hpending, hend⟩ := ih
    refine ⟨(c.approvalRequest id, a) :: earlier, last, ?_, ?_, ?_⟩
    · exact congrArg ((c.approvalRequest id, a) :: ·) hreq
    · exact List.forall_mem_cons.mpr ⟨settledAs_eq_none.mp hs, hpending⟩
    · refine hend.imp_right ?_
      rintro ⟨hlast, ho, before, r', rfl, hr'⟩
      exact ⟨hlast, ho, _ :: _ :: _ :: before, r', rfl, hr'⟩

/-- What a poll reports, and how long it takes. -/
structure Reports (h : Host) (c : SigilClient) (id : String) (deadline : ℚ)
    (tr : List (CallEvent V X)) (outcome : String) : Prop where
  sent : ∀ q ∈ requests tr, q.1 = c.approvalRequest id
  few : (requests tr).length ≤ ⌈c.approvalTimeout / c.approvalPollInterval⌉₊ + 1
  slept_le : slept tr ≤ c.approvalTimeout
  capped : ∀ pre post m d, tr = pre ++ ⟨.sleep m d, .ok ()⟩ :: post →
    ∃ before r, pre = before ++ [⟨.monotonic, r⟩] ∧ d ≤ deadline - r
  terminal : ∀ v ∈ approvalTerminal, outcome = v ↔
    ∃ earlier last, requests tr = earlier ++ [last] ∧ answerText h "status" last.2 = some v ∧
      ∀ q ∈ earlier, Pending h q.2
  unavailable : outcome = "unavailable" ↔
    ∃ earlier last, requests tr = earlier ++ [last] ∧ answerText h "status" last.2 = none
  timeout : outcome = "timeout" → (∀ q ∈ requests tr, Pending h q.2) ∧
    ∃ before r, tr = before ++ [⟨.monotonic, r⟩] ∧ deadline ≤ r

theorem Polls.reports (hp : Polls h c id mode deadline tr outcome)
    (hfew : (requests tr).length ≤ ⌈c.approvalTimeout / c.approvalPollInterval⌉₊ + 1)
    (hslept : slept tr ≤ c.approvalTimeout) : Reports h c id deadline tr outcome := by
  obtain ⟨earlier, last, hreq, hpending, hend⟩ := hp.ends
  have hlast : ∀ {earlier' last'}, requests tr = earlier' ++ [last'] → last' = last := by
    intro earlier' last' h'
    rw [hreq] at h'
    exact (List.singleton_inj.mp (List.append_inj_right' h' rfl)).symm
  refine ⟨hp.sent, hfew, hslept, hp.capped, ?_, ?_, ?_⟩
  · intro v hv
    constructor
    · rintro rfl
      refine ⟨earlier, last, hreq, ?_, hpending⟩
      rcases hend with hs | ⟨-, rfl, -⟩
      · rcases settledAs_eq_some hs with ⟨-, rfl⟩ | ⟨ht, -⟩
        · exact absurd hv (by decide)
        · exact ht
      · exact absurd hv (by decide)
    · rintro ⟨earlier', last', h', ht, -⟩
      rw [hlast h'] at ht
      rcases hend with hs | ⟨⟨status, hstatus, hnot⟩, -⟩
      · rcases settledAs_eq_some hs with ⟨hnone, -⟩ | ⟨hsome, -⟩
        · cases hnone.symm.trans ht
        · exact Option.some.inj (hsome.symm.trans ht)
      · rw [Option.some.inj (hstatus.symm.trans ht)] at hnot
        exact absurd hv hnot
  · constructor
    · rintro rfl
      refine ⟨earlier, last, hreq, ?_⟩
      rcases hend with hs | ⟨-, ho, -⟩
      · rcases settledAs_eq_some hs with ⟨hnone, -⟩ | ⟨-, hterm⟩
        · exact hnone
        · exact absurd hterm (by decide)
      · exact absurd ho (by decide)
    · rintro ⟨earlier', last', h', ht⟩
      rw [hlast h'] at ht
      rcases hend with hs | ⟨⟨status, hstatus, -⟩, -⟩
      · rcases settledAs_eq_some hs with ⟨-, ho⟩ | ⟨hsome, -⟩
        · exact ho
        · cases ht.symm.trans hsome
      · cases ht.symm.trans hstatus
  · rintro rfl
    rcases hend with hs | ⟨hlastPending, -, hclock⟩
    · rcases settledAs_eq_some hs with ⟨-, ho⟩ | ⟨-, hterm⟩
      · exact absurd ho (by decide)
      · exact absurd hterm (by decide)
    · refine ⟨?_, hclock⟩
      rw [hreq]
      exact fun q hq => (List.mem_append.mp hq).elim (hpending q) fun hq => by
        rw [List.mem_singleton.mp hq]
        exact hlastPending

end Outcome

/-- **The poll of an approval ends, and reports truthfully**, against any answers and any clock. -/
theorem pollWith_reports (W : Timed V X σ) (h : Host) (c : SigilClient) (id : String) (mode : Mode)
    (extra : ℕ) (s : σ) :
    ∃ outcome r₀ tr,
      (run W.env (pollWith mode h c id (⌈c.approvalTimeout / c.approvalPollInterval⌉₊ + 1 + extra) :
        Call V X String) s).result = .returned outcome ∧
      (run W.env (pollWith mode h c id (⌈c.approvalTimeout / c.approvalPollInterval⌉₊ + 1 + extra) :
        Call V X String) s).events = ⟨.monotonic, r₀⟩ :: tr ∧
      Reports h c id (r₀ + c.approvalTimeout) tr outcome := by
  rw [pollWith_eq, Dialogue.run_query_bind]
  generalize hr : (W.env.answer .monotonic s).1 = r₀
  generalize hs : (W.env.answer .monotonic s).2 = s₀
  have hread : r₀ ≤ W.now s₀ := by
    rw [← hr, ← hs]
    exact (W.reads s).2
  have hleft : r₀ + c.approvalTimeout - W.now s₀ ≤ c.approvalTimeout := by linarith
  have hk : r₀ + c.approvalTimeout - W.now s₀ ≤
      ⌈c.approvalTimeout / c.approvalPollInterval⌉₊ * c.approvalPollInterval := by
    refine hleft.trans ?_
    have hceil := Nat.le_ceil (c.approvalTimeout / c.approvalPollInterval)
    rwa [div_le_iff₀ c.approvalPollInterval_pos] at hceil
  obtain ⟨outcome, tr, hret, htr, hpolls, hfew, hslept⟩ :=
    pollLoop_polls W h c id mode (r₀ + c.approvalTimeout) _ s₀ hk
      (⌈c.approvalTimeout / c.approvalPollInterval⌉₊ + 1 + extra) (by omega)
  refine ⟨outcome, r₀, tr, hret, by rw [← htr], hpolls.reports hfew (hslept.trans ?_)⟩
  exact max_le c.approvalTimeout_pos.le hleft

section Sample

open Verify (sampleHost)

/-- Three pending answers, each a second under way, and sleeps half a second longer than asked. -/
def waitingScript : Script ℕ String :=
  { sampleScript with
    status := fun n => .response 200
      (some (.dict [(.str "status", .str (if n < 3 then "pending" else "approved"))]))
    latency := fun _ => 1
    latency_nonneg := fun _ => zero_le_one
    overshoot := fun _ => 1 / 2
    overshoot_nonneg := fun _ => by norm_num }

theorem waitingScript_polled : Polled sampleHost waitingScript sampleClient .start "approved" := by
  refine .again 0 _ _ rfl ?_ (.again 1 _ _ rfl ?_ (.again 2 _ _ rfl ?_ (.settled 3 _ _ rfl))) <;>
    norm_num [waitingScript, sampleClient]

theorem pollWith_reports_waiting :
    ∃ r₀ tr, (waitingScript.play (pollWith .sync sampleHost sampleClient "ap1"
        (pollFuel sampleClient + 0)) .start).result = .returned "approved" ∧
      (waitingScript.play (pollWith .sync sampleHost sampleClient "ap1"
        (pollFuel sampleClient + 0)) .start).events = ⟨.monotonic, r₀⟩ :: tr ∧
      Reports sampleHost sampleClient "ap1" (r₀ + 300) tr "approved" := by
  obtain ⟨outcome, r₀, tr, hret, htr, hreports⟩ :=
    pollWith_reports waitingScript.timed sampleHost sampleClient "ap1" .sync 0 .start
  obtain ⟨outcome', hend, hret'⟩ :=
    pollWith_play waitingScript sampleHost sampleClient "ap1" .sync _ le_rfl .start
  obtain rfl := hend.unique waitingScript_polled
  cases hret.symm.trans hret'.returned
  exact ⟨r₀, tr, hret, htr, hreports⟩

end Sample

end Sigil.Gate
