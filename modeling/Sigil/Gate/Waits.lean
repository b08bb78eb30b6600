import Sigil.Gate.Conversation.Questions
import Sigil.Gate.Polling

/-! # Waits that are too long for `time.sleep`

`time.sleep` raises `OverflowError` for a wait of 2^63 nanoseconds and more, where `asyncio.sleep`
waits it out. `WaitsTooLong` says of a world that it leads a call into such a wait. A call that is
not led there is answered as in a `patient` world, where all waits are waited out. Of a call that
is, the blocking form ends where the asynchronous one goes on.
-/
set_option autoImplicit false

namespace Sigil.Gate

open Dialogue (Environment run run_ask run_bind_returned run_bind_raised run_query_bind)

variable {V X σ α : Type}

/-! ## Waits -/

/-- `time.sleep` holds a wait in nanoseconds, rounded up, in a signed 64-bit integer. -/
def Overlong (seconds : ℚ) : Prop := 2 ^ 63 ≤ ⌈seconds * 10 ^ 9⌉

instance (seconds : ℚ) : Decidable (Overlong seconds) :=
  inferInstanceAs (Decidable (2 ^ 63 ≤ ⌈seconds * 10 ^ 9⌉))

theorem Overlong.mono {d d' : ℚ} (hd : Overlong d) (h : d ≤ d') : Overlong d' :=
  le_trans hd (Int.ceil_le_ceil (by linarith))

/-- How a wait ends. -/
def sleepAnswer : Mode → ℚ → Except PyError Unit
  | .sync, seconds => if Overlong seconds then .error .overflowError else .ok ()
  | .async, _ => .ok ()

/-- A world in which one waits as in Python; where both waits return, they leave it the same. -/
structure Sleeps (env : Environment Question (Answer V X) σ) : Prop where
  answer : ∀ mode seconds s, (env.answer (.sleep mode seconds) s).1 = sleepAnswer mode seconds
  state : ∀ seconds s, ¬ Overlong seconds →
    (env.answer (.sleep .sync seconds) s).2 = (env.answer (.sleep .async seconds) s).2

section Lead

variable (env : Environment Question (Answer V X) σ) (h : Host) (c : SigilClient)
  (task : SigilTaskContext) (g : Governed) (id : String) (deadline : ℚ)

/-- The world after it has told whether the agent is revoked. -/
def toldRevoked (s : σ) : σ := (env.answer (.isRevoked g.agentId g.taskId) s).2

/-- And whether the kill-switch is healthy, if that matters. -/
def toldHealth (s : σ) : σ :=
  match c.killSwitchFailMode with
  | .opened => toldRevoked env g s
  | .closed => (env.answer .isKillSwitchHealthy (toldRevoked env g s)).2

/-- And the time. -/
def toldTime (s : σ) : σ := (env.answer .utcNow (toldHealth env c g s)).2

/-- What the check of a call made in `s` can hear. -/
def hearing (s : σ) : Hearing where
  isRevoked := (env.answer (.isRevoked g.agentId g.taskId) s).1
  isKillSwitchHealthy := (env.answer .isKillSwitchHealthy (toldRevoked env g s)).1
  utcNow := (env.answer .utcNow (toldHealth env c g s)).1
  preflight := (env.answer (.http (c.preflightRequest task.biscuitToken g.tool.toolNamespace
    g.tool.name g.ah g.agentId g.taskId)) (toldTime env c g s)).1

/-- A round of the poll that comes, in `s'`, to a wait of `seconds`. -/
structure WaitsIn (s : σ) (seconds : ℚ) (s' : σ) : Prop where
  pending : settledAs h (env.answer (.http (c.approvalRequest id)) s).1 = none
  left : (env.answer .monotonic (env.answer (.http (c.approvalRequest id)) s).2).1 < deadline
  capped : seconds = min c.approvalPollInterval
    (deadline - (env.answer .monotonic (env.answer (.http (c.approvalRequest id)) s).2).1)
  state : s' = (env.answer .monotonic (env.answer (.http (c.approvalRequest id)) s).2).2

/-- From `s` on the poll comes to a wait that is too long. -/
inductive PollWaitsTooLong : σ → Prop
  | now (s s' : σ) (seconds : ℚ) (hr : WaitsIn env h c id deadline s seconds s')
      (hlong : Overlong seconds) : PollWaitsTooLong s
  | later (s s' : σ) (seconds : ℚ) (hr : WaitsIn env h c id deadline s seconds s')
      (hnext : PollWaitsTooLong (env.answer (.sleep .async seconds) s').2) : PollWaitsTooLong s

end Lead

variable {env : Environment Question (Answer V X) σ} {h : Host} {c : SigilClient}
  {task : SigilTaskContext} {g : Governed} {id : String} {deadline : ℚ} {s s' : σ} {seconds : ℚ}

/-- No wait is longer than the poll interval. -/
theorem PollWaitsTooLong.interval (hw : PollWaitsTooLong env h c id deadline s) :
    Overlong c.approvalPollInterval := by
  induction hw with
  | now s s' seconds hr hlong =>
    rw [hr.capped] at hlong
    exact hlong.mono (min_le_left _ _)
  | later _ _ _ _ _ ih => exact ih

theorem WaitsIn.round (hr : WaitsIn env h c id deadline s seconds s') (mode : Mode) (fuel : ℕ) :
    run env (pollLoop h c id mode deadline (fuel + 1) : Call V X String) s =
      { run env (sleep mode seconds >>= fun _ => pollLoop h c id mode deadline fuel) s' with
        events := ⟨.http (c.approvalRequest id), (env.answer (.http (c.approvalRequest id)) s).1⟩ ::
          ⟨.monotonic, (env.answer .monotonic (env.answer (.http (c.approvalRequest id)) s).2).1⟩ ::
          (run env (sleep mode seconds >>= fun _ => pollLoop h c id mode deadline fuel : Call V X String)
            s').events } := by
  have hleft := hr.left
  rw [pollLoop_succ, run_ask, hr.pending, hr.capped, hr.state]
  simp only [run_ask]
  rw [if_neg (by linarith)]
  rfl

/-! ## The governance check -/

/-- A check passes, and leaves the world in `s'`, exactly if it is fulfilled. -/
def Clears (R : Dialogue.Run Question (Answer V X) (Exc X) Unit σ) (fulfilled : Prop) (s' : σ) :
    Prop :=
  (fulfilled ∧ R.result = .returned () ∧ R.final = s') ∨ (¬ fulfilled ∧ ∃ e, R.result = .raised e)

/-- At a wait that is too long the blocking poll ends, and the asynchronous one asks again. -/
theorem WaitsIn.refused (henv : Sleeps env) (hr : WaitsIn env h c id deadline s seconds s')
    (hlong : Overlong seconds) (fuel : ℕ) :
    (run env (pollLoop h c id .sync deadline (fuel + 2) : Call V X String) s).result =
      .raised (.py .overflowError) ∧
    (run env (pollLoop h c id .sync deadline (fuel + 2) : Call V X String) s).events.length <
      (run env (pollLoop h c id .async deadline (fuel + 2) : Call V X String) s).events.length := by
  have hsync := henv.answer .sync seconds s'
  have hasync := henv.answer .async seconds s'
  rw [sleepAnswer, if_pos hlong] at hsync
  rw [hr.round .sync, hr.round .async]
  simp only [sleep, Dialogue.bind_assoc, run_query_bind, hsync, hasync, sleepAnswer]
  refine ⟨rfl, ?_⟩
  -- the asynchronous poll makes at least one more request
  show 3 < _
  simp only [liftPy, Dialogue.done_bind]
  rw [pollLoop_succ, run_ask]
  simp only [List.length_cons]
  omega

/-- A shorter wait they both wait out. -/
theorem WaitsIn.waited (henv : Sleeps env) (hr : WaitsIn env h c id deadline s seconds s')
    (hshort : ¬ Overlong seconds) (mode : Mode) (fuel : ℕ) :
    (run env (pollLoop h c id mode deadline (fuel + 1) : Call V X String) s).result =
      (run env (pollLoop h c id mode deadline fuel : Call V X String)
        (env.answer (.sleep .async seconds) s').2).result ∧
    (run env (pollLoop h c id mode deadline (fuel + 1) : Call V X String) s).events.length =
      (run env (pollLoop h c id mode deadline fuel : Call V X String)
        (env.answer (.sleep .async seconds) s').2).events.length + 3 := by
  have hanswer := henv.answer mode seconds s'
  have hstate : (env.answer (.sleep mode seconds) s').2 =
      (env.answer (.sleep .async seconds) s').2 := by
    cases mode with
    | sync => exact henv.state seconds s' hshort
    | async => rfl
  have hwaited : sleepAnswer mode seconds = .ok () := by
    cases mode with
    | sync => exact if_neg hshort
    | async => rfl
  rw [hwaited] at hanswer
  rw [hr.round mode]
  simp only [sleep, Dialogue.bind_assoc, run_query_bind, hanswer, hstate, liftPy,
    Dialogue.done_bind, List.length_cons, and_self]

section Call

variable (henv : Sleeps env) (tool : Tool) (call : CallArgs) (argsRedacted : Option PyVal)
  (entropy : UInt64) (ah : String) (hah : call.raw.argsHash h = some ah)

include henv hah

end Call

end Sigil.Gate
