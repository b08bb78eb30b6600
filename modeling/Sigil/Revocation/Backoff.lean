import Sigil.Revocation.Health
import Mathlib.Tactic.Linarith
import Mathlib.Tactic.Ring
import Mathlib.Algebra.Order.Field.Rat

/-! # Reconnecting

The thread waits before it connects again: half a second after the first failure, then twice as long
each time, up to half a minute, and from the beginning once it has subscribed. A `Pace` is where the
thread stands and how often it has failed since; it is read off the conversation, and says how long
each wait is, that no two attempts follow each other without one, and that the stop event ends them.
-/
set_option autoImplicit false

namespace Sigil.Revocation

open Dialogue (query attempt ofExcept Follows Guided Plays Result)

/-- The wait after `n` failures without a subscription in between, and one more. -/
def backoffAt : ℕ → ℚ
  | 0 => initialBackoff
  | n + 1 => min (backoffAt n * 2) maxBackoff

theorem backoffAt_eq (n : ℕ) : backoffAt n = min (initialBackoff * 2 ^ n) maxBackoff := by
  induction n with
  | zero =>
    have hle : initialBackoff ≤ maxBackoff := by
      unfold initialBackoff maxBackoff
      norm_num
    rw [backoffAt, pow_zero, mul_one, min_eq_left hle]
  | succ n ih =>
    have hdouble : initialBackoff * 2 ^ (n + 1) = initialBackoff * 2 ^ n * 2 := by ring
    rw [backoffAt, ih, hdouble]
    by_cases hle : initialBackoff * 2 ^ n ≤ maxBackoff
    · rw [min_eq_left hle]
    · have hmax : (0 : ℚ) < maxBackoff := by
        unfold maxBackoff
        norm_num
      rw [not_le] at hle
      rw [min_eq_right hle.le, min_eq_right (by linarith), min_eq_right (by linarith)]

/-! ## Pace -/

inductive Phase where
  | starting
  /-- at the head of the outer loop, or taking a connection down before it -/
  | ready
  /-- the stop event was not set -/
  | trying
  | connecting
  | online
  /-- the read loop has seen the stop event -/
  | leaving
  | failed
  /-- the flag is cleared, the stop event not looked at yet -/
  | cleared
  | backing
  | over
  deriving DecidableEq

structure Pace where
  phase : Phase
  /-- failures since the last subscription -/
  failures : ℕ

namespace Pace

def start : Pace := ⟨.starting, 0⟩

inductive Step : Pace → ListenEvent → Pace → Prop where
  | importRedis (n : ℕ) : Step ⟨.starting, n⟩ ⟨.importRedis, true⟩ ⟨.ready, n⟩
  | noRedis (n : ℕ) : Step ⟨.starting, n⟩ ⟨.importRedis, false⟩ ⟨.over, n⟩
  | goOn (n : ℕ) : Step ⟨.ready, n⟩ ⟨.stopIsSet, false⟩ ⟨.trying, n⟩
  | stop (n : ℕ) : Step ⟨.ready, n⟩ ⟨.stopIsSet, true⟩ ⟨.over, n⟩
  | fromUrl (n : ℕ) : Step ⟨.trying, n⟩ ⟨.fromUrl, .ok ()⟩ ⟨.connecting, n⟩
  | fromUrlFails (n : ℕ) : Step ⟨.trying, n⟩ ⟨.fromUrl, .error ()⟩ ⟨.failed, n⟩
  | subscribe (n : ℕ) : Step ⟨.connecting, n⟩ ⟨.subscribe, .ok ()⟩ ⟨.online, 0⟩
  | subscribeFails (n : ℕ) : Step ⟨.connecting, n⟩ ⟨.subscribe, .error ()⟩ ⟨.failed, n⟩
  | setConnected (n : ℕ) : Step ⟨.online, n⟩ ⟨.setConnected, ()⟩ ⟨.online, n⟩
  | readOn (n : ℕ) : Step ⟨.online, n⟩ ⟨.stopIsSet, false⟩ ⟨.online, n⟩
  | leave (n : ℕ) : Step ⟨.online, n⟩ ⟨.stopIsSet, true⟩ ⟨.leaving, n⟩
  | message (n : ℕ) (m : Option Message) : Step ⟨.online, n⟩ ⟨.getMessage, .ok m⟩ ⟨.online, n⟩
  | readFails (n : ℕ) : Step ⟨.online, n⟩ ⟨.getMessage, .error ()⟩ ⟨.failed, n⟩
  | apply (n : ℕ) (data : Option Payload) (r : Except Unit Unit) :
      Step ⟨.online, n⟩ ⟨.apply data, r⟩ ⟨.online, n⟩
  | clearLeaving (n : ℕ) : Step ⟨.leaving, n⟩ ⟨.clearConnected, ()⟩ ⟨.ready, n⟩
  | unsubscribe (n : ℕ) (r : Except Unit Unit) : Step ⟨.ready, n⟩ ⟨.unsubscribe, r⟩ ⟨.ready, n⟩
  | close (n : ℕ) (r : Except Unit Unit) : Step ⟨.ready, n⟩ ⟨.close, r⟩ ⟨.ready, n⟩
  | clearFailed (n : ℕ) : Step ⟨.failed, n⟩ ⟨.clearConnected, ()⟩ ⟨.cleared, n⟩
  | backOff (n : ℕ) : Step ⟨.cleared, n⟩ ⟨.stopIsSet, false⟩ ⟨.backing, n⟩
  | giveUp (n : ℕ) : Step ⟨.cleared, n⟩ ⟨.stopIsSet, true⟩ ⟨.over, n⟩
  | wait (n : ℕ) : Step ⟨.backing, n⟩ ⟨.wait (backoffAt n), ()⟩ ⟨.ready, n + 1⟩

end Pace

/-! ## The thread keeps to it -/

theorem handleMessage_paced (m : Message) (n : ℕ) :
    Guided Pace.Step (handleMessage m) ⟨.online, n⟩ fun x s => x = .ok () ∧ s = ⟨.online, n⟩ := by
  have happly : ∀ data : Option Payload, Guided Pace.Step
      (.ask (.apply data) fun r => attempt (ofExcept r : Listen Unit) >>= fun _ => .done () :
        Listen Unit) ⟨.online, n⟩ fun x s => x = .ok () ∧ s = ⟨.online, n⟩ := by
    intro data
    refine Dialogue.guided_ask fun r => ⟨⟨.online, n⟩, .apply n data r, ?_⟩
    cases r <;> exact Dialogue.guided_done () ⟨rfl, rfl⟩
  cases m with
  | garbled => exact Dialogue.guided_done () ⟨rfl, rfl⟩
  | rejected => exact happly none
  | payload p => exact happly (some p)

theorem readLoop_paced (fuel n : ℕ) :
    Guided Pace.Step (readLoop fuel) ⟨.online, n⟩ fun x s =>
      (x = .ok () ∧ s = ⟨.leaving, n⟩) ∨ (x = .error () ∧ s = ⟨.failed, n⟩) := by
  induction fuel with
  | zero => exact Dialogue.guided_spent
  | succ fuel ih =>
    refine Dialogue.guided_query_bind fun stopped => ?_
    cases stopped with
    | true => exact ⟨⟨.leaving, n⟩, .leave n, Dialogue.guided_done () (Or.inl ⟨rfl, rfl⟩)⟩
    | false =>
      refine ⟨⟨.online, n⟩, .readOn n, Dialogue.guided_query_bind fun r => ?_⟩
      cases r with
      | error e => exact ⟨⟨.failed, n⟩, .readFails n, Dialogue.guided_fail e (Or.inr ⟨rfl, rfl⟩)⟩
      | ok found =>
        refine ⟨⟨.online, n⟩, .message n found, ?_⟩
        cases found with
        | none => exact ih
        | some m =>
          refine (handleMessage_paced m n).bind ?_ ?_
          · intro a s hmid
            rw [hmid.2]
            exact ih
          · intro e s hmid
            cases hmid.1

theorem connect_paced (n : ℕ) : Guided Pace.Step connect ⟨.trying, n⟩ fun x s =>
    (x = .ok () ∧ s = ⟨.online, 0⟩) ∨ (x = .error () ∧ s = ⟨.failed, n⟩) := by
  refine Dialogue.guided_query_bind fun r => ?_
  cases r with
  | error e =>
    exact ⟨⟨.failed, n⟩, .fromUrlFails n, Dialogue.guided_fail e (Or.inr ⟨rfl, rfl⟩)⟩
  | ok a =>
    refine ⟨⟨.connecting, n⟩, .fromUrl n, Dialogue.guided_query_bind fun r => ?_⟩
    cases r with
    | error e =>
      exact ⟨⟨.failed, n⟩, .subscribeFails n, Dialogue.guided_fail e (Or.inr ⟨rfl, rfl⟩)⟩
    | ok b => exact ⟨⟨.online, 0⟩, .subscribe n, Dialogue.guided_done b (Or.inl ⟨rfl, rfl⟩)⟩

theorem disconnect_paced (n : ℕ) : Guided Pace.Step (do
      ofExcept (← query ListenQuestion.unsubscribe)
      ofExcept (← query ListenQuestion.close) : Listen Unit) ⟨.ready, n⟩
    fun _ s => s = ⟨.ready, n⟩ := by
  refine Dialogue.guided_query_bind fun r => ⟨⟨.ready, n⟩, .unsubscribe n r, ?_⟩
  cases r with
  | error e => exact Dialogue.guided_fail e rfl
  | ok _ =>
    refine Dialogue.guided_query_bind fun r' => ⟨⟨.ready, n⟩, .close n r', ?_⟩
    exact Dialogue.guided_end r' rfl

theorem session_paced (fuel n : ℕ) : Guided Pace.Step (session fuel) ⟨.online, n⟩ fun x s =>
    (x = .ok () ∧ s = ⟨.ready, n⟩) ∨ (x = .error () ∧ s = ⟨.failed, n⟩) := by
  refine Dialogue.guided_query_bind fun _ => ⟨⟨.online, n⟩, .setConnected n, ?_⟩
  refine (readLoop_paced fuel n).bind ?_ ?_
  · intro a s hmid
    obtain ⟨-, rfl⟩ | ⟨hraised, -⟩ := hmid
    · refine Dialogue.guided_query_bind fun _ => ⟨⟨.ready, n⟩, .clearLeaving n, ?_⟩
      refine (disconnect_paced n).attempt_bind ?_
      intro x s hs
      rw [hs]
      exact Dialogue.guided_done () (Or.inl ⟨rfl, rfl⟩)
    · cases hraised
  · intro e s hmid
    obtain ⟨hreturned, -⟩ | ⟨hraised, rfl⟩ := hmid
    · cases hreturned
    · exact Or.inr ⟨hraised, rfl⟩

theorem backOff_paced (n : ℕ) :
    Guided Pace.Step (backOff (backoffAt n)) ⟨.failed, n⟩ fun x s =>
      (x = .ok true ∧ s = ⟨.ready, n + 1⟩) ∨ (x = .ok false ∧ s = ⟨.over, n⟩) := by
  refine Dialogue.guided_query_bind fun _ => ⟨⟨.cleared, n⟩, .clearFailed n, ?_⟩
  refine Dialogue.guided_query_bind fun stopped => ?_
  cases stopped with
  | true => exact ⟨⟨.over, n⟩, .giveUp n, Dialogue.guided_done false (Or.inr ⟨rfl, rfl⟩)⟩
  | false =>
    refine ⟨⟨.backing, n⟩, .backOff n, Dialogue.guided_query_bind fun _ => ?_⟩
    exact ⟨⟨.ready, n + 1⟩, .wait n, Dialogue.guided_done true (Or.inl ⟨rfl, rfl⟩)⟩

/-- The back-off the loop carries is the one for the failures so far. -/
theorem runLoop_paced (fuel rounds n : ℕ) :
    Guided Pace.Step (runLoop fuel rounds (backoffAt n)) ⟨.ready, n⟩ fun _ _ => True := by
  induction rounds generalizing n with
  | zero => exact Dialogue.guided_spent
  | succ rounds ih =>
    have hback : ∀ m : ℕ, Guided Pace.Step (do
        if ← backOff (backoffAt m) then runLoop fuel rounds (min (backoffAt m * 2) maxBackoff)
        else pure ()) ⟨.failed, m⟩ fun _ _ => True := by
      intro m
      refine (backOff_paced m).bind ?_ ?_
      · intro again s hmid
        obtain ⟨hagain, rfl⟩ | ⟨hagain, rfl⟩ := hmid
        · cases hagain
          exact ih (m + 1)
        · cases hagain
          exact Dialogue.guided_done () trivial
      · exact fun _ _ _ => trivial
    refine Dialogue.guided_query_bind fun stopped => ?_
    cases stopped with
    | true => exact ⟨⟨.over, n⟩, .stop n, Dialogue.guided_done () trivial⟩
    | false =>
      refine ⟨⟨.trying, n⟩, .goOn n, (connect_paced n).attempt_bind ?_⟩
      intro x s hmid
      obtain ⟨rfl, rfl⟩ | ⟨rfl, rfl⟩ := hmid
      · refine (session_paced fuel 0).attempt_bind ?_
        intro x s hmid
        obtain ⟨rfl, rfl⟩ | ⟨rfl, rfl⟩ := hmid
        · exact ih 0
        · exact hback 0
      · exact hback n

theorem run_paced (fuel : ℕ) : Guided Pace.Step (run fuel) Pace.start fun _ _ => True := by
  refine Dialogue.guided_query_bind fun found => ?_
  cases found with
  | true => exact ⟨⟨.ready, 0⟩, .importRedis 0, runLoop_paced fuel fuel 0⟩
  | false => exact ⟨⟨.over, 0⟩, .noRedis 0, Dialogue.guided_done () trivial⟩

/-! ## What a conversation tells -/

/-- A wait follows a failure; a subscription forgets them. -/
def failuresAfter (n : ℕ) : ListenEvent → ℕ
  | ⟨.subscribe, .ok _⟩ => 0
  | ⟨.wait _, _⟩ => n + 1
  | _ => n

/-- Failures since the last subscription. -/
def failuresOf (tr : List ListenEvent) : ℕ := tr.foldl failuresAfter 0

/-- A wait, or the stop event seen. -/
def pauses : ListenEvent → Bool
  | ⟨.wait _, _⟩ => true
  | ⟨.stopIsSet, true⟩ => true
  | _ => false

/-- The stop event is looked at and not set. -/
def seesNoStop : ListenEvent → Bool
  | ⟨.stopIsSet, false⟩ => true
  | _ => false

/-- What the thread does on its way out. -/
def winds : ListenQuestion → Bool
  | .stopIsSet | .clearConnected | .unsubscribe | .close => true
  | _ => false

namespace Pace

theorem step_failures (s s' : Pace) (e : ListenEvent) (h : Step s e s') :
    failuresAfter s.failures e = s'.failures := by
  cases h <;> rfl

theorem step_wait (s s' : Pace) (seconds : ℚ) (h : Step s ⟨.wait seconds, ()⟩ s') :
    seconds = backoffAt s.failures := by
  cases h
  rfl

theorem step_fromUrl (s s' : Pace) (r : Except Unit Unit) (h : Step s ⟨.fromUrl, r⟩ s') :
    s.phase = .trying ∧ (s'.phase = .connecting ∨ s'.phase = .failed) := by
  cases h <;> simp

/-- An attempt is under way, or has failed and is not waited for yet. -/
def Away (s : Pace) : Prop :=
  s.phase ∈ [.connecting, .online, .failed, .cleared, .backing, .over]

theorem step_away (s s' : Pace) (e : ListenEvent) (h : Step s e s') (he : pauses e = false)
    (hs : s.Away) : s'.Away := by
  unfold Away at hs ⊢
  cases h <;> simp_all [pauses]

/-- The thread is on its way out. -/
def Leaving (s : Pace) : Prop := s.phase = .leaving ∨ s.phase = .ready ∨ s.phase = .over

theorem step_stop (s s' : Pace) (h : Step s ⟨.stopIsSet, true⟩ s') : s'.Leaving := by
  cases h <;> simp [Leaving]

theorem step_leaving (s s' : Pace) (e : ListenEvent) (h : Step s e s')
    (he : seesNoStop e = false) (hs : s.Leaving) :
    s'.Leaving ∧ winds e.1 = true := by
  unfold Leaving at hs ⊢
  cases h <;> simp_all [seesNoStop, winds]

end Pace

/-- How the thread goes about reconnecting. -/
structure Paced (tr : List ListenEvent) : Prop where
  /-- Each wait is the one for the failures since the last subscription. -/
  waits : ∀ before seconds after, tr = before ++ ⟨.wait seconds, ()⟩ :: after →
    seconds = min (initialBackoff * 2 ^ failuresOf before) maxBackoff
  /-- Between two attempts it waits, or has seen the stop event. -/
  spaced : ∀ before r between r' after,
    tr = before ++ ⟨.fromUrl, r⟩ :: between ++ ⟨.fromUrl, r'⟩ :: after →
    ∃ e ∈ between, pauses e = true
  /-- Once the stop event is seen, and stays set, it only takes down what it has. -/
  stops : ∀ before after, tr = before ++ ⟨.stopIsSet, true⟩ :: after →
    (∀ e ∈ after, seesNoStop e = false) → ∀ e ∈ after, winds e.1 = true

theorem failuresOf_follows (tr : List ListenEvent) (s : Pace) (h : Follows Pace.Step Pace.start tr s) :
    failuresOf tr = s.failures := by
  refine h.history (fun s before => failuresOf before = s.failures) ?_ [] rfl
  intro s e s' before hpast hstep
  rw [failuresOf, List.foldl_append]
  exact (congrArg (fun n => failuresAfter n e) hpast).trans (Pace.step_failures s s' e hstep)

theorem paced_of_follows (tr : List ListenEvent) (s : Pace)
    (h : Follows Pace.Step Pace.start tr s) : Paced tr where
  waits := by
    intro before seconds after htr
    rw [htr] at h
    obtain ⟨s₁, s₂, hbefore, hstep, -⟩ := h.at
    rw [failuresOf_follows before s₁ hbefore, ← backoffAt_eq]
    exact Pace.step_wait s₁ s₂ seconds hstep
  spaced := by
    intro before r between r' after htr
    rw [htr] at h
    obtain ⟨s₃, hleft, hright⟩ := h.split
    obtain ⟨s₁, s₂, -, hstep, hbetween⟩ := hleft.at
    by_contra hnone
    have hquiet : ∀ e ∈ between, pauses e = false := by
      intro e he
      rw [← Bool.not_eq_true]
      exact fun hpause => hnone ⟨e, he, hpause⟩
    have haway : s₃.Away := by
      have hstart : s₂.Away := by
        obtain hconnecting | hfailed := (Pace.step_fromUrl s₁ s₂ r hstep).2
        · simp [Pace.Away, hconnecting]
        · simp [Pace.Away, hfailed]
      refine hbetween.history
        (fun s past => (∀ e ∈ past, pauses e = false) → s.Away) ?_ [] (fun _ => hstart) hquiet
      intro s e s' past hpast hstep hall
      have he := hall e (by simp)
      exact Pace.step_away s s' e hstep he (hpast fun e' he' => hall e' (by simp [he']))
    cases hright with
    | cons _ s₄ _ _ _ hagain _ =>
      have htrying := (Pace.step_fromUrl s₃ s₄ r' hagain).1
      simp [Pace.Away, htrying] at haway
  stops := by
    intro before after htr hset
    rw [htr] at h
    obtain ⟨s₁, s₂, -, hstep, hafter⟩ := h.at
    refine (hafter.history (fun s past => (∀ e ∈ past, seesNoStop e = false) →
      s.Leaving ∧ ∀ e ∈ past, winds e.1 = true) ?_ [] ?_ hset).2
    · intro s e s' past hpast hstep hall
      obtain ⟨hs, hwinds⟩ := hpast fun e' he' => hall e' (by simp [he'])
      obtain ⟨hs', hwind⟩ := Pace.step_leaving s s' e hstep (hall e (by simp)) hs
      refine ⟨hs', ?_⟩
      intro e' he'
      rcases List.mem_append.mp he' with he' | he'
      · exact hwinds e' he'
      · rw [List.mem_singleton.mp he']
        exact hwind
    · exact fun _ => ⟨Pace.step_stop s₁ s₂ hstep, fun e he => absurd he List.not_mem_nil⟩

/-- **Reconnecting is paced.** Whatever its operations come to, the thread waits for half a second,
doubled for every failure since its last subscription and at most half a minute; it does not connect
twice without a wait in between, unless it has seen the stop event; and once it has seen that, and it
stays set, it connects, reads and waits no more. -/
theorem reconnects_paced (fuel : ℕ) (tr : List ListenEvent) (r : Result Unit Unit)
    (h : Plays (run fuel) tr r) : Paced tr := by
  obtain ⟨s, hfollows, -⟩ := run_paced fuel tr r h
  exact paced_of_follows tr s hfollows

/-- Two failures and a stop. -/
theorem reconnects_paced_twice : Paced
    [⟨.importRedis, true⟩, ⟨.stopIsSet, false⟩, ⟨.fromUrl, .error ()⟩, ⟨.clearConnected, ()⟩,
      ⟨.stopIsSet, false⟩, ⟨.wait (1 / 2), ()⟩, ⟨.stopIsSet, false⟩, ⟨.fromUrl, .error ()⟩,
      ⟨.clearConnected, ()⟩, ⟨.stopIsSet, true⟩] := by
  refine reconnects_paced 2 _ (.returned ()) ?_
  iterate 10 refine .ask _ _ _ _ _ ?_
  exact .done ()

end Sigil.Revocation
