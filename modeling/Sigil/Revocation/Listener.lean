import Sigil.Library.World
import Sigil.Revocation.Subscriber
import Mathlib.Data.Rat.Defs
import Mathlib.Order.Lattice

/-! # The kill-switch subscriber thread

`run` is `_run`: it connects to Redis, subscribes to the tenant channel, reads messages until it is
stopped or the connection fails, and then backs off and starts again. A `Channel` is the world it
runs in: the channel delivers a message exactly to the connections subscribed when it is published,
so what is published while there is no subscription never reaches the registry.
-/
set_option autoImplicit false

namespace Sigil.Revocation

open Dialogue (query attempt ofExcept)

/-! ## The thread -/

/-- What is published on the tenant channel: data that does not decode or parse, data on which
`_apply` raises, or a revocation. -/
inductive Message where
  | garbled
  | rejected
  | payload (p : Payload)
  deriving DecidableEq, Repr

/-- `json.loads(raw)`; the inner `none` is a value on which `_apply` raises. -/
def Message.data : Message → Option (Option Payload)
  | garbled => none
  | rejected => some none
  | payload p => some (some p)

def Message.payload? : Message → Option Payload
  | payload p => some p
  | _ => none

inductive ListenQuestion where
  /-- `import redis` -/
  | importRedis
  | stopIsSet
  /-- `from_url(…).pubsub(…)` -/
  | fromUrl
  | subscribe
  | setConnected
  | clearConnected
  | getMessage
  | apply (data : Option Payload)
  | unsubscribe
  | close
  /-- `self._stop.wait(timeout=seconds)` -/
  | wait (seconds : ℚ)

abbrev ListenAnswer : ListenQuestion → Type
  | .importRedis => Bool
  | .stopIsSet => Bool
  | .fromUrl => Except Unit Unit
  | .subscribe => Except Unit Unit
  | .setConnected => Unit
  | .clearConnected => Unit
  | .getMessage => Except Unit (Option Message)
  | .apply _ => Except Unit Unit
  | .unsubscribe => Except Unit Unit
  | .close => Except Unit Unit
  | .wait _ => Unit

/-- Which exception it is never matters to the thread. -/
abbrev Listen (α : Type) : Type := Dialogue ListenQuestion ListenAnswer Unit α

abbrev stopIsSet : Listen Bool := query ListenQuestion.stopIsSet

abbrev setConnected : Listen Unit := query ListenQuestion.setConnected

abbrev clearConnected : Listen Unit := query ListenQuestion.clearConnected

def initialBackoff : ℚ := 1 / 2

def maxBackoff : ℚ := 30

/-- The inner `try`: whatever is wrong with a message, the thread reads on. -/
def handleMessage (m : Message) : Listen Unit := do
  let _ : Except Unit Unit ← attempt (match m.data with
    | none => .fail ()
    | some data => do ofExcept (← query (.apply data)))
  pure ()

/-- `while not self._stop.is_set()`, at most `fuel` times round. -/
def readLoop : ℕ → Listen Unit
  | 0 => .spent
  | fuel + 1 => do
    if ← stopIsSet then pure ()
    else do
      match ← ofExcept (← query .getMessage) with
      | none => readLoop fuel
      | some m => do
        handleMessage m
        readLoop fuel

def connect : Listen Unit := do
  ofExcept (← query .fromUrl)
  ofExcept (← query .subscribe)

/-- What follows a successful subscription. -/
def session (fuel : ℕ) : Listen Unit := do
  setConnected
  readLoop fuel
  clearConnected
  let _ : Except Unit Unit ← attempt do
    ofExcept (← query .unsubscribe)
    ofExcept (← query .close)
  pure ()

/-- The `except` clause; `false` ends the thread. -/
def backOff (backoff : ℚ) : Listen Bool := do
  clearConnected
  if ← stopIsSet then pure false
  else do
    query (ListenQuestion.wait backoff)
    pure true

/-- The outer loop, at most `rounds` times round. A subscription resets the back-off. -/
def runLoop (fuel : ℕ) : ℕ → ℚ → Listen Unit
  | 0, _ => .spent
  | rounds + 1, backoff => do
    if ← stopIsSet then pure ()
    else do
      match ← attempt connect with
      | .error _ => do
        if ← backOff backoff then runLoop fuel rounds (min (backoff * 2) maxBackoff) else pure ()
      | .ok _ => do
        match ← attempt (session fuel) with
        | .error _ => do
          if ← backOff initialBackoff then runLoop fuel rounds (min (initialBackoff * 2) maxBackoff)
          else pure ()
        | .ok _ => runLoop fuel rounds initialBackoff

def run (fuel : ℕ) : Listen Unit := do
  if ← query .importRedis then runLoop fuel fuel initialBackoff else pure ()

/-! ## The channel -/

/-- Where the thread's connection stands with the server: the `SUBSCRIBE` it has sent takes effect
when the server has read it. -/
inductive Subscription where
  | absent
  | requested
  | active
  deriving DecidableEq, Repr

/-- The thread's state, the server's, and the history of the channel since the thread was started.
`inbox` holds what was delivered to the connection and not read yet. -/
structure Channel where
  registry : RevocationSubscriber
  connected : Bool
  stopped : Bool
  subscription : Subscription
  inbox : List Message
  published : List Message
  delivered : List Message
  applied : List Payload

namespace Channel

def start (tenantId agentId : String) : Channel where
  registry := .init tenantId agentId
  connected := false
  stopped := false
  subscription := .absent
  inbox := []
  published := []
  delivered := []
  applied := []

/-- `healthy()` -/
def healthy (s : Channel) : Bool := s.connected

/-- A message is delivered exactly to the connections subscribed when it is published. -/
def publish (s : Channel) (m : Message) : Channel :=
  if s.subscription = .active then
    { s with published := s.published ++ [m], delivered := s.delivered ++ [m], inbox := s.inbox ++ [m] }
  else { s with published := s.published ++ [m] }

def disconnect (s : Channel) : Channel := { s with subscription := .absent, inbox := [] }

/-- What happens on the channel without the thread; `may` restricts when a message is published. -/
inductive Moves (may : Channel → Message → Prop) : Channel → Channel → Prop where
  | publish (s : Channel) (m : Message) (hm : may s m) : Moves may s (s.publish m)
  | subscribed (s : Channel) (hs : s.subscription = .requested) :
      Moves may s { s with subscription := .active }
  | connectionLost (s : Channel) : Moves may s s.disconnect
  /-- `stop()` sets the event … -/
  | stop (s : Channel) : Moves may s { s with stopped := true }
  /-- … and clears the flag once it has waited for the thread. -/
  | joined (s : Channel) (hs : s.stopped = true) : Moves may s { s with connected := false }

/-- How the channel answers the thread. Every operation on the connection may fail at any time, and
reading may find nothing; `ok` restricts when the thread sets its flag. -/
inductive Answers (ok : Channel → Prop) :
    Channel → Dialogue.Event ListenQuestion ListenAnswer → Channel → Prop where
  | importRedis (s : Channel) (b : Bool) : Answers ok s ⟨.importRedis, b⟩ s
  | stopIsSet (s : Channel) : Answers ok s ⟨.stopIsSet, s.stopped⟩ s
  | fromUrl (s : Channel) (r : Except Unit Unit) : Answers ok s ⟨.fromUrl, r⟩ s.disconnect
  | subscribe (s : Channel) :
      Answers ok s ⟨.subscribe, .ok ()⟩ { s with subscription := .requested }
  | subscribeFails (s : Channel) : Answers ok s ⟨.subscribe, .error ()⟩ s.disconnect
  | setConnected (s : Channel) (hs : ok s) :
      Answers ok s ⟨.setConnected, ()⟩ { s with connected := true }
  | clearConnected (s : Channel) :
      Answers ok s ⟨.clearConnected, ()⟩ { s with connected := false }
  | nothing (s : Channel) : Answers ok s ⟨.getMessage, .ok none⟩ s
  | message (s : Channel) (m : Message) (rest : List Message) (hm : s.inbox = m :: rest) :
      Answers ok s ⟨.getMessage, .ok (some m)⟩ { s with inbox := rest }
  | readFails (s : Channel) : Answers ok s ⟨.getMessage, .error ()⟩ s.disconnect
  | apply (s : Channel) (p : Payload) : Answers ok s ⟨.apply (some p), .ok ()⟩
      { s with registry := s.registry.apply p, applied := s.applied ++ [p] }
  | applyRaises (s : Channel) : Answers ok s ⟨.apply none, .error ()⟩ s
  | unsubscribe (s : Channel) (r : Except Unit Unit) : Answers ok s ⟨.unsubscribe, r⟩ s.disconnect
  | close (s : Channel) (r : Except Unit Unit) : Answers ok s ⟨.close, r⟩ s.disconnect
  | wait (s : Channel) (seconds : ℚ) : Answers ok s ⟨.wait seconds, ()⟩ s

/-- States the channel gets into once the thread is started. -/
def Reachable (may : Channel → Message → Prop) (ok : Channel → Prop) (tenantId agentId : String)
    (s : Channel) : Prop :=
  ∃ fuel r, Dialogue.Runs (Moves may) (Answers ok) (run fuel) (start tenantId agentId) r s

/-! ## Missed kills -/

section Kills

variable (tenantId agentId : String)

/-- One of the messages is a revocation accepted for our agent. -/
def Kills (ms : List Message) : Prop :=
  ∃ p, Message.payload p ∈ ms ∧ (RevocationSubscriber.init tenantId agentId).Accepted p

/-- While healthy, and with all that was delivered applied, no kill is missed. -/
def HealthyKnows (s : Channel) : Prop :=
  s.healthy = true → s.applied = s.delivered.filterMap Message.payload? →
    Kills tenantId agentId s.published → ∀ t, s.registry.isRevoked agentId t = true

/-- While the flag is set, a revocation accepted for our agent is published only to a subscribed
thread, unless one has been delivered already. -/
def Heard (s : Channel) (m : Message) : Prop :=
  s.connected = true → Kills tenantId agentId [m] →
    s.subscription = .active ∨ Kills tenantId agentId s.delivered

/-- None was published unheard, unless one has been delivered. The flag is set in such states. -/
def NoneUnheard (s : Channel) : Prop :=
  Kills tenantId agentId s.published → Kills tenantId agentId s.delivered

/-- The registry is what was applied, and a set flag means that no kill went by unheard. -/
structure Faithful (s : Channel) : Prop where
  registry : s.registry = (RevocationSubscriber.init tenantId agentId).applyAll s.applied
  heard : s.connected = true → NoneUnheard tenantId agentId s

variable {tenantId agentId}

theorem kills_append (ms : List Message) (m : Message) :
    Kills tenantId agentId (ms ++ [m]) ↔ Kills tenantId agentId ms ∨ Kills tenantId agentId [m] := by
  simp only [Kills, List.mem_append, or_and_right, exists_or]

theorem publish_faithful (s : Channel) (m : Message) (hs : Faithful tenantId agentId s)
    (hm : Heard tenantId agentId s m) : Faithful tenantId agentId (s.publish m) := by
  unfold publish
  split
  · refine ⟨hs.registry, fun hconn => ?_⟩
    simp only [NoneUnheard, kills_append]
    exact fun h => h.imp (hs.heard hconn) id
  · next hinactive =>
    refine ⟨hs.registry, fun hconn => ?_⟩
    simp only [NoneUnheard, kills_append]
    intro h
    cases h with
    | inl hbefore => exact hs.heard hconn hbefore
    | inr hnow => exact (hm hconn hnow).resolve_left hinactive

theorem move_faithful (s s' : Channel) (hs : Faithful tenantId agentId s)
    (h : Moves (Heard tenantId agentId) s s') : Faithful tenantId agentId s' := by
  cases h with
  | publish m hm => exact publish_faithful s m hs hm
  | subscribed => exact ⟨hs.registry, hs.heard⟩
  | connectionLost => exact ⟨hs.registry, hs.heard⟩
  | stop => exact ⟨hs.registry, hs.heard⟩
  | joined => exact ⟨hs.registry, fun hconn => by cases hconn⟩

theorem answer_faithful (s : Channel) (e : Dialogue.Event ListenQuestion ListenAnswer)
    (s' : Channel) (hs : Faithful tenantId agentId s)
    (h : Answers (NoneUnheard tenantId agentId) s e s') : Faithful tenantId agentId s' := by
  cases h with
  | setConnected hnone => exact ⟨hs.registry, fun _ => hnone⟩
  | clearConnected => exact ⟨hs.registry, fun hconn => by cases hconn⟩
  | apply p =>
    refine ⟨?_, hs.heard⟩
    rw [hs.registry]
    simp only [RevocationSubscriber.applyAll, List.foldl_append, List.foldl_cons, List.foldl_nil]
  | _ => exact ⟨hs.registry, hs.heard⟩

theorem reachable_faithful (s : Channel) (h : Reachable (Heard tenantId agentId)
    (NoneUnheard tenantId agentId) tenantId agentId s) : Faithful tenantId agentId s := by
  obtain ⟨fuel, r, hrun⟩ := h
  exact hrun.invariant move_faithful answer_faithful ⟨rfl, fun hconn => by cases hconn⟩

/-- **No kill is missed unheard.** In every run in which the thread sets its flag only when no
revocation accepted for our agent was published unheard, and none is while the flag is set, healthy
means that no kill was missed. -/
theorem healthy_knows (ha : agentId ≠ "") (s : Channel) (h : Reachable (Heard tenantId agentId)
    (NoneUnheard tenantId agentId) tenantId agentId s) : HealthyKnows tenantId agentId s := by
  intro hhealthy hall hkills t
  have hs := reachable_faithful s h
  obtain ⟨p, hp, hacc⟩ := hs.heard hhealthy hkills
  rw [hs.registry]
  refine (RevocationSubscriber.init_isRevoked_iff tenantId agentId ha s.applied t).mpr ⟨p, ?_, hacc⟩
  rw [hall]
  exact List.mem_filterMap.mpr ⟨_, hp, rfl⟩

end Kills

/-! ## A kill during an outage -/

def tenantPayload : Payload := ⟨some "tenant", none, none, none, some "t"⟩

def tenantKill : Message := .payload tenantPayload

theorem tenantKill_kills : Kills "t" "a" [tenantKill] :=
  ⟨_, List.mem_singleton_self _, Or.inl ⟨rfl, rfl⟩⟩

/-- The connection is lost, a kill is published, the thread reconnects: it is healthy, and the agent
is not revoked. -/
theorem outage_kill_missed :
    ¬ ∀ s, Reachable (fun _ _ => True) (fun _ => True) "t" "a" s → HealthyKnows "t" "a" s := by
  intro hall
  have hrun : Reachable (fun _ _ => True) (fun _ => True) "t" "a"
      { start "t" "a" with
        connected := true, subscription := .requested, published := [tenantKill] } := by
    refine ⟨2, .unfinished, ?_⟩
    -- the thread connects and subscribes
    refine .ask _ _ true _ _ _ _ (.importRedis _ true) ?_
    refine .ask _ _ false _ _ _ _ (.stopIsSet _) ?_
    refine .ask _ _ (.ok ()) _ _ _ _ (.fromUrl _ (.ok ())) ?_
    refine .ask _ _ (.ok ()) _ _ _ _ (.subscribe _) ?_
    refine .ask _ _ () _ _ _ _ (.setConnected _ trivial) ?_
    refine .ask _ _ false _ _ _ _ (.stopIsSet _) ?_
    -- the outage
    refine .move _ _ _ _ _ (.connectionLost _) ?_
    refine .move _ _ _ _ _ (.publish _ tenantKill trivial) ?_
    refine .ask _ _ (.error ()) _ _ _ _ (.readFails _) ?_
    refine .ask _ _ () _ _ _ _ (.clearConnected _) ?_
    refine .ask _ _ false _ _ _ _ (.stopIsSet _) ?_
    refine .ask _ _ () _ _ _ _ (.wait _ _) ?_
    -- and again
    refine .ask _ _ false _ _ _ _ (.stopIsSet _) ?_
    refine .ask _ _ (.ok ()) _ _ _ _ (.fromUrl _ (.ok ())) ?_
    refine .ask _ _ (.ok ()) _ _ _ _ (.subscribe _) ?_
    refine .ask _ _ () _ _ _ _ (.setConnected _ trivial) ?_
    exact .cut _ _
  have hrevoked := hall _ hrun rfl rfl tenantKill_kills none
  cases hrevoked

/-- Published to a subscribed thread, the same kill is in force once it is applied. -/
theorem healthy_knows_heard :
    ((RevocationSubscriber.init "t" "a").apply tenantPayload).isRevoked "a" none = true := by
  have hrun : Reachable (Heard "t" "a") (NoneUnheard "t" "a") "t" "a"
      { start "t" "a" with
        registry := (RevocationSubscriber.init "t" "a").apply tenantPayload
        connected := true
        subscription := .active
        published := [tenantKill]
        delivered := [tenantKill]
        applied := [tenantPayload] } := by
    refine ⟨2, .unfinished, ?_⟩
    refine .ask _ _ true _ _ _ _ (.importRedis _ true) ?_
    refine .ask _ _ false _ _ _ _ (.stopIsSet _) ?_
    refine .ask _ _ (.ok ()) _ _ _ _ (.fromUrl _ (.ok ())) ?_
    refine .ask _ _ (.ok ()) _ _ _ _ (.subscribe _) ?_
    refine .ask _ _ () _ _ _ _ (.setConnected _ id) ?_
    refine .move _ _ _ _ _ (.subscribed _ rfl) ?_
    refine .move _ _ _ _ _ (.publish _ tenantKill fun _ _ => Or.inl rfl) ?_
    refine .ask _ _ false _ _ _ _ (.stopIsSet _) ?_
    refine .ask _ _ (.ok (some tenantKill)) _ _ _ _ (.message _ tenantKill [] rfl) ?_
    refine .ask _ _ (.ok ()) _ _ _ _ (.apply _ tenantPayload) ?_
    exact .cut _ _
  exact healthy_knows (by decide) _ hrun rfl rfl tenantKill_kills none

end Channel

end Sigil.Revocation
