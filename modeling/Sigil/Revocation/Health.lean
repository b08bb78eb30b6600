import Sigil.Library.Monitor
import Sigil.Revocation.Listener

/-! # The health flag

What the subscriber thread may be heard to do, whatever its operations come to, moves between seven
stages (`Step`). The flag is set in four of them, all between a successful subscribe and the clear
after it; a parsed message is pending in one, and nothing but its `_apply` leads out of that.
`health_tracks_subscription` says it of the flag and the messages, at every moment at which the
thread may be stopped.
-/
set_option autoImplicit false

namespace Sigil.Revocation

open Dialogue (query attempt ofExcept Follows Guided Runs Asks Plays Result)

abbrev ListenEvent : Type := Dialogue.Event ListenQuestion ListenAnswer

/-! ## Stages -/

inductive Stage where
  | down
  | connecting
  | subscribed
  | reading
  | polling
  /-- a message has been parsed and not been applied -/
  | received (data : Option Payload)
  | leaving
  deriving DecidableEq

namespace Stage

def flag : Stage → Bool
  | down | connecting | subscribed => false
  | reading | polling | received _ | leaving => true

/-- The thread holds a subscription. -/
def held : Stage → Bool
  | down | connecting => false
  | subscribed | reading | polling | received _ | leaving => true

def pending : Stage → List (Option Payload)
  | received data => [data]
  | _ => []

end Stage

def afterRead (m : Message) : Stage :=
  match m.data with
  | none => .reading
  | some data => .received data

inductive Step : Stage → ListenEvent → Stage → Prop where
  | importRedis (b : Bool) : Step .down ⟨.importRedis, b⟩ .down
  | stopDown (b : Bool) : Step .down ⟨.stopIsSet, b⟩ .down
  | fromUrl : Step .down ⟨.fromUrl, .ok ()⟩ .connecting
  | fromUrlFails : Step .down ⟨.fromUrl, .error ()⟩ .down
  | subscribe : Step .connecting ⟨.subscribe, .ok ()⟩ .subscribed
  | subscribeFails : Step .connecting ⟨.subscribe, .error ()⟩ .down
  | setConnected : Step .subscribed ⟨.setConnected, ()⟩ .reading
  | goOn : Step .reading ⟨.stopIsSet, false⟩ .polling
  | stop : Step .reading ⟨.stopIsSet, true⟩ .leaving
  | nothing : Step .polling ⟨.getMessage, .ok none⟩ .reading
  | message (m : Message) : Step .polling ⟨.getMessage, .ok (some m)⟩ (afterRead m)
  | readFails : Step .polling ⟨.getMessage, .error ()⟩ .leaving
  | apply (data : Option Payload) (r : Except Unit Unit) :
      Step (.received data) ⟨.apply data, r⟩ .reading
  | clearLeaving : Step .leaving ⟨.clearConnected, ()⟩ .down
  | clearDown : Step .down ⟨.clearConnected, ()⟩ .down
  | unsubscribe (r : Except Unit Unit) : Step .down ⟨.unsubscribe, r⟩ .down
  | close (r : Except Unit Unit) : Step .down ⟨.close, r⟩ .down
  | wait (seconds : ℚ) : Step .down ⟨.wait seconds, ()⟩ .down

/-! ## The thread keeps to the stages -/

theorem handleMessage_guided (m : Message) :
    Guided Step (handleMessage m) (afterRead m) fun x s => x = .ok () ∧ s = .reading := by
  have happly : ∀ data : Option Payload, Guided Step
      (.ask (.apply data) fun r => attempt (ofExcept r : Listen Unit) >>= fun _ => .done () :
        Listen Unit) (.received data) fun x s => x = .ok () ∧ s = .reading := by
    intro data
    refine Dialogue.guided_ask fun r => ⟨.reading, .apply data r, ?_⟩
    cases r <;> exact Dialogue.guided_done () ⟨rfl, rfl⟩
  cases m with
  | garbled => exact Dialogue.guided_done () ⟨rfl, rfl⟩
  | rejected => exact happly none
  | payload p => exact happly (some p)

theorem readLoop_guided (fuel : ℕ) :
    Guided Step (readLoop fuel) .reading fun _ s => s = .leaving := by
  induction fuel with
  | zero => exact Dialogue.guided_spent
  | succ fuel ih =>
    refine Dialogue.guided_query_bind fun stopped => ?_
    cases stopped with
    | true => exact ⟨.leaving, .stop, Dialogue.guided_done () rfl⟩
    | false =>
      refine ⟨.polling, .goOn, Dialogue.guided_query_bind fun r => ?_⟩
      cases r with
      | error e => exact ⟨.leaving, .readFails, Dialogue.guided_fail e rfl⟩
      | ok found =>
        cases found with
        | none => exact ⟨.reading, .nothing, ih⟩
        | some m =>
          refine ⟨afterRead m, .message m, (handleMessage_guided m).bind ?_ ?_⟩
          · rintro a s ⟨-, rfl⟩
            exact ih
          · rintro e s ⟨he, -⟩
            cases he

theorem connect_guided : Guided Step connect .down fun x s =>
    (x = .ok () ∧ s = .subscribed) ∨ (x = .error () ∧ s = .down) := by
  refine Dialogue.guided_query_bind fun r => ?_
  cases r with
  | error e => exact ⟨.down, .fromUrlFails, Dialogue.guided_fail e (Or.inr ⟨rfl, rfl⟩)⟩
  | ok a =>
    refine ⟨.connecting, .fromUrl, Dialogue.guided_query_bind fun r => ?_⟩
    cases r with
    | error e => exact ⟨.down, .subscribeFails, Dialogue.guided_fail e (Or.inr ⟨rfl, rfl⟩)⟩
    | ok b => exact ⟨.subscribed, .subscribe, Dialogue.guided_done b (Or.inl ⟨rfl, rfl⟩)⟩

/-- Taking the connection down, which may fail half-way. -/
theorem disconnect_guided : Guided Step (do
      ofExcept (← query ListenQuestion.unsubscribe)
      ofExcept (← query ListenQuestion.close) : Listen Unit) .down fun _ s => s = .down := by
  refine Dialogue.guided_query_bind fun r => ⟨.down, .unsubscribe r, ?_⟩
  cases r with
  | error e => exact Dialogue.guided_fail e rfl
  | ok _ =>
    refine Dialogue.guided_query_bind fun r' => ⟨.down, .close r', ?_⟩
    exact Dialogue.guided_end r' rfl

theorem session_guided (fuel : ℕ) : Guided Step (session fuel) .subscribed fun x s =>
    (x = .ok () ∧ s = .down) ∨ (x = .error () ∧ s = .leaving) := by
  refine Dialogue.guided_query_bind fun _ => ⟨.reading, .setConnected, ?_⟩
  refine (readLoop_guided fuel).bind ?_ ?_
  · rintro a s rfl
    refine Dialogue.guided_query_bind fun _ => ⟨.down, .clearLeaving, ?_⟩
    refine disconnect_guided.attempt_bind ?_
    rintro x s rfl
    exact Dialogue.guided_done () (Or.inl ⟨rfl, rfl⟩)
  · rintro e s rfl
    exact Or.inr ⟨rfl, rfl⟩

/-- The `except` clause clears the flag first of all. -/
theorem backOff_guided (backoff : ℚ) (s : Stage)
    (hs : Step s ⟨.clearConnected, ()⟩ .down) :
    Guided Step (backOff backoff) s fun x s' => (∃ b, x = .ok b) ∧ s' = .down := by
  refine Dialogue.guided_query_bind fun _ => ⟨.down, hs, ?_⟩
  refine Dialogue.guided_query_bind fun stopped => ⟨.down, .stopDown stopped, ?_⟩
  cases stopped with
  | true => exact Dialogue.guided_done false ⟨⟨false, rfl⟩, rfl⟩
  | false =>
    refine Dialogue.guided_query_bind fun _ => ⟨.down, .wait backoff, ?_⟩
    exact Dialogue.guided_done true ⟨⟨true, rfl⟩, rfl⟩

theorem runLoop_guided (fuel rounds : ℕ) (backoff : ℚ) :
    Guided Step (runLoop fuel rounds backoff) .down fun _ s => s = .down := by
  induction rounds generalizing backoff with
  | zero => exact Dialogue.guided_spent
  | succ rounds ih =>
    have hback : ∀ (b b' : ℚ) (s : Stage), Step s ⟨.clearConnected, ()⟩ .down →
        Guided Step (do if ← backOff b then runLoop fuel rounds b' else pure ()) s
          fun _ s => s = .down := by
      intro b b' s hs
      refine (backOff_guided b s hs).bind ?_ ?_
      · rintro again s' ⟨-, rfl⟩
        cases again with
        | true => exact ih b'
        | false => exact Dialogue.guided_done () rfl
      · rintro e s' ⟨⟨b, hb⟩, -⟩
        cases hb
    refine Dialogue.guided_query_bind fun stopped => ⟨.down, .stopDown stopped, ?_⟩
    cases stopped with
    | true => exact Dialogue.guided_done () rfl
    | false =>
      refine connect_guided.attempt_bind ?_
      rintro x s (⟨rfl, rfl⟩ | ⟨rfl, rfl⟩)
      · refine (session_guided fuel).attempt_bind ?_
        rintro x s (⟨rfl, rfl⟩ | ⟨rfl, rfl⟩)
        · exact ih initialBackoff
        · exact hback _ _ .leaving .clearLeaving
      · exact hback _ _ .down .clearDown

theorem run_guided (fuel : ℕ) : Guided Step (run fuel) .down fun _ s => s = .down := by
  refine Dialogue.guided_query_bind fun found => ⟨.down, .importRedis found, ?_⟩
  cases found with
  | true => exact runLoop_guided fuel fuel initialBackoff
  | false => exact Dialogue.guided_done () rfl

/-! ## What a stage tells of the past -/

/-- `_connected`, as the thread has left it. -/
def flagAfter (flag : Bool) : ListenEvent → Bool
  | ⟨.setConnected, _⟩ => true
  | ⟨.clearConnected, _⟩ => false
  | _ => flag

def flagOf (tr : List ListenEvent) : Bool := tr.foldl flagAfter false

/-- The value of a message that was received and parsed. -/
def parsedOf : ListenEvent → Option (Option Payload)
  | ⟨.getMessage, .ok (some m)⟩ => m.data
  | _ => none

/-- A value that was handed to `_apply`. -/
def handedOf : ListenEvent → Option (Option Payload)
  | ⟨.apply data, _⟩ => some data
  | _ => none

/-- What the thread asks while it holds a subscription. -/
def keepsSubscription : ListenQuestion → Bool
  | .setConnected | .stopIsSet | .getMessage | .apply _ => true
  | _ => false

/-- There was a successful subscribe, and nothing after it that ends the subscription or clears the
flag. -/
def SubscribedSince (tr : List ListenEvent) : Prop :=
  ∃ before after, tr = before ++ ⟨.subscribe, .ok ()⟩ :: after ∧
    ∀ e ∈ after, keepsSubscription e.1 = true

theorem SubscribedSince.concat {tr : List ListenEvent} (htr : SubscribedSince tr) (e : ListenEvent)
    (he : keepsSubscription e.1 = true) : SubscribedSince (tr ++ [e]) := by
  obtain ⟨before, after, rfl, hafter⟩ := htr
  refine ⟨before, after ++ [e], by rw [List.append_assoc, List.cons_append], ?_⟩
  intro e' he'
  rcases List.mem_append.mp he' with he' | he'
  · exact hafter e' he'
  · rw [List.mem_singleton.mp he']
    exact he

structure Tells (s : Stage) (tr : List ListenEvent) : Prop where
  flag : flagOf tr = s.flag
  messages : tr.filterMap parsedOf = tr.filterMap handedOf ++ s.pending
  subscribed : s.held = true → SubscribedSince tr

theorem Tells.start : Tells .down [] := ⟨rfl, rfl, fun h => by cases h⟩

theorem flagOf_concat (tr : List ListenEvent) (e : ListenEvent) :
    flagOf (tr ++ [e]) = flagAfter (flagOf tr) e := by
  rw [flagOf, List.foldl_append]
  rfl

/-- The flag, as a stage tells it. -/
theorem step_flag (s s' : Stage) (e : ListenEvent) (h : Step s e s') :
    flagAfter s.flag e = s'.flag := by
  cases h with
  | message m => cases m <;> rfl
  | _ => rfl

/-- A parsed message is pending until it is handed on. -/
theorem step_messages (s s' : Stage) (e : ListenEvent) (h : Step s e s') :
    s.pending ++ (parsedOf e).toList = (handedOf e).toList ++ s'.pending := by
  cases h with
  | message m => cases m <;> rfl
  | _ => rfl

theorem step_held (s s' : Stage) (e : ListenEvent) (h : Step s e s') (hs' : s'.held = true) :
    (e = ⟨.subscribe, .ok ()⟩) ∨ (s.held = true ∧ keepsSubscription e.1 = true) := by
  cases h with
  | subscribe => exact Or.inl rfl
  | message m => exact Or.inr ⟨rfl, rfl⟩
  | setConnected | goOn | stop | nothing | readFails | apply => exact Or.inr ⟨rfl, rfl⟩
  | _ => cases hs'

theorem filterMap_concat {α β : Type} (f : α → Option β) (xs : List α) (x : α) :
    (xs ++ [x]).filterMap f = xs.filterMap f ++ (f x).toList := by
  rw [List.filterMap_append]
  cases hx : f x <;> simp [hx]

theorem Tells.step (s : Stage) (e : ListenEvent) (s' : Stage) (tr : List ListenEvent)
    (htr : Tells s tr) (h : Step s e s') : Tells s' (tr ++ [e]) where
  flag := by rw [flagOf_concat, htr.flag, step_flag s s' e h]
  messages := by
    rw [filterMap_concat, filterMap_concat, htr.messages, List.append_assoc,
      step_messages s s' e h, List.append_assoc]
  subscribed := by
    intro hs'
    rcases step_held s s' e h hs' with rfl | ⟨hs, hkeeps⟩
    · exact ⟨tr, [], rfl, fun e he => absurd he List.not_mem_nil⟩
    · exact (htr.subscribed hs).concat e hkeeps

theorem tells_of_follows (tr : List ListenEvent) (s : Stage) (h : Follows Step .down tr s) :
    Tells s tr :=
  h.history Tells Tells.step [] Tells.start

/-! ## After a message -/

/-- The read loop goes on: the stop event is looked at and, if it is not set, the next message read.
`cut` says that the conversation may break off. -/
inductive ReadsOn (cut : Prop) : List ListenEvent → Prop where
  | here (h : cut) : ReadsOn cut []
  | stopped (tr : List ListenEvent) : ReadsOn cut (⟨.stopIsSet, true⟩ :: tr)
  | polling (h : cut) : ReadsOn cut [⟨.stopIsSet, false⟩]
  | reads (r : Except Unit (Option Message)) (tr : List ListenEvent) :
      ReadsOn cut (⟨.stopIsSet, false⟩ :: ⟨.getMessage, r⟩ :: tr)

/-- A message is applied if it has been parsed, and whatever comes of it, the read loop goes on. -/
inductive Handled (cut : Prop) : Option (Option Payload) → List ListenEvent → Prop where
  | unparsed (tr : List ListenEvent) (h : ReadsOn cut tr) : Handled cut none tr
  | received (data : Option Payload) (h : cut) : Handled cut (some data) []
  | applied (data : Option Payload) (r : Except Unit Unit) (tr : List ListenEvent)
      (h : ReadsOn cut tr) : Handled cut (some data) (⟨.apply data, r⟩ :: tr)

theorem readsOn_of_follows (cut : Prop) (tr : List ListenEvent) (s : Stage)
    (h : Follows Step .reading tr s) (hend : s.flag = true → cut) : ReadsOn cut tr := by
  cases h with
  | nil => exact .here (hend rfl)
  | cons _ s₁ _ e tr he htr =>
    cases he with
    | stop => exact .stopped tr
    | goOn =>
      cases htr with
      | nil => exact .polling (hend rfl)
      | cons _ s₂ _ e tr he htr => cases he <;> exact .reads _ tr

theorem handled_of_follows (cut : Prop) (m : Message) (tr : List ListenEvent) (s : Stage)
    (h : Follows Step (afterRead m) tr s) (hend : s.flag = true → cut) : Handled cut m.data tr := by
  have hparsed : ∀ data, Follows Step (.received data) tr s → Handled cut (some data) tr := by
    intro data h
    cases h with
    | nil => exact .received data (hend rfl)
    | cons _ s₁ _ e tr he htr =>
      cases he with
      | apply _ r => exact .applied data r tr (readsOn_of_follows cut tr s htr hend)
  cases m with
  | garbled => exact .unparsed tr (readsOn_of_follows cut tr s h hend)
  | rejected => exact hparsed none h
  | payload p => exact hparsed (some p) h

/-! ## The thread, watched -/

/-- The events of the thread, its conversation so far, and the flag. -/
structure Watch where
  stopped : Bool
  connected : Bool
  heard : List ListenEvent

namespace Watch

def start : Watch := ⟨false, false, []⟩

/-- `healthy()` -/
def healthy (s : Watch) : Bool := s.connected

def hear (s : Watch) (e : ListenEvent) : Watch := { s with heard := s.heard ++ [e] }

/-- `stop()` sets the event at any moment, and clears the flag once it has waited for the thread. -/
inductive Moves : Watch → Watch → Prop where
  | stop (s : Watch) : Moves s { s with stopped := true }
  | joined (s : Watch) (hs : s.stopped = true) : Moves s { s with connected := false }

/-- The operations on the module, the connection and the registry. -/
def isOperation : ListenQuestion → Bool
  | .stopIsSet | .setConnected | .clearConnected => false
  | _ => true

/-- Every operation may come to anything at any time. -/
inductive Answers : Watch → ListenEvent → Watch → Prop where
  | stopIsSet (s : Watch) : Answers s ⟨.stopIsSet, s.stopped⟩ (s.hear ⟨.stopIsSet, s.stopped⟩)
  | setConnected (s : Watch) : Answers s ⟨.setConnected, ()⟩
      { s.hear ⟨.setConnected, ()⟩ with connected := true }
  | clearConnected (s : Watch) : Answers s ⟨.clearConnected, ()⟩
      { s.hear ⟨.clearConnected, ()⟩ with connected := false }
  | operation (s : Watch) (q : ListenQuestion) (a : ListenAnswer q) (hq : isOperation q = true) :
      Answers s ⟨q, a⟩ (s.hear ⟨q, a⟩)

/-- The flag is what the thread has left, unless `stop()` has cleared it. -/
structure Honest (s : Watch) : Prop where
  flag : s.connected = true → flagOf s.heard = true
  cleared : flagOf s.heard = true → s.stopped = false → s.connected = true

theorem move_honest (s s' : Watch) (hs : s.Honest) (h : Moves s s') : s'.Honest := by
  cases h with
  | stop => exact ⟨hs.flag, fun _ hstop => by cases hstop⟩
  | joined hstop =>
    refine ⟨fun hconn => (by cases hconn), ?_⟩
    intro _ hgo
    rw [hgo] at hstop
    cases hstop

theorem start_honest : start.Honest := ⟨fun h => (by cases h), fun h => (by cases h)⟩

theorem flagOf_hear (s : Watch) (e : ListenEvent) :
    flagOf (s.hear e).heard = flagAfter (flagOf s.heard) e := flagOf_concat s.heard e

theorem operation_flag (flag : Bool) (q : ListenQuestion) (a : ListenAnswer q)
    (hq : isOperation q = true) : flagAfter flag ⟨q, a⟩ = flag := by
  cases q with
  | stopIsSet | setConnected | clearConnected => cases hq
  | _ => rfl

theorem answer_honest (s : Watch) (e : ListenEvent) (s' : Watch) (hs : s.Honest)
    (h : Answers s e s') : s'.Honest := by
  cases h with
  | stopIsSet =>
    have hflag : flagOf (s.hear ⟨.stopIsSet, s.stopped⟩).heard = flagOf s.heard := flagOf_hear s _
    exact ⟨fun hconn => hflag.trans (hs.flag hconn), fun hset => hs.cleared (hflag.symm.trans hset)⟩
  | setConnected => exact ⟨fun _ => flagOf_hear s ⟨.setConnected, ()⟩, fun _ _ => rfl⟩
  | clearConnected =>
    have hflag : flagOf (s.hear ⟨.clearConnected, ()⟩).heard = false := flagOf_hear s _
    refine ⟨fun hconn => (by cases hconn), ?_⟩
    intro hset
    rw [hflag] at hset
    cases hset
  | operation q a hq =>
    have hflag : flagOf (s.hear ⟨q, a⟩).heard = flagOf s.heard := by
      rw [flagOf_hear, operation_flag _ q a hq]
    exact ⟨fun hconn => hflag.trans (hs.flag hconn), fun hset => hs.cleared (hflag.symm.trans hset)⟩

theorem moves_heard (s s' : Watch) (h : Moves s s') : s'.heard = s.heard := by
  cases h <;> rfl

theorem answers_heard (s : Watch) (e : ListenEvent) (s' : Watch) (h : Answers s e s') :
    s'.heard = s.heard ++ [e] := by
  cases h <;> rfl

/-! ## The flag and the messages -/

/-- What the flag and the messages come to when the thread is stopped or has ended. -/
structure Tracked (r : Result Unit Unit) (s : Watch) : Prop where
  /-- The flag is set only while there is a subscription, -/
  subscribed : s.healthy = true → SubscribedSince s.heard
  /-- and never once the thread has ended. -/
  ended : r ≠ .unfinished → s.healthy = false
  /-- No message ends the read loop or clears the flag, and one that parses is handed on. -/
  handled : ∀ before m after, s.heard = before ++ ⟨.getMessage, .ok (some m)⟩ :: after →
    Handled (r = .unfinished) m.data after

/-- The questions of the thread while it backs off or takes a connection down or up. -/
def isOffline : ListenQuestion → Bool
  | .importRedis | .fromUrl | .subscribe | .unsubscribe | .close | .wait _ => true
  | _ => false

/-- What they come to when the thread is about to ask `q`. -/
structure TrackedAt (q : ListenQuestion) (s : Watch) : Prop where
  offline : isOffline q = true → s.healthy = false
  reading : q = .getMessage → s.stopped = false → s.healthy = true
  /-- What has been handed to `_apply` is what has been received and parsed, once and in order; only
  a value that is about to be handed on is missing. -/
  messages : s.heard.filterMap parsedOf = s.heard.filterMap handedOf ++
    match q with
    | .apply data => [data]
    | _ => []

theorem run_follows (fuel : ℕ) (r : Result Unit Unit) (s : Watch)
    (h : Runs Moves Answers (run fuel) start r s) :
    ∃ stage, Follows Step .down s.heard stage ∧ (r ≠ .unfinished → stage = .down) := by
  obtain ⟨tr, hplays, hheard⟩ := h.heard moves_heard answers_heard
  obtain ⟨stage, htr, hend⟩ := run_guided fuel tr r hplays
  rw [hheard]
  refine ⟨stage, htr, ?_⟩
  intro hr
  cases r with
  | returned a => exact hend (.ok a) rfl
  | raised e => exact hend (.error e) rfl
  | unfinished => exact absurd rfl hr

theorem run_honest (fuel : ℕ) (r : Result Unit Unit) (s : Watch)
    (h : Runs Moves Answers (run fuel) start r s) : s.Honest :=
  h.invariant move_honest answer_honest start_honest

theorem run_tracked (fuel : ℕ) (r : Result Unit Unit) (s : Watch)
    (h : Runs Moves Answers (run fuel) start r s) : Tracked r s := by
  obtain ⟨stage, htr, hend⟩ := run_follows fuel r s h
  have htells : Tells stage s.heard := tells_of_follows s.heard stage htr
  have hflag : s.connected = true → stage.flag = true := by
    intro hconn
    rw [← htells.flag]
    exact (run_honest fuel r s h).flag hconn
  refine ⟨?_, ?_, ?_⟩
  · intro hconn
    apply htells.subscribed
    have hstage := hflag hconn
    cases stage <;> first | rfl | cases hstage
  · intro hr
    rw [Bool.eq_false_iff]
    intro hconn
    have hstage := hflag hconn
    rw [hend hr] at hstage
    cases hstage
  · intro before m after hheard
    rw [hheard] at htr
    obtain ⟨s₁, s₂, -, hstep, hafter⟩ := htr.at
    cases hstep
    refine handled_of_follows _ m after stage hafter ?_
    intro hstage
    by_contra hr
    rw [hend hr] at hstage
    cases hstage

/-- An answer the question may have. -/
def anAnswer : (q : ListenQuestion) → ListenAnswer q
  | .importRedis | .stopIsSet => false
  | .fromUrl | .subscribe | .apply _ | .unsubscribe | .close => .ok ()
  | .getMessage => .ok none
  | .setConnected | .clearConnected | .wait _ => ()

theorem step_offline (s s' : Stage) (e : ListenEvent) (h : Step s e s')
    (he : isOffline e.1 = true) : s.flag = false := by
  cases h with
  | importRedis | fromUrl | fromUrlFails | subscribe | subscribeFails => rfl
  | unsubscribe | close | wait => rfl
  | _ => cases he

theorem asks_follows (fuel : ℕ) (q : ListenQuestion) (s : Watch)
    (h : Asks Moves Answers (run fuel) start q s) :
    ∃ stage stage', Follows Step .down s.heard stage ∧ Step stage ⟨q, anAnswer q⟩ stage' := by
  obtain ⟨tr, hplays, hheard⟩ := h.heard moves_heard answers_heard
  obtain ⟨last, htr, -⟩ := run_guided fuel _ _ (hplays (anAnswer q))
  obtain ⟨stage, stage', hbefore, hstep, -⟩ := htr.at
  rw [hheard]
  exact ⟨stage, stage', hbefore, hstep⟩

theorem asks_tracked (fuel : ℕ) (q : ListenQuestion) (s : Watch)
    (h : Asks Moves Answers (run fuel) start q s) : TrackedAt q s := by
  obtain ⟨stage, stage', htr, hstep⟩ := asks_follows fuel q s h
  have htells : Tells stage s.heard := tells_of_follows s.heard stage htr
  have honest : s.Honest := run_honest fuel .unfinished s h.runs
  refine ⟨?_, ?_, ?_⟩
  · intro hq
    rw [Bool.eq_false_iff]
    intro hconn
    have hflag : stage.flag = true := htells.flag.symm.trans (honest.flag hconn)
    rw [step_offline stage stage' _ hstep hq] at hflag
    cases hflag
  · rintro rfl hgo
    apply honest.cleared _ hgo
    rw [htells.flag]
    cases hstep
    rfl
  · rw [htells.messages]
    cases hstep <;> rfl

/-- **The health flag tracks the subscription.** Whatever the operations of the thread come to and
whenever it is told to stop, so it is at every moment and before every question. -/
theorem health_tracks_subscription (fuel : ℕ) :
    (∀ r s, Runs Moves Answers (run fuel) start r s → Tracked r s) ∧
      ∀ q s, Asks Moves Answers (run fuel) start q s → TrackedAt q s :=
  ⟨run_tracked fuel, asks_tracked fuel⟩

/-! ## A message between two back-offs -/

/-- A kill of agent `a`. -/
def agentKill : Payload := ⟨some "agent", none, some "a", none, some "t"⟩

/-- There is no connection at first; after the back-off there is, and a message. -/
def received : List ListenEvent :=
  [⟨.importRedis, true⟩, ⟨.stopIsSet, false⟩, ⟨.fromUrl, .error ()⟩, ⟨.clearConnected, ()⟩,
    ⟨.stopIsSet, false⟩, ⟨.wait initialBackoff, ()⟩, ⟨.stopIsSet, false⟩, ⟨.fromUrl, .ok ()⟩,
    ⟨.subscribe, .ok ()⟩, ⟨.setConnected, ()⟩, ⟨.stopIsSet, false⟩,
    ⟨.getMessage, .ok (some (.payload agentKill))⟩]

/-- The message is applied, and the connection is lost. -/
def lost : List ListenEvent :=
  [⟨.apply (some agentKill), .ok ()⟩, ⟨.stopIsSet, false⟩, ⟨.getMessage, .error ()⟩,
    ⟨.clearConnected, ()⟩, ⟨.stopIsSet, false⟩]

theorem interrupted_plays :
    Plays (run 3) (received ++ lost ++ [⟨.wait initialBackoff, ()⟩]) .unfinished := by
  repeat refine .ask _ _ _ _ _ ?_
  exact .cut _

/-- What the thread may be heard to do it does, if the stop event is as it hears it. -/
theorem asks_of_plays (p : Listen Unit) (tr tr' : List ListenEvent) (q : ListenQuestion)
    (a : ListenAnswer q) (r : Result Unit Unit) (h : Plays p (tr ++ ⟨q, a⟩ :: tr') r) (s : Watch)
    (hstop : ∀ b, ⟨.stopIsSet, b⟩ ∈ tr → b = s.stopped) :
    Asks Moves Answers p s q ⟨s.stopped, tr.foldl flagAfter s.connected, s.heard ++ tr⟩ := by
  induction tr generalizing p s with
  | nil =>
    cases h with
    | ask _ k _ _ _ h =>
      rw [List.append_nil]
      exact .here q k s
  | cons e tr ih =>
    obtain ⟨q', a'⟩ := e
    cases h with
    | ask _ k _ _ _ h =>
      have hanswer : Answers s ⟨q', a'⟩
          ⟨s.stopped, flagAfter s.connected ⟨q', a'⟩, s.heard ++ [⟨q', a'⟩]⟩ := by
        cases q' with
        | stopIsSet =>
          rw [hstop a' List.mem_cons_self]
          exact .stopIsSet s
        | setConnected => exact .setConnected s
        | clearConnected => exact .clearConnected s
        | _ => exact .operation s _ a' rfl
      have hrest := ih (k a') h ⟨s.stopped, flagAfter s.connected ⟨q', a'⟩, s.heard ++ [⟨q', a'⟩]⟩
        fun b hb => hstop b (List.mem_cons_of_mem _ hb)
      rw [List.append_assoc, List.singleton_append] at hrest
      exact .ask q' k a' s _ q _ hanswer hrest

theorem asks_apply : Asks Moves Answers (run 3) start (.apply (some agentKill))
    ⟨false, true, received⟩ :=
  asks_of_plays (run 3) received _ _ _ _ interrupted_plays start (by simp [received, start])

theorem asks_wait : Asks Moves Answers (run 3) start (.wait initialBackoff)
    ⟨false, false, received ++ lost⟩ :=
  asks_of_plays (run 3) (received ++ lost) _ _ _ _ interrupted_plays start
    (by simp [received, lost, start])

/-- The flag is set with the message, which is applied; before the second wait it is not. -/
theorem health_tracks_subscription_interrupted :
    SubscribedSince received ∧ Handled True (some (some agentKill)) lost ∧
      TrackedAt (.wait initialBackoff) ⟨false, false, received ++ lost⟩ := by
  have happlied := (health_tracks_subscription 3).1 .unfinished _ asks_apply.runs
  have hlost := (health_tracks_subscription 3).1 .unfinished _ asks_wait.runs
  have hhandled := hlost.handled received.dropLast (.payload agentKill) lost rfl
  rw [eq_self_iff_true] at hhandled
  exact ⟨happlied.subscribed rfl, hhandled, (health_tracks_subscription 3).2 _ _ asks_wait⟩

end Watch

end Sigil.Revocation
