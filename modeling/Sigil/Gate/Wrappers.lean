import Sigil.Gate.Counterparts
import Sigil.Gate.Waits

/-! # The four wrappers

Answered by one and the same script, the blocking and the asynchronous wrapper of either decorator
do the same, unless the script leads them into a wait that is too long for `time.sleep`: they ask the
same, execute alike, end alike, and record the same apart from the redacted arguments and the entropy
of the prompt, which only the LLM decorator records.
-/
set_option autoImplicit false

namespace Sigil.Gate

open Dialogue (Agree Environment Likeness Resemble run)

variable {V X σ : Type}

/-! ## What is the same -/

/-- The audit event without some of its fields. -/
def withoutFields (names : List String) : PyVal → PyVal
  | .dict kvs => .dict (kvs.filter fun kv => decide (kv.1 ∉ names.map PyKey.str))
  | v => v

/-- The same question but for the mode, and for what `blank` leaves out of audit events. -/
inductive LikeQuestion (blank : PyVal → PyVal) : Question → Question → Prop where
  | refl (q : Question) : LikeQuestion blank q q
  | sleep (mode mode' : Mode) (seconds : ℚ) :
      LikeQuestion blank (.sleep mode seconds) (.sleep mode' seconds)
  | execute (mode mode' : Mode) (call : CallArgs) :
      LikeQuestion blank (.execute mode call) (.execute mode' call)
  | push (event event' : PyVal) (h : blank event = blank event') :
      LikeQuestion blank (.push event) (.push event')
  | overflowWrite (event event' : PyVal) (h : blank event = blank event') :
      LikeQuestion blank (.overflowWrite event) (.overflowWrite event')

theorem LikeQuestion.mono {blank blank' : PyVal → PyVal} {q q' : Question}
    (hq : LikeQuestion blank q q')
    (h : ∀ event event', blank event = blank event' → blank' event = blank' event') :
    LikeQuestion blank' q q' := by
  cases hq with
  | refl => exact .refl q
  | sleep mode mode' seconds => exact .sleep mode mode' seconds
  | execute mode mode' call => exact .execute mode mode' call
  | push event event' hb => exact .push event event' (h _ _ hb)
  | overflowWrite event event' hb => exact .overflowWrite event event' (h _ _ hb)

/-- The question, in blocking mode and with its audit event blanked. -/
def blankQuestion (blank : PyVal → PyVal) : Question → Question
  | .sleep _ seconds => .sleep .sync seconds
  | .execute _ call => .execute .sync call
  | .push event => .push (blank event)
  | .overflowWrite event => .overflowWrite (blank event)
  | q => q

/-- What was asked, in blocking mode and with the audit events blanked. -/
def asked (blank : PyVal → PyVal) (tr : List (CallEvent V X)) : List Question :=
  tr.map fun e => blankQuestion blank e.1

/-- It looks neither at the mode nor at what is recorded. -/
def Blind (env : Environment Question (Answer V X) σ) : Prop :=
  ∀ q q' s, LikeQuestion (fun _ => .none) q q' →
    HEq (env.answer q s).1 (env.answer q' s).1 ∧ (env.answer q s).2 = (env.answer q' s).2

/-- The script, but for the waits that `time.sleep` refuses. -/
def Script.waits (S : Script V X) : Environment Question (Answer V X) Moment where
  answer
    | .sleep mode seconds, m =>
      match sleepAnswer mode seconds with
      | .ok () => (.ok (), m.after (seconds + S.overshoot m.polls))
      | .error e => (.error e, m.tick)
    | q, m => S.answer q m

section Sample

open Verify (sampleHost)

end Sample

end Sigil.Gate
