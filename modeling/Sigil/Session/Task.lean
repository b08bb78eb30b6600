import Sigil.Audit.Flusher
import Sigil.Gate.Decorators
import Sigil.Library.Agreement

/-! # A task from beginning to end

A task is entered, calls are made in it, its audit trail is flushed now and then, and leaving it
flushes once more. Here calls and the flusher ask one and the same world: the server that hands out
the token is the one that is sent the audit events.
-/
set_option autoImplicit false

namespace Sigil.Session

open Audit (Flush FlushQuestion FlushAnswer OverflowWriter doFlushWithin replayWithin)
open Dialogue (attempt query)
open Gate (Decorator Tool wrapper)

/-! ## Questions -/

inductive SessionQuestion where
  | call (q : Question)
  | drain (n : ℕ)
  /-- `log_batch(events)`, which sends `r` unless the batch is too long -/
  | logBatch (events : List PyVal) (r : Request)
  | listDir
  | readFile (path : String)
  | unlink (path : String)

abbrev SessionAnswer (V X : Type) : SessionQuestion → Type
  | .call q => Answer V X q
  | .drain _ => List PyVal
  | .logBatch _ _ => HttpAnswer
  | .listDir => Option (List String)
  | .readFile _ => Option (List UInt8)
  | .unlink _ => Unit

abbrev Asking (V X ε α : Type) : Type := Dialogue SessionQuestion (SessionAnswer V X) ε α

abbrev SessionEvent (V X : Type) : Type := Dialogue.Event SessionQuestion (SessionAnswer V X)

variable {V X α : Type}

def asked (q : Question) : Asking V X (Exc X) (Answer V X q) := query (A := SessionAnswer V X) (.call q)

/-- A call, made in the session. -/
def inSession (p : Call V X α) : Asking V X (Exc X) α := p.interpret asked

def flushAsked (c : SigilClient) : (q : FlushQuestion) → Asking V X (Exc Empty) (FlushAnswer q)
  | .drain n => query (A := SessionAnswer V X) (.drain n)
  | .logBatch _ events => do
    let answer ← query (A := SessionAnswer V X) (.logBatch events (c.logBatchRequest events))
    pure (c.logBatch events answer)
  | .overflowWrite event => query (A := SessionAnswer V X) (.call (.overflowWrite event))
  | .listDir => query (A := SessionAnswer V X) .listDir
  | .readFile path => query (A := SessionAnswer V X) (.readFile path)
  | .unlink path => query (A := SessionAnswer V X) (.unlink path)

/-- The flusher of a client, at work in the session. -/
def flusher (c : SigilClient) (p : Flush α) : Asking V X (Exc Empty) α := p.interpret (flushAsked c)

/-! ## The task -/

inductive Op where
  | call (d : Decorator) (mode : Mode) (tool : Tool) (args : CallArgs)
  | flush
  | replay

def Op.tools : Op → List Tool
  | call _ _ tool _ => [tool]
  | flush => []
  | replay => []

/-- What the caller gets to see of an operation. -/
inductive Outcome (V X : Type) where
  | called (result : Except (Exc X) V)
  | flushed (result : Except (Exc Empty) Unit)

section Task

variable (h : Host) (L : Json.Limits) (w : OverflowWriter) (fuel rounds : ℕ) (c : SigilClient)

def runOp (task : SigilTaskContext) : Op → Asking V X (Exc X) (Outcome V X)
  | .call d mode tool args => do
    let result ← attempt (inSession (wrapper d mode h (some (c, task)) tool args fuel))
    pure (.called result)
  | .flush => do
    let result ← attempt (flusher c (doFlushWithin h L w rounds))
    pure (.flushed result)
  | .replay => do
    let result ← attempt (flusher c (replayWithin h L w))
    pure (.flushed result)

def runOps (task : SigilTaskContext) : List Op → Asking V X (Exc X) (List (Outcome V X))
  | [] => pure []
  | op :: ops => do
    let outcome ← runOp h L w fuel rounds c task op
    let outcomes ← runOps task ops
    pure (outcome :: outcomes)

/-- `with client.task(…) as task: …`; what the last flush raises is swallowed. -/
def runTask (t : SigilTaskContext) (ops : List Op) : Asking V X (Exc X) (List (Outcome V X)) := do
  let task ← inSession (t.enter h c)
  let outcomes ← runOps h L w fuel rounds c task ops
  let _ ← attempt (flusher c (doFlushWithin h L w rounds))
  pure outcomes

end Task

end Sigil.Session
