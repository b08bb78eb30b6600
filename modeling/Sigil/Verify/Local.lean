import Sigil.Library.OrderedDict
import Sigil.Python.Base64
import Sigil.Python.Text
import Mathlib.Data.List.Dedup

/-! # `verify_local`

The local verifier of `verify.py`, over payloads of any JSON shape: every access the Python makes
to the parsed payload is made here too, and raises what Python raises. Only the accesses the source
puts inside a `try` turn an exception into `token_invalid`; the others escape as `Except.error`.

The set of effective tools is a list without repetition; Python leaves its order open, and only
membership is used below.
-/
set_option autoImplicit false

namespace Sigil.Verify

abbrev Keyring := OrderedDict String (List UInt8)

/-- `TokenBlock`, as far as verification reads it. -/
structure TokenBlock where
  facts : PyVal
  checks : PyVal

structure VerifyResult where
  ok : Bool
  effectiveTools : List String := []
  agentId : Option String := none
  taskId : Option String := none
  tenantId : Option String := none
  expiresAt : Option DateTime := none
  reason : Option String := none
  deriving DecidableEq, Repr

def VerifyResult.denied (reason : String) : VerifyResult := { ok := false, reason := some reason }

/-! ## Expiry checks -/

def checkExpiryPrefix : List Char := "check if time($t), $t < ".toList

/-- `ts_str.replace("Z", "+00:00")` -/
def replaceZ (s : List Char) : List Char :=
  s.flatMap fun c => if c = 'Z' then "+00:00".toList else [c]

/-- The timestamp text of an expiry check, ready for `fromisoformat`; `none` for other checks. -/
def expiryText (check : String) : Option String :=
  if checkExpiryPrefix.isPrefixOf check.toList then
    some (String.ofList (replaceZ (stripQuotes (check.toList.drop checkExpiryPrefix.length))))
  else none

/-- The expiry a single check states, if it states one that parses. -/
def expiryOf (h : Host) (check : String) : Option DateTime :=
  (expiryText check).bind h.fromIsoFormat

/-- The loop of `_parse_expiry_from_checks`: the first check that parses wins. -/
def parseExpiryItems (h : Host) : List PyVal → Except PyError (Option DateTime)
  | [] => .ok none
  | .str check :: checks => match expiryOf h check with
    | some exp => .ok (some exp)
    | none => parseExpiryItems h checks
  | _ :: _ => .error .attributeError

def parseExpiryFromChecks (h : Host) (checks : PyVal) : Except PyError (Option DateTime) := do
  parseExpiryItems h (← checks.iter)

/-- The loop of `_most_restrictive_expiry`, with the earliest expiry found so far. -/
def mostRestrictiveLoop (h : Host) :
    Option DateTime → List TokenBlock → Except PyError (Option DateTime)
  | result, [] => .ok result
  | result, block :: blocks => do
    match ← parseExpiryFromChecks h block.checks with
    | none => mostRestrictiveLoop h result blocks
    | some exp => match result with
      | none => mostRestrictiveLoop h (some exp) blocks
      | some r =>
        if ← exp.lt r then mostRestrictiveLoop h (some exp) blocks
        else mostRestrictiveLoop h (some r) blocks

def mostRestrictiveExpiry (h : Host) (blocks : List TokenBlock) :
    Except PyError (Option DateTime) :=
  mostRestrictiveLoop h none blocks

/-! ## Facts -/

/-- The argument of a fact `predicate("value")`, given `predicate(`. -/
def factValue (pred : String) (fact : String) : Option String :=
  if pred.toList.isPrefixOf fact.toList ∧ fact.toList.getLast? = some ')' then
    some (String.ofList (stripQuotes (fact.toList.drop pred.toList.length).dropLast))
  else none

/-- The tool a single fact grants; an empty name grants nothing. -/
def toolName (fact : String) : Option String :=
  match factValue "tool(" fact with
  | some name => if name = "" then none else some name
  | none => none

def extractToolItems : List PyVal → Except PyError (List String)
  | [] => .ok []
  | .str fact :: facts => do
    let tools ← extractToolItems facts
    match toolName fact with
    | some name => .ok (name :: tools)
    | none => .ok tools
  | _ :: _ => .error .attributeError

def extractToolNamesFromFacts (facts : PyVal) : Except PyError (List String) := do
  extractToolItems (← facts.iter)

structure Identity where
  tenantId : Option String := none
  agentId : Option String := none
  taskId : Option String := none
  deriving DecidableEq, Repr

/-- One turn of the loop of `_extract_identity_from_facts`: later facts overwrite earlier ones. -/
def Identity.absorb (i : Identity) (fact : String) : Identity :=
  match factValue "tenant(" fact with
  | some v => { i with tenantId := some v }
  | none => match factValue "agent(" fact with
    | some v => { i with agentId := some v }
    | none => match factValue "task(" fact with
      | some v => { i with taskId := some v }
      | none => i

def extractIdentityItems : Identity → List PyVal → Except PyError Identity
  | i, [] => .ok i
  | i, .str fact :: facts => extractIdentityItems (i.absorb fact) facts
  | _, _ :: _ => .error .attributeError

def extractIdentityFromFacts (facts : PyVal) : Except PyError Identity := do
  extractIdentityItems {} (← facts.iter)

/-- The loop of `_compute_effective_tools`: `effective &= set(...)` block by block. -/
def intersectTools : List String → List TokenBlock → Except PyError (List String)
  | effective, [] => .ok effective
  | effective, block :: blocks => do
    let tools ← extractToolNamesFromFacts block.facts
    intersectTools (effective.filter (· ∈ tools)) blocks

def computeEffectiveTools : List TokenBlock → Except PyError (List String)
  | [] => .ok []
  | block :: blocks => do
    let tools ← extractToolNamesFromFacts block.facts
    intersectTools tools.dedup blocks

/-! ## The envelope -/

/-- Step 1: `token.split(".", 1)` into two non-empty parts. -/
def splitToken (token : String) : Option (List Char × List Char) :=
  match token.toList.span (· ≠ '.') with
  | (payloadB64, _ :: sigB64) =>
    if payloadB64 = [] ∨ sigB64 = [] then none else some (payloadB64, sigB64)
  | (_, []) => none

/-- Step 4: the keys to try; `none` is `token_invalid`. A `kid` that is not a string is never in
the keyring, and an unhashable one raises. -/
def verifyKeys (keyring : Keyring) (activeKid : Option String) (kid : PyVal) :
    Except PyError (Option (List (List UInt8))) :=
  if kid.truthy then
    match kid with
    | .str k => .ok ((keyring.get? k).map ([·]))
    | .list _ | .dict _ => .error .typeError
    | _ => .ok none
  else match activeKid with
    | some active => .ok ((keyring.get? active).map ([·]))
    | none => .ok (if keyring.values = [] then none else some keyring.values)

/-- One element of `raw_blocks`; `none` is the `AttributeError` of `b.get`. -/
def tokenBlock (b : PyVal) : Option TokenBlock :=
  match b.get "facts", b.get "checks" with
  | .ok facts, .ok checks => some ⟨facts.orElse (.list []), checks.orElse (.list [])⟩
  | _, _ => none

/-- Step 6: the block list; `none` is `token_invalid`, also for every exception on the way. -/
def parseBlocks (raw : PyVal) : Option (List TokenBlock) :=
  match raw.get "blocks" with
  | .error _ => none
  | .ok rawBlocks => match (rawBlocks.orElse (.list [])).iter with
    | .error _ => none
    | .ok [] => none
    | .ok (b :: bs) => (b :: bs).mapM tokenBlock

/-- Step 7: `expires_at is not None and _now >= expires_at`. -/
def expired (now : DateTime) : Option DateTime → Except PyError Bool
  | none => .ok false
  | some exp => do .ok (!(← now.lt exp))

/-- Steps 7 to 11, once the signature is verified. -/
def checkBlocks (h : Host) (requiredTool expectedTenant : Option String) (now : DateTime)
    (blocks : List TokenBlock) : Except PyError VerifyResult := do
  let expiresAt ← mostRestrictiveExpiry h blocks
  if ← expired now expiresAt then
    .ok { ok := false, reason := some "task_expired", expiresAt := expiresAt }
  else
    let effectiveTools ← computeEffectiveTools blocks
    let i ← extractIdentityFromFacts ((blocks.head?.map TokenBlock.facts).getD (.list []))
    if expectedTenant.isSome ∧ i.tenantId ≠ expectedTenant then
      .ok { ok := false, reason := some "tenant_mismatch", agentId := i.agentId,
            taskId := i.taskId, tenantId := i.tenantId, expiresAt := expiresAt }
    else if requiredTool.any fun tool => tool ∉ effectiveTools then
      .ok { ok := false, reason := some "tool_not_in_scope", effectiveTools := effectiveTools,
            agentId := i.agentId, taskId := i.taskId, tenantId := i.tenantId,
            expiresAt := expiresAt }
    else
      .ok { ok := true, effectiveTools := effectiveTools, agentId := i.agentId,
            taskId := i.taskId, tenantId := i.tenantId, expiresAt := expiresAt }

/-- Steps 3 to 6 on the decoded halves, then `checkBlocks`. -/
def verifyPayload (h : Host) (keyring : Keyring)
    (activeKid requiredTool expectedTenant : Option String) (now : DateTime)
    (payloadBytes sigBytes : List UInt8) : Except PyError VerifyResult :=
  match h.jsonLoads payloadBytes with
  | none => .ok (.denied "token_invalid")
  | some raw => do
    let kid ← raw.getD "kid" (.str "")
    match ← verifyKeys keyring activeKid kid with
    | none => .ok (.denied "token_invalid")
    | some keys =>
      if keys.any fun key => h.verifyKey key payloadBytes sigBytes then
        match parseBlocks raw with
        | none => .ok (.denied "token_invalid")
        | some blocks => checkBlocks h requiredTool expectedTenant now blocks
      else .ok (.denied "token_invalid")

/-- `verify_local`; `utcNow` is `datetime.now(tz=timezone.utc)`, used when `now` is not given. -/
def verifyLocal (h : Host) (token : String) (keyring : Keyring)
    (activeKid requiredTool expectedTenant : Option String) (now : Option DateTime)
    (utcNow : DateTime) : Except PyError VerifyResult :=
  match splitToken token with
  | none => .ok (.denied "token_invalid")
  | some (payloadB64, sigB64) =>
    match b64urlDecode payloadB64, b64urlDecode sigB64 with
    | some payloadBytes, some sigBytes =>
      verifyPayload h keyring activeKid requiredTool expectedTenant (now.getD utcNow)
        payloadBytes sigBytes
    | _, _ => .ok (.denied "token_invalid")

/-! ## Reasons -/

def deniedReasons : List String :=
  ["token_invalid", "task_expired", "tool_not_in_scope", "tenant_mismatch"]

def VerifyResult.Explained (vr : VerifyResult) : Prop :=
  vr.ok = false → ∃ r ∈ deniedReasons, vr.reason = some r

theorem explained_denied : (VerifyResult.denied "token_invalid").Explained := by
  intro _
  exact ⟨"token_invalid", by decide, rfl⟩

theorem checkBlocks_explained (h : Host) (requiredTool expectedTenant : Option String)
    (now : DateTime) (blocks : List TokenBlock) (vr : VerifyResult)
    (hvr : checkBlocks h requiredTool expectedTenant now blocks = .ok vr) : vr.Explained := by
  simp only [checkBlocks] at hvr
  obtain ⟨expiresAt, -, hvr⟩ := bind_eq_ok.mp hvr
  obtain ⟨late, -, hvr⟩ := bind_eq_ok.mp hvr
  intro hok
  split at hvr
  · cases hvr
    exact ⟨"task_expired", by decide, rfl⟩
  · obtain ⟨tools, -, hvr⟩ := bind_eq_ok.mp hvr
    obtain ⟨i, -, hvr⟩ := bind_eq_ok.mp hvr
    split at hvr
    · cases hvr
      exact ⟨"tenant_mismatch", by decide, rfl⟩
    · split at hvr
      · cases hvr
        exact ⟨"tool_not_in_scope", by decide, rfl⟩
      · cases hvr
        cases hok

theorem verifyPayload_explained (h : Host) (keyring : Keyring)
    (activeKid requiredTool expectedTenant : Option String) (now : DateTime)
    (payloadBytes sigBytes : List UInt8) (vr : VerifyResult)
    (hvr : verifyPayload h keyring activeKid requiredTool expectedTenant now payloadBytes sigBytes =
      .ok vr) : vr.Explained := by
  unfold verifyPayload at hvr
  cases hraw : h.jsonLoads payloadBytes with
  | none =>
    rw [hraw] at hvr
    cases hvr
    exact explained_denied
  | some raw =>
    rw [hraw] at hvr
    obtain ⟨kid, -, hvr⟩ := bind_eq_ok.mp hvr
    obtain ⟨found, -, hvr⟩ := bind_eq_ok.mp hvr
    cases found with
    | none =>
      cases hvr
      exact explained_denied
    | some keys =>
      simp only at hvr
      split at hvr
      · cases hblocks : parseBlocks raw with
        | none =>
          rw [hblocks] at hvr
          cases hvr
          exact explained_denied
        | some blocks =>
          rw [hblocks] at hvr
          exact checkBlocks_explained h requiredTool expectedTenant now blocks vr hvr
      · cases hvr
        exact explained_denied

theorem verifyLocal_explained (h : Host) (token : String) (keyring : Keyring)
    (activeKid requiredTool expectedTenant : Option String) (now : Option DateTime)
    (utcNow : DateTime) (vr : VerifyResult)
    (hvr : verifyLocal h token keyring activeKid requiredTool expectedTenant now utcNow = .ok vr) :
    vr.Explained := by
  unfold verifyLocal at hvr
  split at hvr
  · cases hvr
    exact explained_denied
  · split at hvr
    · exact verifyPayload_explained h keyring activeKid requiredTool expectedTenant _ _ _ vr hvr
    · cases hvr
      exact explained_denied

end Sigil.Verify
