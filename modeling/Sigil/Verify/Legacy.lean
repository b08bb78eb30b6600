import Sigil.Verify.Rotation

/-! # The helpers of the old token format

`decode_token`, `verify_token`, `has_tool_fact` and `is_expired` read a flat authority block, with
`facts` and `expires_at` at the top. The two formats share their envelope, so each verifier can be
given a token of the other. `formats_apart` says what each then does.
-/
set_option autoImplicit false

namespace Sigil.Verify.Legacy

/-- What the helpers raise: a `ValueError` of their own, one of the decoders', what PyNaCl raises
for a signature that does not verify, or a built-in exception. -/
inductive TokenError where
  | valueError (message : String)
  | undecodable
  | badSignature
  | builtin (e : PyError)
  deriving DecidableEq, Repr

def malformed : TokenError := .valueError "Malformed token: expected exactly one '.' separator"

def missingExpiresAt : TokenError :=
  .valueError "Token authority block missing 'expires_at' field"

def expiredAt (text : String) : TokenError := .valueError ("Token expired at " ++ text)

def builtin {α : Type} : Except PyError α → Except TokenError α
  | .ok a => .ok a
  | .error e => .error (.builtin e)

def decoded {α : Type} : Option α → Except TokenError α
  | some a => .ok a
  | none => .error .undecodable

/-- `parts = token.split(".")` with `len(parts) == 2` -/
def splitHalves (token : String) : Option (List Char × List Char) :=
  match token.toList.splitOn '.' with
  | [p, s] => some (p, s)
  | _ => none

/-- `decode_token` -/
def decodeToken (h : Host) (token : String) : Except TokenError PyVal :=
  match splitHalves token with
  | none => .error malformed
  | some (authorityB64, _) => do
    let authorityBytes ← decoded (b64urlDecode authorityB64)
    decoded (h.jsonLoads authorityBytes)

/-- `datetime.fromisoformat(expires_at_str.replace("Z", "+00:00"))`: only strings have `replace`. -/
def expiresAt (h : Host) : PyVal → Except TokenError DateTime
  | .str text => decoded (h.fromIsoFormat (String.ofList (replaceZ text.toList)))
  | _ => .error (.builtin .attributeError)

/-- `datetime.now(tz=timezone.utc) >= expires_at` -/
def reached (utcNow exp : DateTime) : Except TokenError Bool := do
  return !(← builtin (utcNow.lt exp))

/-- Step 4 of `verify_token`. -/
def checkExpiresAt (h : Host) (utcNow : DateTime) (authority : PyVal) :
    Except TokenError PyVal := do
  let expiresAtStr ← builtin (authority.getD "expires_at" (.str ""))
  if expiresAtStr.truthy then
    if ← reached utcNow (← expiresAt h expiresAtStr) then
      .error (expiredAt (expiresAtStr.toStr h))
    else .ok authority
  else .ok authority

/-- `verify_token` -/
def verifyToken (h : Host) (token : String) (publicKeyBytes : List UInt8) (utcNow : DateTime) :
    Except TokenError PyVal :=
  match splitHalves token with
  | none => .error malformed
  | some (payloadB64, sigB64) => do
    let payloadBytes ← decoded (b64urlDecode payloadB64)
    let sigBytes ← decoded (b64urlDecode sigB64)
    if h.verifyKey publicKeyBytes payloadBytes sigBytes then
      checkExpiresAt h utcNow (← decoded (h.jsonLoads payloadBytes))
    else .error .badSignature

/-- `s in v` for a string `s` -/
def contains (v : PyVal) (s : String) : Except PyError Bool :=
  match v with
  | .list xs | .tuple xs => .ok (xs.any fun x => x.isStr s)
  | .dict kvs => .ok (kvs.lookup (.str s)).isSome
  | .str t => .ok (decide (s.toList <:+: t.toList))
  | _ => .error .typeError

/-- `f'tool("{tool_name}")'` -/
def expectedFact (toolName : String) : String :=
  String.ofList ("tool(".toList ++ quoteChar :: (toolName.toList ++ [quoteChar, ')']))

/-- `has_tool_fact` -/
def hasToolFact (authority : PyVal) (toolName : String) : Except PyError Bool := do
  contains (← authority.getD "facts" (.list [])) (expectedFact toolName)

/-- `is_expired` -/
def isExpired (h : Host) (utcNow : DateTime) (authority : PyVal) : Except TokenError Bool := do
  let expiresAtStr ← builtin (authority.getD "expires_at" (.str ""))
  if expiresAtStr.truthy then reached utcNow (← expiresAt h expiresAtStr)
  else .error missingExpiresAt

/-! ## The halves -/

/-- A token of `verify_local` is split in the same place, if that is the only separator. -/
theorem splitHalves_of_split (token : String) (p s : List Char)
    (hsplit : token.toList = p ++ '.' :: s) (hp : '.' ∉ p) :
    splitHalves token = if '.' ∈ s then none else some (p, s) := by
  have hparts := List.splitOn_append_cons_self_of_not_mem hp s
  rw [← hsplit] at hparts
  unfold splitHalves
  rw [hparts]
  by_cases hs : '.' ∈ s
  · rw [if_pos hs]
    obtain ⟨a, b, rfl⟩ := List.append_of_mem hs
    rw [List.splitOn_append_cons_self]
    obtain ⟨x, xs, hx⟩ := List.exists_cons_of_ne_nil (List.splitOn_ne_nil '.' a)
    obtain ⟨y, ys, hy⟩ := List.exists_cons_of_ne_nil (List.splitOn_ne_nil '.' b)
    rw [hx, hy]
    cases xs <;> rfl
  · rw [if_neg hs, List.splitOn_eq_singleton hs]

section Envelope

variable {h : Host} {token : String} (e : Envelope h token)

theorem decodeToken_envelope :
    decodeToken h token = if '.' ∈ e.sig then .error malformed else .ok e.raw := by
  unfold decodeToken
  rw [splitHalves_of_split token e.payload e.sig e.split e.dotFree]
  by_cases hdot : '.' ∈ e.sig
  · rw [if_pos hdot, if_pos hdot]
  · rw [if_neg hdot, if_neg hdot]
    simp only [e.payload_decodes, decoded, bind, Except.bind, e.parses]

theorem verifyToken_envelope (key : List UInt8) (utcNow : DateTime) :
    verifyToken h token key utcNow =
      if '.' ∈ e.sig then .error malformed
      else if h.verifyKey key e.payloadBytes e.sigBytes then checkExpiresAt h utcNow e.raw
      else .error .badSignature := by
  unfold verifyToken
  rw [splitHalves_of_split token e.payload e.sig e.split e.dotFree]
  by_cases hdot : '.' ∈ e.sig
  · rw [if_pos hdot, if_pos hdot]
  · rw [if_neg hdot, if_neg hdot]
    simp only [e.payload_decodes, e.sig_decodes, decoded, bind, Except.bind, e.parses]

end Envelope

/-! ## The expiry at the top -/

theorem expiresAt_error (h : Host) (v : PyVal) (e : TokenError) (he : expiresAt h v = .error e) :
    e = .undecodable ∨ e = .builtin .attributeError := by
  unfold expiresAt at he
  split at he
  · unfold decoded at he
    split at he
    · cases he
    · cases he
      exact .inl rfl
  · cases he
    exact .inr rfl

theorem missingExpiresAt_ne : missingExpiresAt ≠ .undecodable ∧
    ∀ e, missingExpiresAt ≠ .builtin e := by
  refine ⟨?_, fun e => ?_⟩ <;> unfold missingExpiresAt <;> simp

/-- `verify_token` refuses what `is_expired` says is expired, and accepts what has no expiry. -/
theorem checkExpiresAt_eq (h : Host) (utcNow : DateTime) (authority : PyVal) :
    checkExpiresAt h utcNow authority =
      match isExpired h utcNow authority with
      | .ok false => .ok authority
      | .ok true => .error (expiredAt (((authority.getD "expires_at" (.str "")).toOption.map
          (PyVal.toStr h)).getD ""))
      | .error e => if e = missingExpiresAt then .ok authority else .error e := by
  have hbuiltin : ∀ e, ¬ TokenError.builtin e = missingExpiresAt :=
    fun e => (missingExpiresAt_ne.2 e).symm
  unfold checkExpiresAt isExpired
  cases hget : authority.getD "expires_at" (.str "") with
  | error e => simp only [builtin, bind, Except.bind, hbuiltin, if_false]
  | ok text =>
    simp only [builtin, bind, Except.bind]
    by_cases htext : text.truthy = true
    · rw [if_pos htext, if_pos htext]
      cases hexp : expiresAt h text with
      | error e =>
        have hother : e ≠ missingExpiresAt := by
          obtain rfl | rfl := expiresAt_error h text e hexp
          · exact missingExpiresAt_ne.1.symm
          · exact hbuiltin _
        simp only [hother, if_false]
      | ok exp =>
        cases hlt : utcNow.lt exp with
        | error e => simp only [reached, builtin, hlt, bind, Except.bind, hbuiltin, if_false]
        | ok early =>
          simp only [reached, builtin, hlt, bind, Except.bind, pure, Except.pure]
          cases early <;> rfl
    · rw [if_neg htext, if_neg htext]
      simp only [if_true]

/-- What `verify_token` returns is the object it checked. -/
theorem checkExpiresAt_ok (h : Host) (utcNow : DateTime) (authority v : PyVal)
    (hv : checkExpiresAt h utcNow authority = .ok v) : v = authority ∧ authority.isDict = true := by
  have hdict : authority.isDict = true := by
    unfold checkExpiresAt at hv
    obtain ⟨text, htext, -⟩ := bind_eq_ok.mp hv
    cases authority <;> simp_all [PyVal.getD, PyVal.isDict, builtin]
  refine ⟨?_, hdict⟩
  rw [checkExpiresAt_eq] at hv
  split at hv
  · cases hv
    rfl
  · cases hv
  · split at hv
    · cases hv
      rfl
    · cases hv

/-- A payload with no `expires_at` at the top. -/
theorem expiresAt_absent (h : Host) (utcNow : DateTime) (kvs : List (PyKey × PyVal))
    (habsent : kvs.lookup (.str "expires_at") = none) :
    checkExpiresAt h utcNow (.dict kvs) = .ok (.dict kvs) ∧
      isExpired h utcNow (.dict kvs) = .error missingExpiresAt := by
  have hempty : (PyVal.str "").truthy = false := rfl
  constructor
  · simp [checkExpiresAt, builtin, habsent, hempty, bind, Except.bind]
  · simp [isExpired, builtin, habsent, hempty, bind, Except.bind]

theorem facts_absent (kvs : List (PyKey × PyVal)) (toolName : String)
    (habsent : kvs.lookup (.str "facts") = none) : hasToolFact (.dict kvs) toolName = .ok false := by
  simp [hasToolFact, contains, habsent, bind, Except.bind]

/-! ## Tokens of the other format -/

theorem verifyToken_ok (h : Host) (token : String) (key : List UInt8) (utcNow : DateTime)
    (v : PyVal) (hv : verifyToken h token key utcNow = .ok v) (e : Envelope h token) :
    e.raw = v ∧ v.isDict = true := by
  rw [verifyToken_envelope e] at hv
  split at hv
  · cases hv
  · split at hv
    · obtain ⟨rfl, hdict⟩ := checkExpiresAt_ok h utcNow e.raw v hv
      exact ⟨rfl, hdict⟩
    · cases hv

/-- A payload without `blocks`, or with none in them. -/
def Blockless (v : PyVal) : Prop := ∃ blocks, v.get "blocks" = .ok blocks ∧ blocks.truthy = false

theorem parseBlocks_blockless (v : PyVal) (hv : Blockless v) : parseBlocks v = none := by
  obtain ⟨blocks, hget, hfalse⟩ := hv
  unfold parseBlocks
  simp [hget, PyVal.orElse, hfalse, PyVal.iter]

/-- What `verify_token` and its siblings make of a token whose payload is `e.raw`, given a key that
signed it. -/
structure ReadAsLegacy (h : Host) (token : String) (e : Envelope h token) (key : List UInt8) :
    Prop where
  decode : decodeToken h token = if '.' ∈ e.sig then .error malformed else .ok e.raw
  verify : ∀ later, verifyToken h token key later =
    if '.' ∈ e.sig then .error malformed else checkExpiresAt h later e.raw
  timeless : ∀ kvs, e.raw = .dict kvs → kvs.lookup (.str "expires_at") = none → ∀ later,
    checkExpiresAt h later e.raw = .ok e.raw ∧ isExpired h later e.raw = .error missingExpiresAt
  factless : ∀ kvs, e.raw = .dict kvs → kvs.lookup (.str "facts") = none → ∀ toolName,
    hasToolFact e.raw toolName = .ok false

/-- **The two formats are kept apart by their fields, not by their envelope.** A token that
`verify_local` accepts is signed by a key of the keyring with which `verify_token` reads it, if it
has one separator: it then looks at a top-level `expires_at` only, and where there is none accepts
the token at every time, whatever its blocks say. A token that `verify_token` accepts and that has
no blocks is `token_invalid` for `verify_local`, for every keyring with which that raises nothing. -/
theorem formats_apart (h : Host) (token : String) (keyring : Keyring)
    (activeKid requiredTool expectedTenant : Option String) (now : Option DateTime)
    (utcNow : DateTime) (vr : VerifyResult)
    (hvr : verifyLocal h token keyring activeKid requiredTool expectedTenant now utcNow = .ok vr) :
    (vr.ok = true → ∃ (e : Envelope h token) (kid : String) (key : List UInt8),
      keyring.get? kid = some key ∧ ReadAsLegacy h token e key) ∧
    ∀ (key : List UInt8) (time : DateTime) (v : PyVal), verifyToken h token key time = .ok v →
      Blockless v → vr = .denied "token_invalid" := by
  constructor
  · intro hok
    obtain ⟨e⟩ := envelope_of_accepted h token keyring activeKid requiredTool expectedTenant now
      utcNow vr hvr hok
    rw [verifyLocal_envelope h token e] at hvr
    have hne : vr ≠ .denied "token_invalid" := by
      intro hdenied
      rw [hdenied] at hok
      cases hok
    obtain ⟨⟨key, ⟨k, -, hkey⟩, hsig⟩, -⟩ := e.signed_of_ok keyring activeKid requiredTool
      expectedTenant _ vr hvr hne
    obtain ⟨kid, hget⟩ := hkey.held
    refine ⟨e, kid, key, hget, decodeToken_envelope e, ?_, ?_, ?_⟩
    · intro later
      rw [verifyToken_envelope e, if_pos hsig]
    · intro kvs hraw habsent later
      rw [hraw]
      exact expiresAt_absent h later kvs habsent
    · intro kvs hraw habsent toolName
      rw [hraw]
      exact facts_absent kvs toolName habsent
  · intro key time v hv hblockless
    by_cases he : Nonempty (Envelope h token)
    · obtain ⟨e⟩ := he
      obtain ⟨rfl, -⟩ := verifyToken_ok h token key time v hv e
      rw [verifyLocal_envelope h token e] at hvr
      by_contra hne
      obtain ⟨-, blocks, hblocks⟩ := e.signed_of_ok keyring activeKid requiredTool expectedTenant _
        vr hvr hne
      rw [parseBlocks_blockless e.raw hblockless] at hblocks
      cases hblocks
    · rw [verifyLocal_no_envelope h token keyring activeKid requiredTool expectedTenant now utcNow
        (not_nonempty_iff.mp he), Except.ok.injEq] at hvr
      exact hvr.symm

theorem formats_apart_authority :
    ∃ (e : Envelope sampleHost authorityText.token) (kid : String) (key : List UInt8),
      sampleKeyring.get? kid = some key ∧ ReadAsLegacy sampleHost authorityText.token e key :=
  (formats_apart sampleHost authorityText.token sampleKeyring none none none none start2030
    (acceptance sampleHost [authorityBlock])
    ((verifyLocal_accepts_iff authorityReading sampleKeyring none none none none start2030 _).mpr
      ⟨authorityReading_signed, by decide +kernel, rfl⟩).1).1 rfl

end Sigil.Verify.Legacy
