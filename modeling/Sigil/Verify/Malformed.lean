import Sigil.Verify.Legible

/-! # Malformed tokens

`Envelope.Digestible` says exactly which payloads `verify_local` can read: an object with a hashable
`kid` and, if it is signed, legible blocks. On those it returns, and accepts the ones that pass
(`Envelope.Passes`); on all others an exception escapes, for the first two conditions before the
signature is looked at.
-/
set_option autoImplicit false

namespace Sigil.Verify

/-! ## The payload -/

/-- The `kid` as the code reads it: a false value is none, and a true one that is no string names no
key. -/
def kidText : PyVal → Option String
  | .str k => some k
  | v => if v.truthy then none else some ""

/-- A JSON value a dictionary can be asked for. -/
def hashable : PyVal → Bool
  | .list _ | .dict _ => false
  | _ => true

theorem verifyKeys_of_false (keyring : Keyring) (activeKid : Option String) (kid : PyVal)
    (hkid : kid.truthy = false) :
    verifyKeys keyring activeKid kid = verifyKeys keyring activeKid (.str "") := by
  have hempty : (PyVal.str "").truthy = false := rfl
  unfold verifyKeys
  simp [hkid, hempty]

theorem verifyKeys_ok_iff (keyring : Keyring) (activeKid : Option String) (kid : PyVal) :
    (∃ keys, verifyKeys keyring activeKid kid = .ok keys) ↔
      (kid.truthy = true → hashable kid = true) := by
  cases hkid : kid.truthy with
  | false =>
    rw [verifyKeys_of_false keyring activeKid kid hkid]
    obtain ⟨keys, hkeys, -⟩ := verifyKeys_str keyring activeKid ""
    simp [hkeys]
  | true =>
    unfold verifyKeys
    cases kid <;> simp_all [hashable]

theorem verifyKeys_text (keyring : Keyring) (activeKid : Option String) (kid : PyVal)
    (keys : Option (List (List UInt8))) (hkeys : verifyKeys keyring activeKid kid = .ok keys)
    (key : List UInt8) : (∃ ks, keys = some ks ∧ key ∈ ks) ↔
      ∃ k, kidText kid = some k ∧ KeyFor keyring activeKid k key := by
  have hstr : ∀ k, verifyKeys keyring activeKid (.str k) = .ok keys →
      ((∃ ks, keys = some ks ∧ key ∈ ks) ↔ KeyFor keyring activeKid k key) := by
    intro k hk
    obtain ⟨keys', hkeys', hiff⟩ := verifyKeys_str keyring activeKid k
    rw [hk, Except.ok.injEq] at hkeys'
    rw [hkeys']
    exact hiff key
  by_cases hs : ∃ k, kid = .str k
  · obtain ⟨k, rfl⟩ := hs
    simpa [kidText] using hstr k hkeys
  · cases hkid : kid.truthy with
    | true =>
      have hnone : keys = none := by
        unfold verifyKeys at hkeys
        cases kid <;> simp_all
      have htext : kidText kid = none := by
        cases kid <;> simp_all [kidText]
      simp [hnone, htext]
    | false =>
      have htext : kidText kid = some "" := by
        cases kid <;> simp_all [kidText]
      rw [verifyKeys_of_false keyring activeKid kid hkid] at hkeys
      simpa [htext] using hstr "" hkeys

namespace Envelope

variable {h : Host} {token : String}

def kid (e : Envelope h token) : PyVal :=
  match e.raw with
  | .dict kvs => (kvs.lookup (.str "kid")).getD (.str "")
  | _ => .str ""

/-- The signature verifies under a key the `kid` allows. -/
def Signed (e : Envelope h token) (keyring : Keyring) (activeKid : Option String) : Prop :=
  ∃ key, (∃ k, kidText e.kid = some k ∧ KeyFor keyring activeKid k key) ∧
    h.verifyKey key e.payloadBytes e.sigBytes = true

/-- A payload `verify_local` can read. -/
structure Digestible (e : Envelope h token) (keyring : Keyring) (activeKid : Option String)
    (now : DateTime) : Prop where
  isObject : e.raw.isDict = true
  kidHashable : e.kid.truthy = true → hashable e.kid = true
  legible : e.Signed keyring activeKid → ∀ blocks, parseBlocks e.raw = some blocks →
    Legible h now blocks

/-- A signed payload whose blocks, as they are read, pass. -/
def Passes (e : Envelope h token) (keyring : Keyring)
    (activeKid requiredTool expectedTenant : Option String) (now : DateTime) : Prop :=
  e.Signed keyring activeKid ∧ ∃ blocks, parseBlocks e.raw = some blocks ∧
    Admits h requiredTool expectedTenant now (blocks.map (TokenBlock.read h))

theorem signed_iff_any (e : Envelope h token) (keyring : Keyring) (activeKid : Option String)
    (keys : Option (List (List UInt8))) (hkeys : verifyKeys keyring activeKid e.kid = .ok keys) :
    e.Signed keyring activeKid ↔
      ∃ ks, keys = some ks ∧
        (ks.any fun key => h.verifyKey key e.payloadBytes e.sigBytes) = true := by
  have htext := verifyKeys_text keyring activeKid e.kid keys hkeys
  constructor
  · rintro ⟨key, hkey, hsig⟩
    obtain ⟨ks, hks, hmem⟩ := (htext key).mpr hkey
    exact ⟨ks, hks, List.any_eq_true.mpr ⟨key, hmem, hsig⟩⟩
  · rintro ⟨ks, hks, hany⟩
    obtain ⟨key, hmem, hsig⟩ := List.any_eq_true.mp hany
    exact ⟨key, (htext key).mp ⟨ks, hks, hmem⟩, hsig⟩

theorem parseBlocks_ne_nil (raw : PyVal) (blocks : List TokenBlock)
    (hb : parseBlocks raw = some blocks) : blocks ≠ [] := by
  intro hnil
  rw [hnil] at hb
  unfold parseBlocks at hb
  split at hb
  · cases hb
  · split at hb
    · cases hb
    · cases hb
    · simp [List.mapM_cons, Option.bind_eq_some_iff] at hb

theorem kid_of_dict (e : Envelope h token) (kvs : List (PyKey × PyVal)) (hraw : e.raw = .dict kvs) :
    e.raw.getD "kid" (.str "") = .ok e.kid := by
  rw [kid, hraw]
  rfl

section Payload

variable (e : Envelope h token) (keyring : Keyring)
  (activeKid requiredTool expectedTenant : Option String) (now : DateTime)

theorem digestible_of_verifyPayload (hnow : now.aware = true) (vr : VerifyResult)
    (hvr : verifyPayload h keyring activeKid requiredTool expectedTenant now e.payloadBytes
      e.sigBytes = .ok vr) : e.Digestible keyring activeKid now := by
  unfold verifyPayload at hvr
  rw [e.parses] at hvr
  obtain ⟨kid, hget, hvr⟩ := bind_eq_ok.mp hvr
  obtain ⟨keys, hkeys, hvr⟩ := bind_eq_ok.mp hvr
  obtain ⟨kvs, hraw⟩ : ∃ kvs, e.raw = .dict kvs := by
    cases hraw : e.raw <;> simp_all [PyVal.getD]
  rw [e.kid_of_dict kvs hraw, Except.ok.injEq] at hget
  subst hget
  refine ⟨by rw [hraw]; rfl, (verifyKeys_ok_iff keyring activeKid e.kid).mp ⟨keys, hkeys⟩, ?_⟩
  intro hsigned blocks hblocks
  obtain ⟨ks, rfl, hany⟩ := (e.signed_iff_any keyring activeKid keys hkeys).mp hsigned
  simp only [hany, hblocks, if_true] at hvr
  exact legible_of_checkBlocks h requiredTool expectedTenant now hnow blocks vr hvr

theorem verifyPayload_of_digestible (hnow : now.aware = true)
    (hd : e.Digestible keyring activeKid now) :
    ∃ vr, verifyPayload h keyring activeKid requiredTool expectedTenant now e.payloadBytes
        e.sigBytes = .ok vr ∧
      (vr.ok = true ↔ e.Passes keyring activeKid requiredTool expectedTenant now) := by
  have hrefused : ∀ {p : Prop}, ¬ p →
      ((VerifyResult.denied "token_invalid").ok = true ↔ p) := by
    intro p hp
    simp [VerifyResult.denied, hp]
  obtain ⟨kvs, hraw⟩ : ∃ kvs, e.raw = .dict kvs := by
    have hdict := hd.isObject
    cases hraw : e.raw <;> simp_all [PyVal.isDict]
  obtain ⟨keys, hkeys⟩ := (verifyKeys_ok_iff keyring activeKid e.kid).mpr hd.kidHashable
  have hsigned := e.signed_iff_any keyring activeKid keys hkeys
  unfold verifyPayload
  simp only [e.parses, e.kid_of_dict kvs hraw, hkeys, bind, Except.bind]
  by_cases hs : e.Signed keyring activeKid
  · obtain ⟨ks, rfl, hany⟩ := hsigned.mp hs
    simp only [hany, if_true]
    cases hblocks : parseBlocks e.raw with
    | none =>
      refine ⟨_, rfl, hrefused ?_⟩
      rintro ⟨-, blocks, hsome, -⟩
      rw [hblocks] at hsome
      cases hsome
    | some blocks =>
      obtain ⟨vr, hvr, hok⟩ := checkBlocks_of_legible h requiredTool expectedTenant now hnow blocks
        (parseBlocks_ne_nil e.raw blocks hblocks) (hd.legible hs blocks hblocks)
      refine ⟨vr, hvr, hok.trans ?_⟩
      constructor
      · exact fun hadm => ⟨hs, blocks, hblocks, hadm⟩
      · rintro ⟨-, blocks', hblocks', hadm⟩
        rw [hblocks, Option.some.injEq] at hblocks'
        rw [hblocks']
        exact hadm
  · have hno : ¬ e.Passes keyring activeKid requiredTool expectedTenant now := fun hp => hs hp.1
    cases keys with
    | none => exact ⟨_, rfl, hrefused hno⟩
    | some ks =>
      have hany : (ks.any fun key => h.verifyKey key e.payloadBytes e.sigBytes) = false := by
        rw [← Bool.not_eq_true]
        exact fun hany => hs (hsigned.mpr ⟨ks, rfl, hany⟩)
      simp only [hany, Bool.false_eq_true, if_false]
      exact ⟨_, rfl, hrefused hno⟩

end Payload

end Envelope

/-! ## The token -/

/-- The token splits and decodes, and its payload is an object with a string for a `kid` and blocks
whose facts and checks are lists of strings. -/
def WellFormed (h : Host) (token : String) : Prop :=
  ∃ e : Envelope h token, (Biscuit.ofPayload e.raw).isSome = true

theorem verifyLocal_no_envelope (h : Host) (token : String) (keyring : Keyring)
    (activeKid requiredTool expectedTenant : Option String) (now : Option DateTime)
    (utcNow : DateTime) (he : IsEmpty (Envelope h token)) :
    verifyLocal h token keyring activeKid requiredTool expectedTenant now utcNow =
      .ok (.denied "token_invalid") := by
  unfold verifyLocal
  split
  · rfl
  · next p s hsplit =>
    obtain ⟨hcat, hdot, hp, hs⟩ := (splitToken_eq_some_iff token p s).mp hsplit
    split
    · next payloadBytes sigBytes hpayload hsig =>
      unfold verifyPayload
      split
      · rfl
      · next raw hraw =>
        exact he.elim ⟨p, s, hcat, hdot, hp, hs, payloadBytes, sigBytes, hpayload, hsig, raw, hraw⟩
    · rfl

/-- **When no payload makes it raise.** `verify_local` returns, and refuses a malformed token,
exactly when the payload is digestible, if there is one at all, and does not pass unless it is well
formed. -/
theorem malformed_denied_iff (h : Host) (token : String) (keyring : Keyring)
    (activeKid requiredTool expectedTenant : Option String) (now : Option DateTime)
    (utcNow : DateTime) (hnow : (now.getD utcNow).aware = true) :
    (∃ vr, verifyLocal h token keyring activeKid requiredTool expectedTenant now utcNow = .ok vr ∧
        (¬ WellFormed h token → vr.ok = false)) ↔
      ∀ e : Envelope h token, e.Digestible keyring activeKid (now.getD utcNow) ∧
        (e.Passes keyring activeKid requiredTool expectedTenant (now.getD utcNow) →
          (Biscuit.ofPayload e.raw).isSome = true) := by
  constructor
  · rintro ⟨vr, hvr, hmalformed⟩ e
    rw [verifyLocal_envelope h token e] at hvr
    have hd := e.digestible_of_verifyPayload keyring activeKid requiredTool expectedTenant _ hnow vr
      hvr
    refine ⟨hd, fun hpasses => ?_⟩
    obtain ⟨vr', hvr', hok⟩ := e.verifyPayload_of_digestible keyring activeKid requiredTool
      expectedTenant _ hnow hd
    rw [hvr, Except.ok.injEq] at hvr'
    rw [← hvr'] at hok
    by_contra hill
    have hdenied := hmalformed fun ⟨e', he'⟩ => hill (by rwa [e.raw_eq e'])
    rw [hok.mpr hpasses] at hdenied
    cases hdenied
  · intro hall
    by_cases he : Nonempty (Envelope h token)
    · obtain ⟨e⟩ := he
      obtain ⟨hd, htyped⟩ := hall e
      obtain ⟨vr, hvr, hok⟩ := e.verifyPayload_of_digestible keyring activeKid requiredTool
        expectedTenant _ hnow hd
      refine ⟨vr, by rw [verifyLocal_envelope h token e, hvr], fun hill => ?_⟩
      rw [← Bool.not_eq_true]
      exact fun hacc => hill ⟨e, htyped (hok.mp hacc)⟩
    · exact ⟨_, verifyLocal_no_envelope h token keyring activeKid requiredTool expectedTenant now
        utcNow (not_nonempty_iff.mp he), fun _ => rfl⟩

/-! ## Payloads nobody signed -/

def listText : SignedText := ⟨"W10".toList, "AA".toList, .list []⟩

/-- The payload is the empty list: looking up its `kid` raises. -/
theorem list_payload_raises :
    ¬ ∃ vr, verifyLocal (tableHost sampleKey [listText] [] fun _ => "") "W10.AA" sampleKeyring none
        (some "a.b") none (some start2030) start2030 = .ok vr ∧
      (¬ WellFormed (tableHost sampleKey [listText] [] fun _ => "") "W10.AA" → vr.ok = false) := by
  have hraises : verifyLocal (tableHost sampleKey [listText] [] fun _ => "") "W10.AA" sampleKeyring
      none (some "a.b") none (some start2030) start2030 = .error .attributeError := by
    rfl
  rintro ⟨vr, hvr, -⟩
  rw [hraises] at hvr
  cases hvr

/-- Facts that are a number, under a `kid` the keyring does not have. -/
def numberText : SignedText where
  payload := "eyJraWQiOiJ4IiwiYmxvY2tzIjpbeyJmYWN0cyI6N31dfQ".toList
  sig := "AA".toList
  raw := .dict [(.str "kid", .str "x"), (.str "blocks", .list [.dict [(.str "facts", .int 7)]])]

def numberHost : Host := tableHost sampleKey [numberText] [] fun _ => ""

def numberEnvelope : Envelope numberHost numberText.token where
  payload := numberText.payload
  sig := numberText.sig
  split := String.toList_ofList
  dotFree := by decide +kernel
  payload_ne := by decide
  sig_ne := by decide
  payloadBytes := (b64urlDecode numberText.payload).get (by decide +kernel)
  sigBytes := (b64urlDecode numberText.sig).get (by decide +kernel)
  payload_decodes := (Option.some_get _).symm
  sig_decodes := (Option.some_get _).symm
  raw := numberText.raw
  parses := tableHost_parses _ _ _ _ _ 0 _ (by decide +kernel) rfl

theorem malformed_denied_iff_number :
    ∃ vr, verifyLocal numberHost numberText.token sampleKeyring none (some "a.b") none
        (some start2030) start2030 = .ok vr ∧
      (¬ WellFormed numberHost numberText.token → vr.ok = false) := by
  refine (malformed_denied_iff numberHost numberText.token sampleKeyring none (some "a.b") none
    (some start2030) start2030 rfl).mpr fun e => ?_
  have hraw : e.raw = numberText.raw := e.raw_eq numberEnvelope
  have hkid : e.kid = .str "x" := by
    rw [Envelope.kid, hraw]
    rfl
  have hunsigned : ¬ e.Signed sampleKeyring none := by
    rintro ⟨key, ⟨k, hk, hkey⟩, -⟩
    rw [hkid, kidText, Option.some.injEq] at hk
    subst hk
    rcases hkey with ⟨-, hget⟩ | ⟨-, hempty, -, -⟩ | ⟨hempty, -, -⟩
    · have hnone : sampleKeyring.get? "x" = none := by decide
      rw [hnone] at hget
      cases hget
    · exact absurd hempty (by decide)
    · exact absurd hempty (by decide)
  refine ⟨⟨by rw [hraw]; rfl, fun _ => by rw [hkid]; rfl, fun hs => absurd hs hunsigned⟩, ?_⟩
  exact fun hpasses => absurd hpasses.1 hunsigned

end Sigil.Verify
