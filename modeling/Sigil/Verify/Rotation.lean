import Sigil.Verify.Malformed

/-! # Adding keys

The keyring decides one thing: whether the signature verifies under a key the `kid` allows. What
comes after is read from the payload alone. So a keyring that gains keys can only accept more, and
only what one of the new keys signed.
-/
set_option autoImplicit false

namespace Sigil.Verify

/-- `verify_local` from step 6 on, on a payload whose signature has verified. -/
def blocksVerdict (h : Host) (requiredTool expectedTenant : Option String) (now : DateTime)
    (raw : PyVal) : Except PyError VerifyResult :=
  match parseBlocks raw with
  | none => .ok (.denied "token_invalid")
  | some blocks => checkBlocks h requiredTool expectedTenant now blocks

namespace Envelope

variable {h : Host} {token : String} (e : Envelope h token)

/-- A payload whose `kid` can be looked up. -/
structure Readable : Prop where
  isObject : e.raw.isDict = true
  kidHashable : e.kid.truthy = true → hashable e.kid = true

section Payload

variable (keyring : Keyring) (activeKid requiredTool expectedTenant : Option String)
  (now : DateTime)

theorem verifyPayload_readable (hr : e.Readable) :
    (e.Signed keyring activeKid →
      verifyPayload h keyring activeKid requiredTool expectedTenant now e.payloadBytes e.sigBytes =
        blocksVerdict h requiredTool expectedTenant now e.raw) ∧
    (¬ e.Signed keyring activeKid →
      verifyPayload h keyring activeKid requiredTool expectedTenant now e.payloadBytes e.sigBytes =
        .ok (.denied "token_invalid")) := by
  obtain ⟨kvs, hraw⟩ : ∃ kvs, e.raw = .dict kvs := by
    have hdict := hr.isObject
    cases hraw : e.raw <;> simp_all [PyVal.isDict]
  obtain ⟨keys, hkeys⟩ := (verifyKeys_ok_iff keyring activeKid e.kid).mpr hr.kidHashable
  have hsigned := e.signed_iff_any keyring activeKid keys hkeys
  unfold verifyPayload
  simp only [e.parses, e.kid_of_dict kvs hraw, hkeys, bind, Except.bind]
  constructor
  · intro hs
    obtain ⟨ks, rfl, hany⟩ := hsigned.mp hs
    simp only [hany, if_true]
    rfl
  · intro hs
    cases keys with
    | none => rfl
    | some ks =>
      have hany : ¬ (ks.any fun key => h.verifyKey key e.payloadBytes e.sigBytes) = true :=
        fun hany => hs (hsigned.mpr ⟨ks, rfl, hany⟩)
      simp only [hany]
      rfl

/-- Otherwise what escapes does not depend on the keys. -/
theorem verifyPayload_unreadable (hr : ¬ e.Readable) (keyring' : Keyring)
    (activeKid' : Option String) :
    verifyPayload h keyring activeKid requiredTool expectedTenant now e.payloadBytes e.sigBytes =
      verifyPayload h keyring' activeKid' requiredTool expectedTenant now e.payloadBytes
        e.sigBytes := by
  unfold verifyPayload
  simp only [e.parses]
  by_cases hdict : e.raw.isDict = true
  · obtain ⟨kvs, hraw⟩ : ∃ kvs, e.raw = .dict kvs := by
      cases hraw : e.raw <;> simp_all [PyVal.isDict]
    have hkid : e.kid.truthy = true ∧ hashable e.kid = false := by
      have hnot : ¬ (e.kid.truthy = true → hashable e.kid = true) := fun hk => hr ⟨hdict, hk⟩
      rw [Classical.not_imp, Bool.not_eq_true] at hnot
      exact hnot
    simp only [e.kid_of_dict kvs hraw, bind, Except.bind]
    have hraises : ∀ (k : Keyring) (a : Option String),
        verifyKeys k a e.kid = .error .typeError := by
      intro k a
      unfold verifyKeys
      rw [if_pos hkid.1]
      have hfalse := hkid.2
      cases hval : e.kid <;> simp_all [hashable]
    simp only [hraises]
  · cases hraw : e.raw <;> simp_all [PyVal.isDict, PyVal.getD, bind, Except.bind]

/-- What `verify_local` returns on a payload says that it is readable. -/
theorem readable_of_ok (vr : VerifyResult)
    (hvr : verifyPayload h keyring activeKid requiredTool expectedTenant now e.payloadBytes
      e.sigBytes = .ok vr) : e.Readable := by
  unfold verifyPayload at hvr
  rw [e.parses] at hvr
  obtain ⟨kid, hget, hvr⟩ := bind_eq_ok.mp hvr
  obtain ⟨keys, hkeys, -⟩ := bind_eq_ok.mp hvr
  obtain ⟨kvs, hraw⟩ : ∃ kvs, e.raw = .dict kvs := by
    cases hraw : e.raw <;> simp_all [PyVal.getD]
  rw [e.kid_of_dict kvs hraw, Except.ok.injEq] at hget
  subst hget
  exact ⟨by rw [hraw]; rfl, (verifyKeys_ok_iff keyring activeKid e.kid).mp ⟨keys, hkeys⟩⟩

/-- What is not `token_invalid` is signed, and its blocks are there. -/
theorem signed_of_ok (vr : VerifyResult)
    (hvr : verifyPayload h keyring activeKid requiredTool expectedTenant now e.payloadBytes
      e.sigBytes = .ok vr) (hne : vr ≠ .denied "token_invalid") :
    e.Signed keyring activeKid ∧ ∃ blocks, parseBlocks e.raw = some blocks := by
  obtain ⟨hpos, hneg⟩ := e.verifyPayload_readable keyring activeKid requiredTool expectedTenant now
    (e.readable_of_ok keyring activeKid requiredTool expectedTenant now vr hvr)
  by_cases hs : e.Signed keyring activeKid
  · refine ⟨hs, ?_⟩
    rw [hpos hs] at hvr
    unfold blocksVerdict at hvr
    cases hblocks : parseBlocks e.raw with
    | none =>
      rw [hblocks, Except.ok.injEq] at hvr
      exact absurd hvr.symm hne
    | some blocks => exact ⟨blocks, rfl⟩
  · rw [hneg hs, Except.ok.injEq] at hvr
    exact absurd hvr.symm hne

end Payload

end Envelope

/-! ## Two keyrings -/

/-- `keyring'` has every key of `keyring`, under the same id. -/
def Keyring.Extends (keyring' keyring : Keyring) : Prop :=
  ∀ kid key, keyring.get? kid = some key → keyring'.get? kid = some key

theorem mem_values_iff (keyring : Keyring) (key : List UInt8) :
    key ∈ keyring.values ↔ ∃ kid, keyring.get? kid = some key := by
  unfold OrderedDict.values
  simp only [List.mem_map, Prod.exists, exists_eq_right, OrderedDict.get?_eq_some_iff]

/-- Every key a `kid` allows is in the keyring. -/
theorem KeyFor.held {keyring : Keyring} {activeKid : Option String} {kid : String}
    {key : List UInt8} (hkey : KeyFor keyring activeKid kid key) :
    ∃ kid', keyring.get? kid' = some key := by
  cases hkey with
  | named hkid hget => exact ⟨kid, hget⟩
  | active active hkid hactive hget => exact ⟨active, hget⟩
  | any hkid hactive hmem => exact (mem_values_iff keyring key).mp hmem

theorem KeyFor.mono {keyring keyring' : Keyring} (hext : keyring'.Extends keyring)
    {activeKid : Option String} {kid : String} {key : List UInt8}
    (hkey : KeyFor keyring activeKid kid key) : KeyFor keyring' activeKid kid key := by
  cases hkey with
  | named hkid hget => exact .named hkid (hext kid key hget)
  | active active hkid hactive hget => exact .active active hkid hactive (hext active key hget)
  | any hkid hactive hmem =>
    obtain ⟨kid', hget⟩ := (mem_values_iff keyring key).mp hmem
    exact .any hkid hactive ((mem_values_iff keyring' key).mpr ⟨kid', hext kid' key hget⟩)

/-- A key the longer keyring allows and the shorter does not is under an id the shorter lacks. -/
theorem KeyFor.fresh {keyring keyring' : Keyring} (hext : keyring'.Extends keyring)
    {activeKid : Option String} {kid : String} {key : List UInt8}
    (hkey : KeyFor keyring' activeKid kid key) (hnot : ¬ KeyFor keyring activeKid kid key) :
    ∃ kid', keyring'.get? kid' = some key ∧ keyring.get? kid' = none := by
  have hlacks : ∀ kid', keyring'.get? kid' = some key → keyring.get? kid' ≠ some key →
      keyring.get? kid' = none := by
    intro kid' hget' hne
    cases hget : keyring.get? kid' with
    | none => rfl
    | some old =>
      have hsame := hext kid' old hget
      rw [hget', Option.some.injEq] at hsame
      rw [hsame] at hne
      exact absurd hget hne
  cases hkey with
  | named hkid hget =>
    exact ⟨kid, hget, hlacks kid hget fun h => hnot (.named hkid h)⟩
  | active active hkid hactive hget =>
    exact ⟨active, hget, hlacks active hget fun h => hnot (.active active hkid hactive h)⟩
  | any hkid hactive hmem =>
    obtain ⟨kid', hget⟩ := (mem_values_iff keyring' key).mp hmem
    refine ⟨kid', hget, hlacks kid' hget fun h => hnot (.any hkid hactive ?_)⟩
    exact (mem_values_iff keyring key).mpr ⟨kid', h⟩

/-- The signature verifies under a key that `keyring'` has, under an id `keyring` does not know. -/
def Envelope.SignedByNew {h : Host} {token : String} (e : Envelope h token)
    (keyring keyring' : Keyring) : Prop :=
  ∃ kid key, keyring'.get? kid = some key ∧ keyring.get? kid = none ∧
    h.verifyKey key e.payloadBytes e.sigBytes = true

/-- **New keys admit only what they signed.** When a keyring gains keys, `verify_local` returns or
raises the same as before for every token, except one that was `token_invalid` and whose signature
verifies under a key that is new. -/
theorem keys_admit_only_theirs (h : Host) (token : String) (keyring keyring' : Keyring)
    (hext : keyring'.Extends keyring) (activeKid requiredTool expectedTenant : Option String)
    (now : Option DateTime) (utcNow : DateTime) :
    verifyLocal h token keyring' activeKid requiredTool expectedTenant now utcNow =
        verifyLocal h token keyring activeKid requiredTool expectedTenant now utcNow ∨
      verifyLocal h token keyring activeKid requiredTool expectedTenant now utcNow =
          .ok (.denied "token_invalid") ∧
        ∃ e : Envelope h token, e.SignedByNew keyring keyring' := by
  by_cases he : Nonempty (Envelope h token)
  · obtain ⟨e⟩ := he
    rw [verifyLocal_envelope h token e, verifyLocal_envelope h token e]
    by_cases hr : e.Readable
    · obtain ⟨hpos, hneg⟩ := e.verifyPayload_readable keyring activeKid requiredTool
        expectedTenant (now.getD utcNow) hr
      obtain ⟨hpos', hneg'⟩ := e.verifyPayload_readable keyring' activeKid requiredTool
        expectedTenant (now.getD utcNow) hr
      by_cases hs : e.Signed keyring activeKid
      · left
        obtain ⟨key, ⟨k, hk, hkey⟩, hsig⟩ := hs
        rw [hpos' ⟨key, ⟨k, hk, hkey.mono hext⟩, hsig⟩, hpos ⟨key, ⟨k, hk, hkey⟩, hsig⟩]
      · by_cases hs' : e.Signed keyring' activeKid
        · right
          obtain ⟨key, ⟨k, hk, hkey⟩, hsig⟩ := hs'
          have hnot : ¬ KeyFor keyring activeKid k key :=
            fun hold => hs ⟨key, ⟨k, hk, hold⟩, hsig⟩
          obtain ⟨kid, hnew, hlacks⟩ := hkey.fresh hext hnot
          exact ⟨hneg hs, e, kid, key, hnew, hlacks, hsig⟩
        · left
          rw [hneg' hs', hneg hs]
    · left
      exact e.verifyPayload_unreadable keyring' activeKid requiredTool expectedTenant _ hr keyring
        activeKid
  · left
    have hnone := not_nonempty_iff.mp he
    rw [verifyLocal_no_envelope h token keyring' activeKid requiredTool expectedTenant now utcNow
      hnone, verifyLocal_no_envelope h token keyring activeKid requiredTool expectedTenant now
      utcNow hnone]

theorem keys_admit_only_theirs_authority :
    verifyLocal sampleHost authorityText.token sampleKeyring none none none none start2030 =
        verifyLocal sampleHost authorityText.token OrderedDict.empty none none none none start2030 ∨
      verifyLocal sampleHost authorityText.token OrderedDict.empty none none none none start2030 =
          .ok (.denied "token_invalid") ∧
        ∃ e : Envelope sampleHost authorityText.token,
          e.SignedByNew OrderedDict.empty sampleKeyring :=
  keys_admit_only_theirs sampleHost authorityText.token OrderedDict.empty sampleKeyring
    (fun kid key hget => by cases hget) none none none none start2030

end Sigil.Verify
