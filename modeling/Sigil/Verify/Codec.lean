import Sigil.Python.Base64
import Sigil.Verify.Authorisation

/-! # The wire encoding of a token

`wireToken` is how a token is written. What is written is read back (`codec_round_trips`). What is
read need not have been written so: the decoder skips characters outside the alphabet, takes the
standard alphabet as well, and drops spare bits. `wire_encoding_iff` says which of the accepted
tokens are written the one way.
-/
set_option autoImplicit false

namespace Sigil.Verify

/-- `f"{_b64url_encode(payload_bytes)}.{_b64url_encode(sig_bytes)}"` -/
def wireToken (payload sig : List UInt8) : String :=
  String.ofList (b64urlEncode payload ++ '.' :: b64urlEncode sig)

theorem isUrlsafe_dot : isUrlsafe '.' = false := by decide

theorem not_mem_of_isUrlsafe (cs : List Char) (hcs : ∀ c ∈ cs, isUrlsafe c = true) : '.' ∉ cs := by
  intro hdot
  have hurl := hcs '.' hdot
  rw [isUrlsafe_dot] at hurl
  cases hurl

theorem dot_not_mem_b64urlEncode (data : List UInt8) : '.' ∉ b64urlEncode data :=
  not_mem_of_isUrlsafe _ (isUrlsafe_of_mem_b64urlEncode data)

theorem splitToken_wireToken (p s : List UInt8) (hp : p ≠ []) (hs : s ≠ []) :
    splitToken (wireToken p s) = some (b64urlEncode p, b64urlEncode s) := by
  rw [splitToken_eq_some_iff]
  exact ⟨String.toList_ofList, dot_not_mem_b64urlEncode p, b64urlEncode_ne_nil p hp,
    b64urlEncode_ne_nil s hs⟩

/-- **The codec round-trips.** The token written for two non-empty byte strings splits into what was
written for each, the padding put back is the one that was stripped, and both decode to what they
were written for; so `verify_local` goes on with exactly these bytes. -/
theorem codec_round_trips (p s : List UInt8) (hp : p ≠ []) (hs : s ≠ []) :
    splitToken (wireToken p s) = some (b64urlEncode p, b64urlEncode s) ∧
    (padded (b64urlEncode p) = urlsafeB64encode p ∧ padded (b64urlEncode s) = urlsafeB64encode s) ∧
    (b64urlDecode (b64urlEncode p) = some p ∧ b64urlDecode (b64urlEncode s) = some s) ∧
    ∀ (h : Host) (keyring : Keyring) (activeKid requiredTool expectedTenant : Option String)
      (now : Option DateTime) (utcNow : DateTime),
      verifyLocal h (wireToken p s) keyring activeKid requiredTool expectedTenant now utcNow =
        verifyPayload h keyring activeKid requiredTool expectedTenant (now.getD utcNow) p s := by
  have hsplit := splitToken_wireToken p s hp hs
  have hpayload := b64urlDecode_b64urlEncode p
  have hsig := b64urlDecode_b64urlEncode s
  refine ⟨hsplit, ⟨padded_b64urlEncode p, padded_b64urlEncode s⟩, ⟨hpayload, hsig⟩, ?_⟩
  intro h keyring activeKid requiredTool expectedTenant now utcNow
  simp only [verifyLocal, hsplit, hpayload, hsig]

theorem codec_round_trips_short :
    splitToken (wireToken [251] [255, 62]) = some ("-w".toList, "_z4".toList) ∧
      b64urlDecode "-w".toList = some [251] ∧ b64urlDecode "_z4".toList = some [255, 62] := by
  obtain ⟨hsplit, -, ⟨hpayload, hsig⟩, -⟩ :=
    codec_round_trips [251] [255, 62] (by decide) (by decide)
  exact ⟨hsplit, hpayload, hsig⟩

/-! ## Accepted tokens -/

theorem halves_unique (cs p s p' s' : List Char) (h : cs = p ++ '.' :: s) (h' : cs = p' ++ '.' :: s')
    (hp : '.' ∉ p) (hp' : '.' ∉ p') : p = p' ∧ s = s' := by
  have hspan := (span_dot_eq_iff cs p s '.').mpr ⟨h, rfl, hp⟩
  have hspan' := (span_dot_eq_iff cs p' s' '.').mpr ⟨h', rfl, hp'⟩
  rw [hspan, Prod.mk.injEq, List.cons.injEq] at hspan'
  exact ⟨hspan'.1, hspan'.2.2⟩

section Envelope

variable {h : Host} {token : String} (e : Envelope h token)

/-- A token is the one written for its bytes exactly when both halves are raw-URL. -/
theorem Envelope.eq_wireToken_iff :
    token = wireToken e.payloadBytes e.sigBytes ↔ RawUrl e.payload ∧ RawUrl e.sig := by
  have hpayload := b64urlEncode_eq_iff e.payload e.payloadBytes e.payload_decodes
  have hsig := b64urlEncode_eq_iff e.sig e.sigBytes e.sig_decodes
  rw [← hpayload, ← hsig]
  constructor
  · intro heq
    have hlist : token.toList = b64urlEncode e.payloadBytes ++ '.' :: b64urlEncode e.sigBytes :=
      (congrArg String.toList heq).trans String.toList_ofList
    have halves := halves_unique token.toList e.payload e.sig _ _ e.split hlist e.dotFree
      (dot_not_mem_b64urlEncode e.payloadBytes)
    exact ⟨halves.1.symm, halves.2.symm⟩
  · rintro ⟨hp, hs⟩
    rw [wireToken, hp, hs, ← e.split]
    exact String.ofList_toList.symm

theorem Envelope.count_dot (hsig : RawUrl e.sig) : token.toList.count '.' = 1 := by
  have hpayload := List.count_eq_zero_of_not_mem e.dotFree
  have hrest := List.count_eq_zero_of_not_mem (not_mem_of_isUrlsafe e.sig hsig.1)
  rw [e.split, List.count_append, List.count_cons_self, hpayload, hrest]

theorem Envelope.isUrlsafe_of_mem (hpayload : RawUrl e.payload) (hsig : RawUrl e.sig) (c : Char)
    (hc : c ∈ token.toList) (hdot : c ≠ '.') : isUrlsafe c = true := by
  rw [e.split, List.mem_append, List.mem_cons] at hc
  rcases hc with hc | hc | hc
  · exact hpayload.1 c hc
  · exact absurd hc hdot
  · exact hsig.1 c hc

end Envelope

/-- **One wire encoding, if both halves are raw-URL.** An accepted token is the one written for its
payload and signature bytes exactly when both its halves are in the raw-URL variant. It then has one
separator and characters of the alphabet otherwise, and no other such token carries its bytes. -/
theorem wire_encoding_iff (h : Host) (token : String) (keyring : Keyring)
    (activeKid requiredTool expectedTenant : Option String) (now : Option DateTime)
    (utcNow : DateTime) (vr : VerifyResult)
    (hvr : verifyLocal h token keyring activeKid requiredTool expectedTenant now utcNow = .ok vr)
    (hok : vr.ok = true) :
    ∃ e : Envelope h token,
      (token = wireToken e.payloadBytes e.sigBytes ↔ RawUrl e.payload ∧ RawUrl e.sig) ∧
      (RawUrl e.payload ∧ RawUrl e.sig → token.toList.count '.' = 1 ∧
        (∀ c ∈ token.toList, c ≠ '.' → isUrlsafe c = true) ∧
        ∀ (token' : String) (e' : Envelope h token'), RawUrl e'.payload ∧ RawUrl e'.sig →
          e'.payloadBytes = e.payloadBytes → e'.sigBytes = e.sigBytes → token' = token) := by
  obtain ⟨e⟩ := envelope_of_accepted h token keyring activeKid requiredTool expectedTenant now
    utcNow vr hvr hok
  refine ⟨e, e.eq_wireToken_iff, ?_⟩
  intro hraw
  refine ⟨e.count_dot hraw.2, e.isUrlsafe_of_mem hraw.1 hraw.2, ?_⟩
  intro token' e' hraw' hpayload hsig
  have heq := e.eq_wireToken_iff.mpr hraw
  have heq' := e'.eq_wireToken_iff.mpr hraw'
  rw [hpayload, hsig] at heq'
  exact heq'.trans heq.symm

theorem authority_accepted :
    verifyLocal sampleHost authorityText.token sampleKeyring none none none none start2030 =
      .ok (acceptance sampleHost [authorityBlock]) :=
  ((verifyLocal_accepts_iff authorityReading sampleKeyring none none none none start2030 _).mpr
    ⟨authorityReading_signed, by decide +kernel, rfl⟩).1

theorem wire_encoding_iff_authority :
    ∃ e : Envelope sampleHost authorityText.token,
      authorityText.token = wireToken e.payloadBytes e.sigBytes ↔
        RawUrl e.payload ∧ RawUrl e.sig := by
  obtain ⟨e, hiff, -⟩ := wire_encoding_iff sampleHost authorityText.token sampleKeyring none none
    none none start2030 _ authority_accepted rfl
  exact ⟨e, hiff⟩

/-- The authority token, with four more characters that the decoder skips. -/
def trailingText : SignedText := { authorityText with sig := authoritySig.val ++ "....".toList }

theorem trailingText_carries : trailingText.Carries sampleHost ⟨"k", [authorityBlock]⟩ where
  dotFree := by decide +kernel
  payload_ne := by simp [trailingText, authorityText, authorityPayload]
  sig_ne := by simp [trailingText]
  payload_decodes := by decide +kernel
  sig_decodes := by decide +kernel
  parses := tableHost_parses _ _ _ _ _ 0 authorityText (by decide +kernel) rfl
  typed := by decide +kernel
  aware := by decide +kernel

def trailingReading : Reading sampleHost trailingText.token :=
  trailingText.reading ⟨"k", [authorityBlock]⟩ trailingText_carries

theorem trailing_accepted :
    verifyLocal sampleHost trailingText.token sampleKeyring none none none none start2030 =
      .ok (acceptance sampleHost [authorityBlock]) :=
  ((verifyLocal_accepts_iff trailingReading sampleKeyring none none none none start2030 _).mpr
    ⟨⟨sampleKey, .named (by decide) rfl, by decide +kernel⟩, by decide +kernel, rfl⟩).1

/-- Two tokens with the same payload and signature bytes are accepted, and one of them has five
separators. -/
theorem trailing_separators_accepted :
    (∃ vr, verifyLocal sampleHost trailingText.token sampleKeyring none none none none start2030 =
        .ok vr ∧ vr.ok = true) ∧
      (∃ vr, verifyLocal sampleHost authorityText.token sampleKeyring none none none none
        start2030 = .ok vr ∧ vr.ok = true) ∧
      trailingText.token.toList.count '.' = 5 ∧
      trailingReading.payloadBytes = authorityReading.payloadBytes ∧
      trailingReading.sigBytes = authorityReading.sigBytes ∧
      trailingText.token ≠ wireToken trailingReading.payloadBytes trailingReading.sigBytes ∧
      trailingText.token ≠ authorityText.token := by
  refine ⟨⟨_, trailing_accepted, rfl⟩, ⟨_, authority_accepted, rfl⟩, by decide +kernel,
    by decide +kernel, by decide +kernel, by decide +kernel, by decide +kernel⟩

end Sigil.Verify
