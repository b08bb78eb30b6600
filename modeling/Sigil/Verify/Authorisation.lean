import Sigil.Verify.Biscuit
import Mathlib.Data.List.TakeWhile

/-! # Authorised tokens

A `Reading` is a token string that splits, decodes and parses to a typed biscuit, with the evidence
that it does. `verifyLocal_accepts_iff` says what `verify_local` does with one: it accepts when the
signature verifies under a key the `kid` allows and the blocks pass, and then returns what the
blocks say. The two results on top are that only authorised tokens are accepted, and that adding
blocks or waiting never widens what a token allows.
-/
set_option autoImplicit false

namespace Sigil.Verify

/-! ## The envelope -/

/-- A token string whose two halves decode and whose first half parses. -/
structure Envelope (h : Host) (token : String) where
  payload : List Char
  sig : List Char
  split : token.toList = payload ++ '.' :: sig
  dotFree : '.' ∉ payload
  payload_ne : payload ≠ []
  sig_ne : sig ≠ []
  payloadBytes : List UInt8
  sigBytes : List UInt8
  payload_decodes : b64urlDecode payload = some payloadBytes
  sig_decodes : b64urlDecode sig = some sigBytes
  raw : PyVal
  parses : h.jsonLoads payloadBytes = some raw

/-- A token string that carries a typed biscuit. -/
structure Reading (h : Host) (token : String) extends Envelope h token where
  biscuit : Biscuit
  typed : Biscuit.ofPayload raw = some biscuit
  aware : Aware h biscuit.blocks

/-- If the payload parses at all, it is typed. -/
def WellTyped (h : Host) (token : String) : Prop :=
  ∀ e : Envelope h token, ∃ t, Biscuit.ofPayload e.raw = some t ∧ Aware h t.blocks

theorem notDot_of_mem_takeWhile (cs : List Char) (c : Char)
    (hc : c ∈ cs.takeWhile (· ≠ '.')) : c ≠ '.' := by
  have hkept := List.mem_takeWhile_imp hc
  simpa using hkept

theorem span_dot_eq_iff (cs p s : List Char) (c : Char) :
    cs.span (· ≠ '.') = (p, c :: s) ↔ cs = p ++ '.' :: s ∧ c = '.' ∧ '.' ∉ p := by
  rw [List.span_eq_takeWhile_dropWhile, Prod.mk.injEq]
  constructor
  · rintro ⟨rfl, hdrop⟩
    have hc : c = '.' := by
      have hhead := List.head?_dropWhile_not (fun c => decide (c ≠ '.')) cs
      rw [hdrop] at hhead
      simpa using hhead
    have hcat := List.takeWhile_append_dropWhile (p := fun c => decide (c ≠ '.')) (l := cs)
    rw [hdrop, hc] at hcat
    exact ⟨hcat.symm, hc, fun hmem => notDot_of_mem_takeWhile cs '.' hmem rfl⟩
  · rintro ⟨rfl, rfl, hp⟩
    have hpos : ∀ a ∈ p, decide (a ≠ '.') = true := by
      intro a ha
      exact decide_eq_true (ne_of_mem_of_not_mem ha hp)
    rw [List.takeWhile_append_of_pos hpos, List.dropWhile_append_of_pos hpos]
    simp

theorem splitToken_eq_some_iff (token : String) (p s : List Char) :
    splitToken token = some (p, s) ↔
      token.toList = p ++ '.' :: s ∧ '.' ∉ p ∧ p ≠ [] ∧ s ≠ [] := by
  unfold splitToken
  rcases hspan : token.toList.span (· ≠ '.') with ⟨q, _ | ⟨c, r⟩⟩
  · simp only [reduceCtorEq, false_iff, not_and]
    intro hsplit hdot
    rw [(span_dot_eq_iff token.toList p s '.').mpr ⟨hsplit, rfl, hdot⟩] at hspan
    simp at hspan
  · obtain ⟨hsplit, -, hdot⟩ := (span_dot_eq_iff token.toList q r c).mp hspan
    constructor
    · intro h
      dsimp only at h
      split_ifs at h with hempty
      cases h
      rw [not_or] at hempty
      exact ⟨hsplit, hdot, hempty⟩
    · rintro ⟨hsplit', hdot', hp, hs⟩
      have hspan' := (span_dot_eq_iff token.toList p s '.').mpr ⟨hsplit', rfl, hdot'⟩
      rw [hspan'] at hspan
      cases hspan
      simp [hp, hs]

theorem Envelope.raw_eq {h : Host} {token : String} (e e' : Envelope h token) : e.raw = e'.raw := by
  have hsplit := (splitToken_eq_some_iff token e.payload e.sig).mpr
    ⟨e.split, e.dotFree, e.payload_ne, e.sig_ne⟩
  have hsplit' := (splitToken_eq_some_iff token e'.payload e'.sig).mpr
    ⟨e'.split, e'.dotFree, e'.payload_ne, e'.sig_ne⟩
  rw [hsplit, Option.some.injEq, Prod.mk.injEq] at hsplit'
  have hbytes := e.payload_decodes
  rw [hsplit'.1, e'.payload_decodes, Option.some.injEq] at hbytes
  have hparse := e.parses
  rw [← hbytes, e'.parses, Option.some.injEq] at hparse
  exact hparse.symm

theorem Reading.wellTyped {h : Host} {token : String} (r : Reading h token) :
    WellTyped h token := by
  intro e
  refine ⟨r.biscuit, ?_, r.aware⟩
  rw [e.raw_eq r.toEnvelope]
  exact r.typed

theorem verifyLocal_envelope (h : Host) (token : String) (e : Envelope h token)
    (keyring : Keyring) (activeKid requiredTool expectedTenant : Option String)
    (now : Option DateTime) (utcNow : DateTime) :
    verifyLocal h token keyring activeKid requiredTool expectedTenant now utcNow =
      verifyPayload h keyring activeKid requiredTool expectedTenant (now.getD utcNow)
        e.payloadBytes e.sigBytes := by
  have hsplit := (splitToken_eq_some_iff token e.payload e.sig).mpr
    ⟨e.split, e.dotFree, e.payload_ne, e.sig_ne⟩
  simp only [verifyLocal, hsplit, e.payload_decodes, e.sig_decodes]

theorem envelope_of_accepted (h : Host) (token : String) (keyring : Keyring)
    (activeKid requiredTool expectedTenant : Option String) (now : Option DateTime)
    (utcNow : DateTime) (vr : VerifyResult)
    (hvr : verifyLocal h token keyring activeKid requiredTool expectedTenant now utcNow = .ok vr)
    (hok : vr.ok = true) : Nonempty (Envelope h token) := by
  unfold verifyLocal at hvr
  split at hvr
  · cases hvr
    exact absurd hok (by simp [VerifyResult.denied])
  · next p s hsplit =>
    obtain ⟨hcat, hdot, hp, hs⟩ := (splitToken_eq_some_iff token p s).mp hsplit
    split at hvr
    · next payloadBytes sigBytes hpayload hsig =>
      unfold verifyPayload at hvr
      split at hvr
      · cases hvr
        exact absurd hok (by simp [VerifyResult.denied])
      · next raw hraw =>
        exact ⟨⟨p, s, hcat, hdot, hp, hs, payloadBytes, sigBytes, hpayload, hsig, raw, hraw⟩⟩
    · cases hvr
      exact absurd hok (by simp [VerifyResult.denied])

/-! ## Keys and signatures -/

/-- The keys a `kid` allows: the one it names, else the active one, else, when no key is active,
any. -/
inductive KeyFor (keyring : Keyring) (activeKid : Option String) (kid : String)
    (key : List UInt8) : Prop where
  | named (hkid : kid ≠ "") (hkey : keyring.get? kid = some key)
  | active (active : String) (hkid : kid = "") (hactive : activeKid = some active)
      (hkey : keyring.get? active = some key)
  | any (hkid : kid = "") (hactive : activeKid = none) (hkey : key ∈ keyring.values)

/-- The signature verifies over the payload bytes under a key the `kid` allows. -/
def Reading.Signed {h : Host} {token : String} (r : Reading h token) (keyring : Keyring)
    (activeKid : Option String) : Prop :=
  ∃ key, KeyFor keyring activeKid r.biscuit.kid key ∧
    h.verifyKey key r.payloadBytes r.sigBytes = true

theorem verifyKeys_str (keyring : Keyring) (activeKid : Option String) (kid : String) :
    ∃ keys, verifyKeys keyring activeKid (.str kid) = .ok keys ∧
      ∀ key, (∃ ks, keys = some ks ∧ key ∈ ks) ↔ KeyFor keyring activeKid kid key := by
  by_cases hkid : kid = ""
  · cases activeKid with
    | none =>
      refine ⟨if keyring.values = [] then none else some keyring.values, ?_, ?_⟩
      · simp [verifyKeys, hkid]
      · intro key
        constructor
        · rintro ⟨ks, hks, hmem⟩
          split_ifs at hks with hnil
          cases hks
          exact .any hkid rfl hmem
        · rintro (⟨h1, -⟩ | ⟨_, -, h2, -⟩ | ⟨-, -, h3⟩)
          · exact absurd hkid h1
          · cases h2
          · exact ⟨keyring.values, if_neg (List.ne_nil_of_mem h3), h3⟩
    | some active =>
      refine ⟨(keyring.get? active).map ([·]), by simp [verifyKeys, hkid], ?_⟩
      intro key
      constructor
      · rintro ⟨ks, hks, hmem⟩
        obtain ⟨k, hk, rfl⟩ := Option.map_eq_some_iff.mp hks
        exact .active active hkid rfl (by rw [hk, List.mem_singleton.mp hmem])
      · rintro (⟨h1, -⟩ | ⟨a, -, h2, h3⟩ | ⟨-, h2, -⟩)
        · exact absurd hkid h1
        · cases h2
          exact ⟨[key], by rw [h3]; rfl, List.mem_singleton_self key⟩
        · cases h2
  · refine ⟨(keyring.get? kid).map ([·]), by simp [verifyKeys, hkid], ?_⟩
    intro key
    constructor
    · rintro ⟨ks, hks, hmem⟩
      obtain ⟨k, hk, rfl⟩ := Option.map_eq_some_iff.mp hks
      exact .named hkid (by rw [hk, List.mem_singleton.mp hmem])
    · rintro (⟨-, h1⟩ | ⟨_, h2, -⟩ | ⟨h2, -⟩)
      · exact ⟨[key], by rw [h1]; rfl, List.mem_singleton_self key⟩
      · exact absurd h2 hkid
      · exact absurd h2 hkid

theorem signed_iff {h : Host} {token : String} (r : Reading h token) (keyring : Keyring)
    (activeKid : Option String) (keys : Option (List (List UInt8)))
    (hkeys : ∀ key, (∃ ks, keys = some ks ∧ key ∈ ks) ↔
      KeyFor keyring activeKid r.biscuit.kid key) :
    r.Signed keyring activeKid ↔
      ∃ ks, keys = some ks ∧ (ks.any fun key => h.verifyKey key r.payloadBytes r.sigBytes) := by
  constructor
  · rintro ⟨key, hkey, hsig⟩
    obtain ⟨ks, hks, hmem⟩ := (hkeys key).mpr hkey
    exact ⟨ks, hks, List.any_eq_true.mpr ⟨key, hmem, hsig⟩⟩
  · rintro ⟨ks, hks, hany⟩
    obtain ⟨key, hmem, hsig⟩ := List.any_eq_true.mp hany
    exact ⟨key, (hkeys key).mp ⟨ks, hks, hmem⟩, hsig⟩

/-! ## Acceptance -/

theorem verifyLocal_accepts_iff {h : Host} {token : String} (r : Reading h token)
    (keyring : Keyring) (activeKid requiredTool expectedTenant : Option String)
    (now : Option DateTime) (utcNow : DateTime) (vr : VerifyResult) :
    verifyLocal h token keyring activeKid requiredTool expectedTenant now utcNow = .ok vr ∧
        vr.ok = true ↔
      r.Signed keyring activeKid ∧
        Admits h requiredTool expectedTenant (now.getD utcNow) r.biscuit.blocks ∧
        vr = acceptance h r.biscuit.blocks := by
  have hrefused : ∀ vr' : VerifyResult, vr' = .denied "token_invalid" → vr'.ok ≠ true := by
    rintro vr' rfl
    simp [VerifyResult.denied]
  obtain ⟨keys, hverify, hkeys⟩ := verifyKeys_str keyring activeKid r.biscuit.kid
  rw [signed_iff r keyring activeKid keys hkeys, verifyLocal_envelope h token r.toEnvelope]
  simp only [verifyPayload, r.parses, kid_ofPayload r.raw r.biscuit r.typed, hverify, bind,
    Except.bind]
  cases keys with
  | none =>
    simp only [reduceCtorEq, false_and, exists_const]
    constructor
    · rintro ⟨hres, hok⟩
      cases hres
      exact hrefused _ rfl hok
    · exact False.elim
  | some ks =>
    simp only [Option.some.injEq, exists_eq_left']
    by_cases hsig : (ks.any fun key => h.verifyKey key r.payloadBytes r.sigBytes) = true
    · rw [if_pos hsig, parseBlocks_ofPayload r.raw r.biscuit r.typed]
      by_cases hne : r.biscuit.blocks = []
      · rw [if_pos hne]
        constructor
        · rintro ⟨hres, hok⟩
          cases hres
          exact absurd hok (hrefused _ rfl)
        · exact fun hadm => absurd hne hadm.2.1.nonempty
      · rw [if_neg hne]
        have hblocks := checkBlocks_accepts_iff h requiredTool expectedTenant (now.getD utcNow)
          r.biscuit.blocks r.aware hne vr
        exact hblocks.trans (by simp [hsig])
    · rw [if_neg hsig]
      constructor
      · rintro ⟨hres, hok⟩
        cases hres
        exact absurd hok (hrefused _ rfl)
      · exact fun hadm => absurd hadm.1 hsig

/-! ## A host for concrete tokens

Concrete tokens are evaluated on a host that knows one signing key and a table of the texts signed
with it, each with the value it parses to.
-/

structure SignedText where
  payload : List Char
  sig : List Char
  raw : PyVal

def SignedText.token (t : SignedText) : String := String.ofList (t.payload ++ '.' :: t.sig)

def tableHost (key : List UInt8) (texts : List SignedText) (times : List (String × DateTime))
    (digest : List UInt8 → String) : Host where
  reprFloat := fun _ => "0.0"
  isPrintable := fun c => decide (0x20 ≤ c.toNat ∧ c.toNat < 0x7f)
  parseFloat := fun _ => none
  entropyOf := fun _ _ => 0
  sha256Hex := digest
  jsonLoads := fun bytes =>
    (texts.findIdx? fun t => b64urlDecode t.payload = some bytes).bind fun i => texts[i]?.map (·.raw)
  verifyKey := fun key' payload sig => decide (key' = key) && texts.any fun t =>
    decide (b64urlDecode t.payload = some payload ∧ b64urlDecode t.sig = some sig)
  fromIsoFormat := fun text => times.lookup text

theorem tableHost_parses (key : List UInt8) (texts : List SignedText)
    (times : List (String × DateTime)) (digest : List UInt8 → String) (bytes : List UInt8) (i : ℕ)
    (t : SignedText) (hi : (texts.findIdx? fun t => b64urlDecode t.payload = some bytes) = some i)
    (ht : texts[i]? = some t) : (tableHost key texts times digest).jsonLoads bytes = some t.raw := by
  simp only [tableHost, hi, Option.bind_some, ht, Option.map_some]

/-- The text decodes, parses and carries the biscuit `b`. -/
structure SignedText.Carries (h : Host) (t : SignedText) (b : Biscuit) : Prop where
  dotFree : '.' ∉ t.payload
  payload_ne : t.payload ≠ []
  sig_ne : t.sig ≠ []
  payload_decodes : (b64urlDecode t.payload).isSome
  sig_decodes : (b64urlDecode t.sig).isSome
  parses : h.jsonLoads ((b64urlDecode t.payload).get payload_decodes) = some t.raw
  typed : Biscuit.ofPayload t.raw = some b
  aware : ∀ c ∈ b.blocks, ∀ e ∈ c.expiries h, e.aware = true

def SignedText.reading {h : Host} (t : SignedText) (b : Biscuit) (ht : t.Carries h b) :
    Reading h t.token where
  payload := t.payload
  sig := t.sig
  split := String.toList_ofList
  dotFree := ht.dotFree
  payload_ne := ht.payload_ne
  sig_ne := ht.sig_ne
  payloadBytes := (b64urlDecode t.payload).get ht.payload_decodes
  sigBytes := (b64urlDecode t.sig).get ht.sig_decodes
  payload_decodes := (Option.some_get ht.payload_decodes).symm
  sig_decodes := (Option.some_get ht.sig_decodes).symm
  raw := t.raw
  parses := ht.parses
  biscuit := b
  typed := ht.typed
  aware := ht.aware

def sampleKey : List UInt8 :=
  [4, 210, 95, 129, 37, 166, 219, 175, 86, 63, 36, 252, 36, 113, 231, 106, 116, 61, 113, 139, 178,
    166, 251, 187, 182, 183, 130, 215, 220, 168, 86, 105]

def sampleKeyring : Keyring := ⟨[("k", sampleKey)], List.nodup_singleton _⟩

def authorityPayload : { cs : List Char // String.ofList cs =
    "eyJraWQiOiJrIiwiYmxvY2tzIjpbeyJmYWN0cyI6WyJ0ZW5hbnQodCkiLCJ0b29sKGEuYikiXSwiY2hlY2tzIjpbXX1dfQ" } :=
  ⟨_, rfl⟩

def authoritySig : { cs : List Char // String.ofList cs =
    "DxhI3Q40_DV22b9GAg-JdrJ_8r7MG2fUTxyggDN9pn_DZSl2zHouL4pJHsQ5lhKwXF8aTj9nyVCDcCoBD6eYCw" } :=
  ⟨_, rfl⟩

def authorityBlock : Block := ⟨["tenant(t)", "tool(a.b)"], []⟩

def authorityVal : PyVal :=
  .dict [(.str "facts", .list [.str "tenant(t)", .str "tool(a.b)"]), (.str "checks", .list [])]

/-- One block, with a tenant and a tool and no expiry. -/
def authorityText : SignedText where
  payload := authorityPayload.val
  sig := authoritySig.val
  raw := .dict [(.str "kid", .str "k"), (.str "blocks", .list [authorityVal])]

set_option maxRecDepth 2000 in
def attenuatedPayload : { cs : List Char // String.ofList cs =
    "eyJraWQiOiJrIiwiYmxvY2tzIjpbeyJmYWN0cyI6WyJ0ZW5hbnQodCkiLCJ0b29sKGEuYikiXSwiY2hlY2tzIjpbXX0seyJmYWN0cyI6WyJ0b29sKGEuYikiXSwiY2hlY2tzIjpbImNoZWNrIGlmIHRpbWUoJHQpLCAkdCA8IDIwMzAtMDEtMDFUMDA6MDA6MDBaIl19XX0" } :=
  ⟨_, rfl⟩

def attenuatedSig : { cs : List Char // String.ofList cs =
    "nXUzg8bTsvPeIxjV9xEfszhuqUZhFAvcrtaqZ1NFK06SrVzta9pzmpoAqHec-4yJTyvrYDewrb_xtfFxyy1DDw" } :=
  ⟨_, rfl⟩

def attenuation : Block := ⟨["tool(a.b)"], ["check if time($t), $t < 2030-01-01T00:00:00Z"]⟩

def attenuationVal : PyVal :=
  .dict [(.str "facts", .list [.str "tool(a.b)"]),
    (.str "checks", .list [.str "check if time($t), $t < 2030-01-01T00:00:00Z"])]

/-- The same block, followed by one with an expiry. -/
def attenuatedText : SignedText where
  payload := attenuatedPayload.val
  sig := attenuatedSig.val
  raw := .dict [(.str "kid", .str "k"), (.str "blocks", .list [authorityVal, attenuationVal])]

def start2030 : DateTime := ⟨true, 1893456000000000⟩

/-- Its digest is that of the arguments of a call without any. -/
def sampleHost : Host :=
  tableHost sampleKey [authorityText, attenuatedText] [("2030-01-01T00:00:00+00:00", start2030)]
    fun _ => "97fcdad9fe31227a9ec60e519ff7635ac71941c55b77e585c908db1fa6406030"

theorem authorityText_carries : authorityText.Carries sampleHost ⟨"k", [authorityBlock]⟩ where
  dotFree := by decide +kernel
  payload_ne := by simp [authorityText, authorityPayload]
  sig_ne := by decide
  payload_decodes := by decide +kernel
  sig_decodes := by decide +kernel
  parses := tableHost_parses _ _ _ _ _ 0 _ (by decide +kernel) rfl
  typed := by decide +kernel
  aware := by decide +kernel

theorem attenuatedText_carries :
    attenuatedText.Carries sampleHost ⟨"k", [authorityBlock, attenuation]⟩ where
  dotFree := by decide +kernel
  payload_ne := by decide
  sig_ne := by decide
  payload_decodes := by decide +kernel
  sig_decodes := by decide +kernel
  parses := tableHost_parses _ _ _ _ _ 1 _ (by decide +kernel) rfl
  typed := by decide +kernel
  aware := by decide +kernel

/-- What makes a token authorised. -/
def Authorised (h : Host) (token : String) (keyring : Keyring)
    (activeKid requiredTool expectedTenant : Option String) (now : DateTime) : Prop :=
  ∃ r : Reading h token, r.Signed keyring activeKid ∧
    Admits h requiredTool expectedTenant now r.biscuit.blocks

/-- **Exactly the authorised tokens.** `verify_local` accepts a well-typed token if and only if it
splits, decodes and parses, is signed under a key its `kid` allows, and its blocks are there,
unexpired, of the expected tenant, and all grant the required tool. -/
theorem accepts_iff_authorised (h : Host) (token : String) (keyring : Keyring)
    (activeKid requiredTool expectedTenant : Option String) (now : Option DateTime)
    (utcNow : DateTime) (ht : WellTyped h token) :
    (∃ vr, verifyLocal h token keyring activeKid requiredTool expectedTenant now utcNow = .ok vr ∧
        vr.ok = true) ↔
      Authorised h token keyring activeKid requiredTool expectedTenant (now.getD utcNow) := by
  constructor
  · rintro ⟨vr, hvr, hok⟩
    obtain ⟨e⟩ := envelope_of_accepted h token keyring activeKid requiredTool expectedTenant now
      utcNow vr hvr hok
    obtain ⟨t, htyped, haware⟩ := ht e
    let r : Reading h token := ⟨e, t, htyped, haware⟩
    obtain ⟨hsigned, hadmits, -⟩ := (verifyLocal_accepts_iff r keyring activeKid requiredTool
      expectedTenant now utcNow vr).mp ⟨hvr, hok⟩
    exact ⟨r, hsigned, hadmits⟩
  · rintro ⟨r, hsigned, hadmits⟩
    exact ⟨acceptance h r.biscuit.blocks, (verifyLocal_accepts_iff r keyring activeKid requiredTool
      expectedTenant now utcNow _).mpr ⟨hsigned, hadmits, rfl⟩⟩

def authorityReading : Reading sampleHost authorityText.token :=
  authorityText.reading ⟨"k", [authorityBlock]⟩ authorityText_carries

theorem authorityReading_signed : authorityReading.Signed sampleKeyring none :=
  ⟨sampleKey, .named (by decide) rfl, by decide +kernel⟩

theorem accepts_iff_authorised_authority :
    ∃ vr, verifyLocal sampleHost authorityText.token sampleKeyring none (some "a.b") (some "t")
      none start2030 = .ok vr ∧ vr.ok = true :=
  (accepts_iff_authorised sampleHost authorityText.token sampleKeyring none (some "a.b") (some "t")
    none start2030 authorityReading.wellTyped).mpr
    ⟨authorityReading, authorityReading_signed, by decide +kernel⟩

/-! ## Attenuation -/

theorem head_append (blocks more : List Block) (hne : blocks ≠ []) :
    (blocks ++ more).head? = blocks.head? := by
  obtain ⟨b, bs, rfl⟩ := List.exists_cons_of_ne_nil hne
  rfl

/-- A block list passes whenever a longer one passes later. -/
theorem Admits.of_append {h : Host} {requiredTool expectedTenant : Option String}
    {now now' : DateTime} {blocks more : List Block} (hne : blocks ≠ []) (hnow : now.Le now')
    (hadm : Admits h requiredTool expectedTenant now' (blocks ++ more)) :
    Admits h requiredTool expectedTenant now blocks where
  nonempty := hne
  unexpired := by
    intro b hb e he
    obtain ⟨haware, hlt⟩ := hadm.unexpired b (List.mem_append_left more hb) e he
    exact ⟨hnow.1.trans haware, lt_of_le_of_lt hnow.2 hlt⟩
  tenant := by
    intro t ht
    have htenant := hadm.tenant t ht
    rwa [head_append blocks more hne] at htenant
  scope := fun tool htool b hb => hadm.scope tool htool b (List.mem_append_left more hb)

theorem identity_append (blocks more : List Block) (hne : blocks ≠ []) :
    identity (blocks ++ more) = identity blocks := by
  rw [identity, identity, head_append blocks more hne]

theorem effectiveTools_append (blocks more : List Block) (hne : blocks ≠ []) (tool : String)
    (ht : tool ∈ effectiveTools (blocks ++ more)) : tool ∈ effectiveTools blocks := by
  rw [mem_effectiveTools] at ht ⊢
  exact ⟨hne, fun b hb => ht.2 b (List.mem_append_left more hb)⟩

theorem expiresAt_append (h : Host) (blocks more : List Block) (e : DateTime)
    (he : expiresAt h blocks = some e) :
    ∃ e', expiresAt h (blocks ++ more) = some e' ∧ e'.instant ≤ e.instant := by
  obtain ⟨⟨b, hb, hbe⟩, -⟩ := expiresAt_some h blocks e he
  have hb' : b ∈ blocks ++ more := List.mem_append_left more hb
  cases he' : expiresAt h (blocks ++ more) with
  | none =>
    have hnone := (expiresAt_eq_none_iff h (blocks ++ more)).mp he' b hb'
    rw [hbe] at hnone
    cases hnone
  | some e' => exact ⟨e', rfl, (expiresAt_some h _ e' he').2 b hb' e hbe⟩

/-- **Attenuation and time only restrict.** When a token that extends the blocks of `token` is
accepted at a later time, `token` itself is accepted now, for the same tenant, agent and task, with
at least the same tools and no earlier expiry. -/
theorem attenuation_restricts {h : Host} {token token' : String} (r : Reading h token)
    (r' : Reading h token') (keyring : Keyring) (activeKid requiredTool expectedTenant : Option String)
    (hsigned : r.Signed keyring activeKid) (hne : r.biscuit.blocks ≠ []) (more : List Block)
    (hblocks : r'.biscuit.blocks = r.biscuit.blocks ++ more) (now now' utcNow : DateTime)
    (hnow : now.Le now') (vr' : VerifyResult)
    (hvr' : verifyLocal h token' keyring activeKid requiredTool expectedTenant (some now') utcNow =
      .ok vr') (hok' : vr'.ok = true) :
    ∃ vr, verifyLocal h token keyring activeKid requiredTool expectedTenant (some now) utcNow =
        .ok vr ∧ vr.ok = true ∧
      vr.tenantId = vr'.tenantId ∧ vr.agentId = vr'.agentId ∧ vr.taskId = vr'.taskId ∧
      (∀ tool ∈ vr'.effectiveTools, tool ∈ vr.effectiveTools) ∧
      ∀ e, vr.expiresAt = some e → ∃ e', vr'.expiresAt = some e' ∧ e'.instant ≤ e.instant := by
  obtain ⟨-, hadm', rfl⟩ := (verifyLocal_accepts_iff r' keyring activeKid requiredTool
    expectedTenant (some now') utcNow vr').mp ⟨hvr', hok'⟩
  rw [hblocks] at hadm' ⊢
  have hadm := hadm'.of_append hne hnow
  obtain ⟨hvr, hok⟩ := (verifyLocal_accepts_iff r keyring activeKid requiredTool expectedTenant
    (some now) utcNow (acceptance h r.biscuit.blocks)).mpr ⟨hsigned, hadm, rfl⟩
  have hid := identity_append r.biscuit.blocks more hne
  refine ⟨acceptance h r.biscuit.blocks, hvr, hok, ?_, ?_, ?_, ?_, ?_⟩
  · exact congrArg Identity.tenantId hid.symm
  · exact congrArg Identity.agentId hid.symm
  · exact congrArg Identity.taskId hid.symm
  · exact fun tool ht => effectiveTools_append r.biscuit.blocks more hne tool ht
  · exact fun e he => expiresAt_append h r.biscuit.blocks more e he

def attenuatedReading : Reading sampleHost attenuatedText.token :=
  attenuatedText.reading ⟨"k", [authorityBlock, attenuation]⟩ attenuatedText_carries

theorem attenuatedReading_accepted :
    verifyLocal sampleHost attenuatedText.token sampleKeyring none (some "a.b") (some "t")
      (some ⟨true, 1⟩) start2030 = .ok (acceptance sampleHost [authorityBlock, attenuation]) :=
  ((verifyLocal_accepts_iff attenuatedReading sampleKeyring none (some "a.b") (some "t")
    (some ⟨true, 1⟩) start2030 _).mpr
    ⟨⟨sampleKey, .named (by decide) rfl, by decide +kernel⟩, by decide +kernel, rfl⟩).1

theorem attenuation_restricts_attenuated :
    ∃ vr, verifyLocal sampleHost authorityText.token sampleKeyring none (some "a.b") (some "t")
        (some ⟨true, 0⟩) start2030 = .ok vr ∧ vr.ok = true ∧
      vr.tenantId = some "t" ∧ vr.agentId = none ∧ vr.taskId = none ∧
      (∀ tool ∈ ["a.b"], tool ∈ vr.effectiveTools) ∧
      ∀ e, vr.expiresAt = some e → ∃ e', some start2030 = some e' ∧ e'.instant ≤ e.instant :=
  attenuation_restricts authorityReading attenuatedReading sampleKeyring none (some "a.b")
    (some "t") authorityReading_signed (by decide) [attenuation] rfl ⟨true, 0⟩ ⟨true, 1⟩ start2030
    ⟨rfl, by decide⟩
    { ok := true, effectiveTools := ["a.b"], tenantId := some "t", expiresAt := some start2030 }
    (attenuatedReading_accepted.trans (by decide +kernel)) rfl

end Sigil.Verify
