import Sigil.Verify.Authorisation

/-! # Which expiry checks are enforced

`verify_local` promises that the earliest expiry across all blocks wins. It reads one expiry of each
block, the first that parses, so a block can state an earlier expiry after a later one and be
accepted in between. `EarliestIsFirst` is exactly the condition under which that makes no
difference.
-/
set_option autoImplicit false

namespace Sigil.Verify

def expiries (h : Host) (blocks : List Block) : List DateTime := blocks.flatMap (Block.expiries h)

/-- Every expiry is enforced: an accepted token is before all of them, and reports their minimum. -/
def MostRestrictiveWins (h : Host) (blocks : List Block) (now : DateTime) (vr : VerifyResult) :
    Prop :=
  (∀ e ∈ expiries h blocks, now.Before e) ∧
    (vr.expiresAt = none → expiries h blocks = []) ∧
    ∀ e, vr.expiresAt = some e → e ∈ expiries h blocks ∧
      ∀ f ∈ expiries h blocks, e.instant ≤ f.instant

/-- No expiry is earlier than all the first ones of the blocks. -/
def EarliestIsFirst (h : Host) (blocks : List Block) : Prop :=
  ∀ e ∈ expiries h blocks, ∃ b ∈ blocks, ∃ f, b.firstExpiry h = some f ∧ f.instant ≤ e.instant

theorem mem_expiries_of_firstExpiry (h : Host) (blocks : List Block) (b : Block) (hb : b ∈ blocks)
    (e : DateTime) (he : b.firstExpiry h = some e) : e ∈ expiries h blocks :=
  List.mem_flatMap.mpr ⟨b, hb, List.mem_of_mem_head? he⟩

theorem firstExpiry_of_mem_expiries (h : Host) (blocks : List Block) (e : DateTime)
    (he : e ∈ expiries h blocks) : ∃ b ∈ blocks, ∃ f, b.firstExpiry h = some f := by
  obtain ⟨b, hb, hbe⟩ := List.mem_flatMap.mp he
  refine ⟨b, hb, (b.expiries h).head (List.ne_nil_of_mem hbe), ?_⟩
  exact List.head?_eq_some_head _

theorem aware_expiries (h : Host) (blocks : List Block) (ha : Aware h blocks) (e : DateTime)
    (he : e ∈ expiries h blocks) : e.aware = true := by
  obtain ⟨b, hb, hbe⟩ := List.mem_flatMap.mp he
  exact ha b hb e hbe

theorem expiresAt_le (h : Host) (blocks : List Block) (hfirst : EarliestIsFirst h blocks)
    (e f : DateTime) (he : expiresAt h blocks = some e) (hf : f ∈ expiries h blocks) :
    e.instant ≤ f.instant := by
  obtain ⟨b, hb, g, hg, hle⟩ := hfirst f hf
  exact le_trans ((expiresAt_some h blocks e he).2 b hb g hg) hle

theorem acceptance_most_restrictive_iff (h : Host) (requiredTool expectedTenant : Option String)
    (now : DateTime) (blocks : List Block) (ha : Aware h blocks)
    (hadm : Admits h requiredTool expectedTenant now blocks) :
    MostRestrictiveWins h blocks now (acceptance h blocks) ↔ EarliestIsFirst h blocks := by
  constructor
  · rintro ⟨-, -, hmin⟩ f hf
    obtain ⟨b, hb, g, hg⟩ := firstExpiry_of_mem_expiries h blocks f hf
    cases he : expiresAt h blocks with
    | none =>
      rw [(expiresAt_eq_none_iff h blocks).mp he b hb] at hg
      cases hg
    | some e =>
      obtain ⟨c, hc, hce⟩ := (expiresAt_some h blocks e he).1
      exact ⟨c, hc, e, hce, (hmin e he).2 f hf⟩
  · intro hfirst
    refine ⟨?_, ?_, ?_⟩
    · intro f hf
      obtain ⟨b, hb, g, hg, hle⟩ := hfirst f hf
      obtain ⟨haware, hlt⟩ := hadm.unexpired b hb g hg
      have hga := ha b hb g (List.mem_of_mem_head? hg)
      exact ⟨haware.trans (hga.trans (aware_expiries h blocks ha f hf).symm), by omega⟩
    · intro hnone
      rw [List.eq_nil_iff_forall_not_mem]
      intro f hf
      obtain ⟨b, hb, g, hg⟩ := firstExpiry_of_mem_expiries h blocks f hf
      rw [(expiresAt_eq_none_iff h blocks).mp hnone b hb] at hg
      cases hg
    · intro e he
      obtain ⟨c, hc, hce⟩ := (expiresAt_some h blocks e he).1
      exact ⟨mem_expiries_of_firstExpiry h blocks c hc e hce,
        fun f hf => expiresAt_le h blocks hfirst e f he hf⟩

/-- **When the most restrictive expiry wins.** For a signed token the promise holds exactly when
the token is refused anyway or its earliest expiry is the first one of a block. -/
theorem most_restrictive_wins_iff {h : Host} {token : String} (r : Reading h token)
    (keyring : Keyring) (activeKid requiredTool expectedTenant : Option String)
    (hsigned : r.Signed keyring activeKid) (now utcNow : DateTime) :
    (∀ vr, verifyLocal h token keyring activeKid requiredTool expectedTenant (some now) utcNow =
        .ok vr → vr.ok = true → MostRestrictiveWins h r.biscuit.blocks now vr) ↔
      (Admits h requiredTool expectedTenant now r.biscuit.blocks →
        EarliestIsFirst h r.biscuit.blocks) := by
  have haccepts := verifyLocal_accepts_iff r keyring activeKid requiredTool expectedTenant
    (some now) utcNow
  constructor
  · intro hwins hadm
    obtain ⟨hvr, hok⟩ := (haccepts _).mpr ⟨hsigned, hadm, rfl⟩
    exact (acceptance_most_restrictive_iff h requiredTool expectedTenant now r.biscuit.blocks
      r.aware hadm).mp (hwins _ hvr hok)
  · intro hfirst vr hvr hok
    obtain ⟨-, hadm, rfl⟩ := (haccepts vr).mp ⟨hvr, hok⟩
    exact (acceptance_most_restrictive_iff h requiredTool expectedTenant now r.biscuit.blocks
      r.aware hadm).mpr (hfirst hadm)

/-! ## A block that states two expiries -/

set_option maxRecDepth 2000 in
def twoExpiriesPayload : { cs : List Char // String.ofList cs =
    "eyJraWQiOiJrIiwiYmxvY2tzIjpbeyJmYWN0cyI6WyJ0b29sKGEuYikiXSwiY2hlY2tzIjpbImNoZWNrIGlmIHRpbWUoJHQpLCAkdCA8IDIwMzEtMDEtMDFUMDA6MDA6MDBaIiwiY2hlY2sgaWYgdGltZSgkdCksICR0IDwgMjAzMC0wMS0wMVQwMDowMDowMFoiXX1dfQ" } :=
  ⟨_, rfl⟩

def twoExpiriesSig : { cs : List Char // String.ofList cs =
    "TthSRtQjKpNQsNvsqFxUia3i8mFPj722N2l0b5aQDkxRtuIuxUPmGdsg1PxHbMHgU49n-_tos5AylTLMq7NGDw" } :=
  ⟨_, rfl⟩

/-- Valid until 2031, then until 2030. -/
def twoExpiriesBlock : Block :=
  ⟨["tool(a.b)"], ["check if time($t), $t < 2031-01-01T00:00:00Z",
    "check if time($t), $t < 2030-01-01T00:00:00Z"]⟩

def twoExpiriesText : SignedText where
  payload := twoExpiriesPayload.val
  sig := twoExpiriesSig.val
  raw := .dict [(.str "kid", .str "k"), (.str "blocks", .list [
    .dict [(.str "facts", .list [.str "tool(a.b)"]),
      (.str "checks", .list [.str "check if time($t), $t < 2031-01-01T00:00:00Z",
        .str "check if time($t), $t < 2030-01-01T00:00:00Z"])]])]

def start2031 : DateTime := ⟨true, 1924992000000000⟩

def june2030 : DateTime := ⟨true, 1906502400000000⟩

def twoExpiriesHost : Host :=
  tableHost sampleKey [twoExpiriesText]
    [("2030-01-01T00:00:00+00:00", start2030), ("2031-01-01T00:00:00+00:00", start2031)]
    fun _ => ""

theorem twoExpiriesText_carries : twoExpiriesText.Carries twoExpiriesHost ⟨"k", [twoExpiriesBlock]⟩ where
  dotFree := by decide +kernel
  payload_ne := by simp [twoExpiriesText, twoExpiriesPayload]
  sig_ne := by decide
  payload_decodes := by decide +kernel
  sig_decodes := by decide +kernel
  parses := tableHost_parses _ _ _ _ _ 0 _ (by decide +kernel) rfl
  typed := by decide +kernel
  aware := by decide +kernel

def twoExpiriesReading : Reading twoExpiriesHost twoExpiriesText.token :=
  twoExpiriesText.reading ⟨"k", [twoExpiriesBlock]⟩ twoExpiriesText_carries

theorem twoExpiriesReading_signed : twoExpiriesReading.Signed sampleKeyring none :=
  ⟨sampleKey, .named (by decide) rfl, by decide +kernel⟩

/-- Half a year after the earlier expiry the token is accepted, with the later one reported. -/
theorem two_expiries_accepted_late :
    ∃ vr, verifyLocal twoExpiriesHost twoExpiriesText.token sampleKeyring none (some "a.b") none
        (some june2030) june2030 = .ok vr ∧ vr.ok = true ∧ vr.expiresAt = some start2031 ∧
      ¬ MostRestrictiveWins twoExpiriesHost twoExpiriesReading.biscuit.blocks june2030 vr := by
  obtain ⟨hvr, hok⟩ := (verifyLocal_accepts_iff twoExpiriesReading sampleKeyring none (some "a.b")
    none (some june2030) june2030 _).mpr ⟨twoExpiriesReading_signed, by decide +kernel, rfl⟩
  refine ⟨_, hvr, hok, by decide +kernel, ?_⟩
  rintro ⟨hbefore, -⟩
  exact absurd (hbefore start2030 (by decide +kernel)) (by decide)

theorem most_restrictive_wins_iff_two_expiries :
    (∀ vr, verifyLocal twoExpiriesHost twoExpiriesText.token sampleKeyring none (some "a.b") none
        (some june2030) june2030 = .ok vr → vr.ok = true →
        MostRestrictiveWins twoExpiriesHost twoExpiriesReading.biscuit.blocks june2030 vr) ↔
      (Admits twoExpiriesHost (some "a.b") none june2030 twoExpiriesReading.biscuit.blocks →
        EarliestIsFirst twoExpiriesHost twoExpiriesReading.biscuit.blocks) :=
  most_restrictive_wins_iff twoExpiriesReading sampleKeyring none (some "a.b") none
    twoExpiriesReading_signed june2030 june2030

end Sigil.Verify
