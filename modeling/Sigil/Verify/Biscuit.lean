import Sigil.Verify.Local
import Mathlib.Data.List.MinMax

/-! # Well-typed biscuits

The payloads sigil-core signs are typed: a `kid`, and blocks of fact and check strings. On these
the accesses of `verify_local` cannot raise, and each of its loops is a list function:
`parseExpiryFromChecks` finds the first expiry, `mostRestrictiveExpiry` is an `argmin`,
`computeEffectiveTools` an intersection. `Admits` says when a block list passes, and
`checkBlocks_accepts_iff` that the checks accept exactly then.
-/
set_option autoImplicit false

namespace Sigil.Verify

structure Block where
  facts : List String
  checks : List String
  deriving DecidableEq, Repr

structure Biscuit where
  kid : String
  blocks : List Block
  deriving DecidableEq, Repr

/-! ## Reading a payload -/

/-- A list field; an absent or null one is empty. -/
def listField {α : Type} (elem : PyVal → Option α) : PyVal → Option (List α)
  | .none => some []
  | .list xs => xs.mapM elem
  | _ => none

def stringElem : PyVal → Option String
  | .str s => some s
  | _ => none

def Block.ofVal : PyVal → Option Block
  | .dict kvs => do
    let facts ← listField stringElem ((kvs.lookup (.str "facts")).getD .none)
    let checks ← listField stringElem ((kvs.lookup (.str "checks")).getD .none)
    some ⟨facts, checks⟩
  | _ => none

def Biscuit.ofPayload : PyVal → Option Biscuit
  | .dict kvs => do
    let kid ← stringElem ((kvs.lookup (.str "kid")).getD (.str ""))
    let blocks ← listField Block.ofVal ((kvs.lookup (.str "blocks")).getD .none)
    some ⟨kid, blocks⟩
  | _ => none

def Block.toTokenBlock (b : Block) : TokenBlock :=
  ⟨.list (b.facts.map .str), .list (b.checks.map .str)⟩

theorem listField_orElse {α : Type} (elem : PyVal → Option α) (v : PyVal) (xs : List α)
    (hv : listField elem v = some xs) :
    ∃ vs, v.orElse (.list []) = .list vs ∧ vs.mapM elem = some xs := by
  cases v with
  | none =>
    refine ⟨[], rfl, ?_⟩
    simpa [listField] using hv
  | list vs =>
    refine ⟨vs, ?_, hv⟩
    unfold PyVal.orElse
    split
    · rfl
    · next h =>
      have hnil : vs = [] := by simpa [PyVal.truthy] using h
      rw [hnil]
  | _ => simp [listField] at hv

theorem eq_map_str_of_mapM (vs : List PyVal) (xs : List String)
    (h : vs.mapM stringElem = some xs) : vs = xs.map .str := by
  induction vs generalizing xs with
  | nil =>
    have hx : xs = [] := by simpa using h.symm
    rw [hx]
    rfl
  | cons v vs ih =>
    simp only [List.mapM_cons, Option.bind_eq_bind, Option.bind_eq_some_iff, Option.pure_def,
      Option.some.injEq] at h
    obtain ⟨x, hx, ys, hys, rfl⟩ := h
    have hv : v = .str x := by
      cases v <;> simp_all [stringElem]
    rw [hv, ih ys hys, List.map_cons]

theorem tokenBlock_ofVal (v : PyVal) (b : Block) (h : Block.ofVal v = some b) :
    tokenBlock v = some b.toTokenBlock := by
  cases v with
  | dict kvs =>
    simp only [Block.ofVal, Option.bind_eq_bind, Option.bind_eq_some_iff, Option.some.injEq] at h
    obtain ⟨facts, hfacts, checks, hchecks, rfl⟩ := h
    obtain ⟨fs, hfs, hfm⟩ := listField_orElse _ _ _ hfacts
    obtain ⟨cs, hcs, hcm⟩ := listField_orElse _ _ _ hchecks
    simp [tokenBlock, hfs, hcs, Block.toTokenBlock, eq_map_str_of_mapM fs facts hfm,
      eq_map_str_of_mapM cs checks hcm]
  | _ => simp [Block.ofVal] at h

theorem mapM_tokenBlock (vs : List PyVal) (bs : List Block) (h : vs.mapM Block.ofVal = some bs) :
    vs.mapM tokenBlock = some (bs.map Block.toTokenBlock) := by
  induction vs generalizing bs with
  | nil =>
    have hb : bs = [] := by simpa using h.symm
    rw [hb]
    rfl
  | cons v vs ih =>
    simp only [List.mapM_cons, Option.bind_eq_bind, Option.bind_eq_some_iff, Option.pure_def,
      Option.some.injEq] at h
    obtain ⟨b, hb, cs, hcs, rfl⟩ := h
    simp [List.mapM_cons, tokenBlock_ofVal v b hb, ih cs hcs]

/-- Step 6 on a typed payload: only an empty block list is refused. -/
theorem parseBlocks_ofPayload (raw : PyVal) (t : Biscuit) (h : Biscuit.ofPayload raw = some t) :
    parseBlocks raw = if t.blocks = [] then none else some (t.blocks.map Block.toTokenBlock) := by
  cases raw with
  | dict kvs =>
    simp only [Biscuit.ofPayload, Option.bind_eq_bind, Option.bind_eq_some_iff,
      Option.some.injEq] at h
    obtain ⟨kid, -, blocks, hblocks, rfl⟩ := h
    obtain ⟨vs, hvs, hm⟩ := listField_orElse _ _ _ hblocks
    have htok := mapM_tokenBlock vs blocks hm
    cases vs with
    | nil =>
      have hb : blocks = [] := by simpa using hm.symm
      simp [parseBlocks, hvs, PyVal.iter, hb]
    | cons v vs =>
      have hb : blocks ≠ [] := by
        intro hnil
        rw [hnil] at htok
        simp [List.mapM_cons, Option.bind_eq_some_iff] at htok
      simp only [parseBlocks, PyVal.get_dict, hvs, PyVal.iter, htok, if_neg hb]
  | _ => simp [Biscuit.ofPayload] at h

theorem kid_ofPayload (raw : PyVal) (t : Biscuit) (h : Biscuit.ofPayload raw = some t) :
    raw.getD "kid" (.str "") = .ok (.str t.kid) := by
  cases raw with
  | dict kvs =>
    simp only [Biscuit.ofPayload, Option.bind_eq_bind, Option.bind_eq_some_iff,
      Option.some.injEq] at h
    obtain ⟨kid, hkid, blocks, -, rfl⟩ := h
    rw [PyVal.getD_dict]
    cases hv : (kvs.lookup (.str "kid")).getD (.str "") <;> simp_all [stringElem]
  | _ => simp [Biscuit.ofPayload] at h

/-! ## The loops on typed blocks -/

def Block.expiries (h : Host) (b : Block) : List DateTime := b.checks.filterMap (expiryOf h)

/-- The expiry `_parse_expiry_from_checks` reads. -/
def Block.firstExpiry (h : Host) (b : Block) : Option DateTime := (b.expiries h).head?

def Block.tools (b : Block) : List String := b.facts.filterMap toolName

/-- Every timestamp that parses carries an offset. -/
def Aware (h : Host) (blocks : List Block) : Prop :=
  ∀ b ∈ blocks, ∀ e ∈ b.expiries h, e.aware = true

-- the order is named because not every order on ℤ that Mathlib finds can be evaluated
/-- The expiry `verify_local` enforces. -/
def expiresAt (h : Host) (blocks : List Block) : Option DateTime :=
  @List.argmin DateTime ℤ Int.instLinearOrder.toPreorder inferInstance DateTime.instant
    (blocks.filterMap (Block.firstExpiry h))

def effectiveTools : List Block → List String
  | [] => []
  | b :: bs => bs.foldl (fun effective b => effective.filter (· ∈ b.tools)) b.tools.dedup

def identity (blocks : List Block) : Identity :=
  ((blocks.head?.map Block.facts).getD []).foldl Identity.absorb {}

theorem parseExpiryItems_map (h : Host) (checks : List String) :
    parseExpiryItems h (checks.map .str) = .ok (checks.filterMap (expiryOf h)).head? := by
  induction checks with
  | nil => rfl
  | cons c cs ih =>
    cases he : expiryOf h c with
    | none => simp [parseExpiryItems, he, ih]
    | some e => simp [parseExpiryItems, he]

theorem parseExpiryFromChecks_typed (h : Host) (b : Block) :
    parseExpiryFromChecks h b.toTokenBlock.checks = .ok (b.firstExpiry h) :=
  parseExpiryItems_map h b.checks

theorem aware_firstExpiry (h : Host) (b : Block) (bs : List Block) (ha : Aware h (b :: bs))
    (e : DateTime) (he : b.firstExpiry h = some e) : e.aware = true :=
  ha b (List.mem_cons_self ..) e (List.mem_of_mem_head? he)

theorem aware_tail (h : Host) (b : Block) (bs : List Block) (ha : Aware h (b :: bs)) :
    Aware h bs := fun c hc => ha c (List.mem_cons_of_mem _ hc)

/-- With offsets everywhere the loop is the fold that defines `argmin`, from any accumulator. -/
theorem mostRestrictiveLoop_typed (h : Host) (result : Option DateTime) (blocks : List Block)
    (ha : Aware h blocks) (hr : ∀ r, result = some r → r.aware = true) :
    mostRestrictiveLoop h result (blocks.map Block.toTokenBlock) =
      .ok ((blocks.filterMap (Block.firstExpiry h)).foldl
        (List.argAux fun a b => a.instant < b.instant) result) := by
  induction blocks generalizing result with
  | nil => rfl
  | cons b bs ih =>
    have htail := aware_tail h b bs ha
    rw [List.map_cons, mostRestrictiveLoop, parseExpiryFromChecks_typed]
    cases he : b.firstExpiry h with
    | none =>
      rw [List.filterMap_cons_none he]
      exact ih result htail hr
    | some e =>
      have hea := aware_firstExpiry h b bs ha e he
      rw [List.filterMap_cons_some he, List.foldl_cons]
      cases result with
      | none => exact ih (some e) htail (by simpa using hea)
      | some r =>
        have hra := hr r rfl
        have hlt : e.lt r = .ok (decide (e.instant < r.instant)) :=
          (DateTime.lt_eq_ok_iff e r _).mpr ⟨hea.trans hra.symm, rfl⟩
        by_cases hlt' : e.instant < r.instant
        · have hstep := ih (some e) htail (by simpa using hea)
          simpa [bind, Except.bind, hlt, hlt', List.argAux] using hstep
        · have hstep := ih (some r) htail (by simpa using hra)
          simpa [bind, Except.bind, hlt, hlt', List.argAux] using hstep

theorem mostRestrictiveExpiry_typed (h : Host) (blocks : List Block) (ha : Aware h blocks) :
    mostRestrictiveExpiry h (blocks.map Block.toTokenBlock) = .ok (expiresAt h blocks) :=
  mostRestrictiveLoop_typed h none blocks ha (by simp)

theorem extractToolItems_map (facts : List String) :
    extractToolItems (facts.map .str) = .ok (facts.filterMap toolName) := by
  induction facts with
  | nil => rfl
  | cons f fs ih =>
    cases hf : toolName f <;> simp [extractToolItems, ih, hf, bind, Except.bind]

theorem extractToolNames_typed (b : Block) :
    extractToolNamesFromFacts b.toTokenBlock.facts = .ok b.tools := extractToolItems_map b.facts

theorem intersectTools_typed (effective : List String) (blocks : List Block) :
    intersectTools effective (blocks.map Block.toTokenBlock) =
      .ok (blocks.foldl (fun effective b => effective.filter (· ∈ b.tools)) effective) := by
  induction blocks generalizing effective with
  | nil => rfl
  | cons b bs ih =>
    rw [List.map_cons, intersectTools, extractToolNames_typed]
    exact ih _

theorem computeEffectiveTools_typed (blocks : List Block) :
    computeEffectiveTools (blocks.map Block.toTokenBlock) = .ok (effectiveTools blocks) := by
  cases blocks with
  | nil => rfl
  | cons b bs =>
    rw [List.map_cons, computeEffectiveTools, extractToolNames_typed]
    exact intersectTools_typed _ bs

theorem extractIdentityItems_map (i : Identity) (facts : List String) :
    extractIdentityItems i (facts.map .str) = .ok (facts.foldl Identity.absorb i) := by
  induction facts generalizing i with
  | nil => rfl
  | cons f fs ih => exact ih (i.absorb f)

theorem extractIdentity_typed (blocks : List Block) :
    extractIdentityFromFacts
      (((blocks.map Block.toTokenBlock).head?.map TokenBlock.facts).getD (.list [])) =
      .ok (identity blocks) := by
  cases blocks with
  | nil => rfl
  | cons b bs => exact extractIdentityItems_map {} b.facts

/-! ## What the list functions say -/

theorem mem_foldl_filter (effective : List String) (blocks : List Block) (tool : String) :
    tool ∈ blocks.foldl (fun effective b => effective.filter (· ∈ b.tools)) effective ↔
      tool ∈ effective ∧ ∀ b ∈ blocks, tool ∈ b.tools := by
  induction blocks generalizing effective with
  | nil => simp
  | cons b bs ih =>
    rw [List.foldl_cons, ih]
    simp [and_assoc]

/-- A tool is effective when every block grants it, and there is a block. -/
theorem mem_effectiveTools (blocks : List Block) (tool : String) :
    tool ∈ effectiveTools blocks ↔ blocks ≠ [] ∧ ∀ b ∈ blocks, tool ∈ b.tools := by
  cases blocks with
  | nil => simp [effectiveTools]
  | cons b bs => simp [effectiveTools, mem_foldl_filter]

theorem absorb_tenantId (i : Identity) (fact : String) :
    (i.absorb fact).tenantId = (factValue "tenant(" fact).or i.tenantId := by
  unfold Identity.absorb
  cases factValue "tenant(" fact with
  | some tenant => rfl
  | none =>
    cases factValue "agent(" fact with
    | some agent => rfl
    | none => cases factValue "task(" fact <;> rfl

/-- A field that every turn sets to the value of its own kind of fact ends up with the last one. -/
theorem foldl_absorb (field : Identity → Option String) (kind : String)
    (hstep : ∀ i fact, field (i.absorb fact) = (factValue kind fact).or (field i)) (i : Identity)
    (facts : List String) :
    field (facts.foldl Identity.absorb i) =
      (facts.filterMap (factValue kind)).getLast?.or (field i) := by
  induction facts generalizing i with
  | nil => simp
  | cons f fs ih =>
    rw [List.foldl_cons, ih, hstep]
    cases hf : factValue kind f with
    | none => simp [hf]
    | some v =>
      rw [List.filterMap_cons_some hf, List.getLast?_cons]
      cases (fs.filterMap (factValue kind)).getLast? <;> simp

theorem foldl_absorb_tenantId (i : Identity) (facts : List String) :
    (facts.foldl Identity.absorb i).tenantId =
      (facts.filterMap (factValue "tenant(")).getLast?.or i.tenantId :=
  foldl_absorb Identity.tenantId "tenant(" absorb_tenantId i facts

theorem identity_tenantId (blocks : List Block) :
    (identity blocks).tenantId =
      (((blocks.head?.map Block.facts).getD []).filterMap (factValue "tenant(")).getLast? := by
  rw [identity, foldl_absorb_tenantId, Option.or_none]

theorem expiresAt_eq_none_iff (h : Host) (blocks : List Block) :
    expiresAt h blocks = none ↔ ∀ b ∈ blocks, b.firstExpiry h = none := by
  rw [expiresAt, List.argmin_eq_none, List.filterMap_eq_nil_iff]

theorem expiresAt_some (h : Host) (blocks : List Block) (e : DateTime)
    (he : expiresAt h blocks = some e) :
    (∃ b ∈ blocks, b.firstExpiry h = some e) ∧
      ∀ b ∈ blocks, ∀ f, b.firstExpiry h = some f → e.instant ≤ f.instant := by
  refine ⟨List.mem_filterMap.mp (List.argmin_mem he), ?_⟩
  intro b hb f hf
  have hmem : f ∈ blocks.filterMap (Block.firstExpiry h) := List.mem_filterMap.mpr ⟨b, hb, hf⟩
  exact List.le_of_mem_argmin hmem he

theorem before_expiresAt_iff (h : Host) (now : DateTime) (blocks : List Block)
    (ha : Aware h blocks) :
    (∀ e, expiresAt h blocks = some e → now.Before e) ↔
      ∀ b ∈ blocks, ∀ e, b.firstExpiry h = some e → now.Before e := by
  constructor
  · intro hbefore b hb f hf
    cases he : expiresAt h blocks with
    | none =>
      rw [(expiresAt_eq_none_iff h blocks).mp he b hb] at hf
      exact absurd hf (by simp)
    | some e =>
      obtain ⟨⟨c, hc, hce⟩, hmin⟩ := expiresAt_some h blocks e he
      have hea := ha c hc e (List.mem_of_mem_head? hce)
      have hfa := ha b hb f (List.mem_of_mem_head? hf)
      have hle := hmin b hb f hf
      have hne := hbefore e he
      exact ⟨hne.1.trans (hea.trans hfa.symm), lt_of_lt_of_le hne.2 hle⟩
  · intro hall e he
    obtain ⟨⟨c, hc, hce⟩, -⟩ := expiresAt_some h blocks e he
    exact hall c hc e hce

/-! ## When a block list passes -/

/-- A block list passes: there is one, it has not expired, and it grants what is asked. -/
structure Admits (h : Host) (requiredTool expectedTenant : Option String) (now : DateTime)
    (blocks : List Block) : Prop where
  nonempty : blocks ≠ []
  unexpired : ∀ b ∈ blocks, ∀ e, b.firstExpiry h = some e → now.Before e
  tenant : ∀ t, expectedTenant = some t →
    (((blocks.head?.map Block.facts).getD []).filterMap (factValue "tenant(")).getLast? = some t
  scope : ∀ tool, requiredTool = some tool → ∀ b ∈ blocks, tool ∈ b.tools

theorem admits_iff (h : Host) (requiredTool expectedTenant : Option String) (now : DateTime)
    (blocks : List Block) : Admits h requiredTool expectedTenant now blocks ↔
      blocks ≠ [] ∧ (∀ b ∈ blocks, ∀ e ∈ b.firstExpiry h, now.Before e) ∧
        (∀ t ∈ expectedTenant, (((blocks.head?.map Block.facts).getD []).filterMap
          (factValue "tenant(")).getLast? = some t) ∧
        ∀ tool ∈ requiredTool, ∀ b ∈ blocks, tool ∈ b.tools :=
  ⟨fun ⟨h1, h2, h3, h4⟩ => ⟨h1, h2, h3, h4⟩, fun ⟨h1, h2, h3, h4⟩ => ⟨h1, h2, h3, h4⟩⟩

instance (h : Host) (requiredTool expectedTenant : Option String) (now : DateTime)
    (blocks : List Block) : Decidable (Admits h requiredTool expectedTenant now blocks) :=
  decidable_of_iff' _ (admits_iff h requiredTool expectedTenant now blocks)

def acceptance (h : Host) (blocks : List Block) : VerifyResult where
  ok := true
  effectiveTools := effectiveTools blocks
  agentId := (identity blocks).agentId
  taskId := (identity blocks).taskId
  tenantId := (identity blocks).tenantId
  expiresAt := expiresAt h blocks

theorem expired_eq_false_iff (now : DateTime) (exp : Option DateTime) :
    expired now exp = .ok false ↔ ∀ e, exp = some e → now.Before e := by
  cases exp with
  | none => simp [expired]
  | some e =>
    by_cases haw : now.aware = e.aware
    · simp [expired, DateTime.lt, haw, bind, Except.bind, DateTime.Before]
    · simp [expired, DateTime.lt, haw, bind, Except.bind, DateTime.Before]

/-- Steps 7 to 11 accept a typed block list exactly when it passes. -/
theorem checkBlocks_accepts_iff (h : Host) (requiredTool expectedTenant : Option String)
    (now : DateTime) (blocks : List Block) (ha : Aware h blocks) (hne : blocks ≠ [])
    (vr : VerifyResult) :
    checkBlocks h requiredTool expectedTenant now (blocks.map Block.toTokenBlock) = .ok vr ∧
        vr.ok = true ↔
      Admits h requiredTool expectedTenant now blocks ∧ vr = acceptance h blocks := by
  have hexp := expired_eq_false_iff now (expiresAt h blocks)
  rw [before_expiresAt_iff h now blocks ha] at hexp
  unfold checkBlocks
  simp only [mostRestrictiveExpiry_typed h blocks ha, computeEffectiveTools_typed,
    extractIdentity_typed, bind, Except.bind]
  rcases hlate : expired now (expiresAt h blocks) with err | late
  · have hno : ¬ ∀ b ∈ blocks, ∀ e, b.firstExpiry h = some e → now.Before e := by
      rw [← hexp, hlate]
      simp
    simp only [reduceCtorEq, false_and, false_iff]
    exact fun hadm => hno hadm.1.unexpired
  · cases late with
    | true =>
      have hno : ¬ ∀ b ∈ blocks, ∀ e, b.firstExpiry h = some e → now.Before e := by
        rw [← hexp, hlate]
        simp
      constructor
      · rintro ⟨hres, hok⟩
        cases hres
        exact absurd hok (by simp)
      · exact fun hadm => absurd hadm.1.unexpired hno
    | false =>
      have hunexp := hexp.mp hlate
      have htenant := identity_tenantId blocks
      simp only [Bool.false_eq_true, if_false]
      constructor
      · rintro ⟨hres, hok⟩
        split_ifs at hres with h1 h2
        · cases hres
          exact absurd hok (by simp)
        · cases hres
          exact absurd hok (by simp)
        · cases hres
          refine ⟨⟨hne, hunexp, ?_, ?_⟩, rfl⟩
          · rintro t rfl
            rw [← htenant]
            simpa using h1
          · rintro tool rfl
            have hmem : tool ∈ effectiveTools blocks := by simpa using h2
            exact ((mem_effectiveTools blocks tool).mp hmem).2
      · rintro ⟨hadm, rfl⟩
        have h1 : ¬ (expectedTenant.isSome = true ∧ (identity blocks).tenantId ≠ expectedTenant) := by
          rintro ⟨hsome, hdiff⟩
          obtain ⟨t, rfl⟩ := Option.isSome_iff_exists.mp hsome
          exact hdiff (htenant.trans (hadm.tenant t rfl))
        have h2 : (requiredTool.any fun tool => decide (tool ∉ effectiveTools blocks)) = false := by
          cases hreq : requiredTool with
          | none => rfl
          | some tool =>
            have hmem := (mem_effectiveTools blocks tool).mpr ⟨hne, hadm.scope tool hreq⟩
            simpa using hmem
        refine ⟨?_, rfl⟩
        rw [if_neg h1, h2]
        rfl

end Sigil.Verify
