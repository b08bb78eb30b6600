import Sigil.Verify.Authorisation

/-! # Blocks on which the checks raise

Once the signature is verified, the loops of `verify_local` run outside any `try`, over blocks of any
JSON shape. `Legible` says exactly which blocks they get through: checks and facts that are sequences
of strings as far as they are looked at, and expiries with an offset. On legible blocks the loops
return what they return on the strings they read (`TokenBlock.read`), so `Admits` says when they
accept.
-/
set_option autoImplicit false

namespace Sigil.Verify

/-! ## What the loops look at -/

/-- The check ends the loop of `_parse_expiry_from_checks`. -/
def settles (h : Host) : PyVal → Bool
  | .str check => (expiryOf h check).isSome
  | _ => false

def AllStrings (xs : List PyVal) : Prop := ∀ x ∈ xs, (stringElem x).isSome = true

/-- The checks can be iterated over, and those looked at are strings. -/
def ChecksLegible (h : Host) (checks : PyVal) : Prop :=
  ∃ xs, checks.iter = .ok xs ∧ AllStrings (xs.takeWhile fun x => !settles h x)

def FactsLegible (facts : PyVal) : Prop := ∃ xs, facts.iter = .ok xs ∧ AllStrings xs

/-- The items of a field, none if it cannot be iterated over. -/
def itemsOf (v : PyVal) : List PyVal := v.iter.toOption.getD []

/-- The strings of a block that count: all its facts, and the check that settles its expiry. -/
def TokenBlock.read (h : Host) (b : TokenBlock) : Block where
  facts := (itemsOf b.facts).filterMap stringElem
  checks := ((itemsOf b.checks).find? (settles h)).toList.filterMap stringElem

theorem itemsOf_eq (v : PyVal) (xs : List PyVal) (hv : v.iter = .ok xs) : itemsOf v = xs := by
  rw [itemsOf, hv]
  rfl

theorem allStrings_nil : AllStrings [] := fun _ hx => absurd hx List.not_mem_nil

theorem allStrings_cons (x : PyVal) (xs : List PyVal) :
    AllStrings (x :: xs) ↔ (∃ s, x = .str s) ∧ AllStrings xs := by
  unfold AllStrings
  rw [List.forall_mem_cons]
  cases x <;> simp [stringElem]

theorem allStrings_eq_map (xs : List PyVal) (hxs : AllStrings xs) :
    xs = (xs.filterMap stringElem).map .str := by
  induction xs with
  | nil => rfl
  | cons x xs ih =>
    obtain ⟨⟨s, rfl⟩, hrest⟩ := (allStrings_cons x xs).mp hxs
    have hhead : stringElem (.str s) = some s := rfl
    rw [List.filterMap_cons_some hhead, List.map_cons, ← ih hrest]

theorem parseExpiryItems_ok_iff (h : Host) (xs : List PyVal) (r : Option DateTime) :
    parseExpiryItems h xs = .ok r ↔ AllStrings (xs.takeWhile fun x => !settles h x) ∧
      r = ((xs.find? (settles h)).toList.filterMap stringElem |>.filterMap (expiryOf h)).head? := by
  induction xs with
  | nil =>
    have hnil : AllStrings (List.takeWhile (fun x => !settles h x) []) := allStrings_nil
    simp only [hnil, true_and]
    exact ⟨fun hr => (Except.ok.inj hr).symm, fun hr => congrArg Except.ok hr.symm⟩
  | cons x xs ih =>
    cases x with
    | str check =>
      cases he : expiryOf h check with
      | none =>
        have hs : settles h (.str check) = false := by simp [settles, he]
        rw [List.takeWhile_cons_of_pos (by simp [hs]), allStrings_cons, List.find?_cons_of_neg (by simp [hs])]
        simp [parseExpiryItems, he, ih]
      | some e =>
        have hs : settles h (.str check) = true := by simp [settles, he]
        rw [List.takeWhile_cons_of_neg (by simp [hs]), List.find?_cons_of_pos hs]
        have hread : parseExpiryItems h (.str check :: xs) = .ok (some e) := by
          simp [parseExpiryItems, he]
        have hfirst : (([PyVal.str check].filterMap stringElem).filterMap (expiryOf h)).head? =
            some e := by simp [stringElem, he]
        rw [hread, Option.toList_some, hfirst]
        simp only [allStrings_nil, true_and]
        exact ⟨fun hr => (Except.ok.inj hr).symm, fun hr => congrArg Except.ok hr.symm⟩
    | _ =>
      rw [List.takeWhile_cons_of_pos (by simp [settles]), allStrings_cons]
      simp [parseExpiryItems]

theorem parseExpiryFromChecks_ok_iff (h : Host) (b : TokenBlock) (r : Option DateTime) :
    parseExpiryFromChecks h b.checks = .ok r ↔
      ChecksLegible h b.checks ∧ r = (b.read h).firstExpiry h := by
  cases hxs : b.checks.iter with
  | error e => simp [parseExpiryFromChecks, ChecksLegible, hxs, bind, Except.bind]
  | ok xs =>
    have hitems := itemsOf_eq b.checks xs hxs
    simpa [parseExpiryFromChecks, ChecksLegible, hxs, bind, Except.bind, Block.firstExpiry,
      Block.expiries, TokenBlock.read, hitems] using parseExpiryItems_ok_iff h xs r

theorem extractToolItems_ok (xs : List PyVal) (tools : List String)
    (hxs : extractToolItems xs = .ok tools) : AllStrings xs := by
  induction xs generalizing tools with
  | nil => exact allStrings_nil
  | cons x xs ih =>
    rw [allStrings_cons]
    cases x with
    | str fact =>
      obtain ⟨rest, htail, -⟩ := bind_eq_ok.mp hxs
      exact ⟨⟨fact, rfl⟩, ih rest htail⟩
    | _ => simp [extractToolItems] at hxs

/-- Legible facts are as good as the list of their strings. -/
theorem facts_read (h : Host) (b : TokenBlock) (hb : FactsLegible b.facts) :
    b.facts.iter = .ok ((b.read h).facts.map .str) := by
  obtain ⟨xs, hiter, hxs⟩ := hb
  rw [hiter, TokenBlock.read, itemsOf_eq b.facts xs hiter, ← allStrings_eq_map xs hxs]

theorem extractToolNames_read (h : Host) (b : TokenBlock) (hb : FactsLegible b.facts) :
    extractToolNamesFromFacts b.facts = .ok (b.read h).tools := by
  rw [extractToolNamesFromFacts, facts_read h b hb]
  exact extractToolItems_map _

theorem factsLegible_of_extract (facts : PyVal) (tools : List String)
    (h : extractToolNamesFromFacts facts = .ok tools) : FactsLegible facts := by
  obtain ⟨xs, hxs, h⟩ := bind_eq_ok.mp h
  exact ⟨xs, hxs, extractToolItems_ok xs tools h⟩

/-! ## The block loops -/

theorem checksLegible_of_loop (h : Host) (result r : Option DateTime) (blocks : List TokenBlock)
    (hr : mostRestrictiveLoop h result blocks = .ok r) :
    ∀ b ∈ blocks, ChecksLegible h b.checks := by
  induction blocks generalizing result with
  | nil => exact fun b hb => absurd hb List.not_mem_nil
  | cons b bs ih =>
    rw [mostRestrictiveLoop] at hr
    obtain ⟨exp, hexp, hr⟩ := bind_eq_ok.mp hr
    have hb := ((parseExpiryFromChecks_ok_iff h b exp).mp hexp).1
    have htail : ∃ result', mostRestrictiveLoop h result' bs = .ok r := by
      cases exp with
      | none => exact ⟨result, hr⟩
      | some e =>
        cases result with
        | none => exact ⟨some e, hr⟩
        | some first =>
          obtain ⟨earlier, -, hr⟩ := bind_eq_ok.mp hr
          cases earlier with
          | true => exact ⟨some e, hr⟩
          | false => exact ⟨some first, hr⟩
    obtain ⟨result', htail⟩ := htail
    exact List.forall_mem_cons.mpr ⟨hb, ih result' htail⟩

/-- On legible checks the loop sees what it would see of the strings. -/
theorem mostRestrictiveLoop_read (h : Host) (result : Option DateTime) (blocks : List TokenBlock)
    (hb : ∀ b ∈ blocks, ChecksLegible h b.checks) :
    mostRestrictiveLoop h result blocks =
      mostRestrictiveLoop h result ((blocks.map (TokenBlock.read h)).map Block.toTokenBlock) := by
  induction blocks generalizing result with
  | nil => rfl
  | cons b bs ih =>
    obtain ⟨hhead, htail⟩ := List.forall_mem_cons.mp hb
    have hexp := (parseExpiryFromChecks_ok_iff h b _).mpr ⟨hhead, rfl⟩
    have hexp' := parseExpiryFromChecks_typed h (b.read h)
    simp only [List.map_cons, mostRestrictiveLoop, hexp, hexp', ih _ htail]

/-- A loop that ends in an expiry with an offset has only compared expiries with offsets. -/
theorem aware_of_loop (h : Host) (result r : Option DateTime) (blocks : List Block)
    (hr : mostRestrictiveLoop h result (blocks.map Block.toTokenBlock) = .ok r)
    (haware : ∀ e, r = some e → e.aware = true) :
    (∀ e, result = some e → e.aware = true) ∧
      ∀ b ∈ blocks, ∀ e, b.firstExpiry h = some e → e.aware = true := by
  induction blocks generalizing result with
  | nil =>
    cases hr
    exact ⟨haware, fun b hb => absurd hb List.not_mem_nil⟩
  | cons b bs ih =>
    rw [List.map_cons, mostRestrictiveLoop, parseExpiryFromChecks_typed] at hr
    simp only [bind, Except.bind] at hr
    rw [List.forall_mem_cons]
    cases hexp : b.firstExpiry h with
    | none =>
      rw [hexp] at hr
      obtain ⟨hres, hrest⟩ := ih result hr
      exact ⟨hres, fun e he => absurd he (by simp), hrest⟩
    | some exp =>
      rw [hexp] at hr
      cases result with
      | none =>
        obtain ⟨hres, hrest⟩ := ih (some exp) hr
        exact ⟨fun e he => absurd he (by simp), hres, hrest⟩
      | some first =>
        cases hlt : exp.lt first with
        | error e => simp [hlt] at hr
        | ok earlier =>
          -- the two were comparable, so the one that is kept speaks for both
          have hsame := ((DateTime.lt_eq_ok_iff exp first earlier).mp hlt).1
          have hkept : ∃ kept, (kept = exp ∨ kept = first) ∧
              mostRestrictiveLoop h (some kept) (bs.map Block.toTokenBlock) = .ok r := by
            cases earlier with
            | true => exact ⟨exp, Or.inl rfl, by simpa [hlt] using hr⟩
            | false => exact ⟨first, Or.inr rfl, by simpa [hlt] using hr⟩
          obtain ⟨kept, hcase, hloop⟩ := hkept
          obtain ⟨hres, hrest⟩ := ih (some kept) hloop
          have hkaware := hres kept rfl
          have hboth : exp.aware = true ∧ first.aware = true := by
            rcases hcase with rfl | rfl
            · exact ⟨hkaware, hsame ▸ hkaware⟩
            · exact ⟨hsame.trans hkaware, hkaware⟩
          refine ⟨?_, ?_, hrest⟩
          · intro e he
            cases he
            exact hboth.2
          · intro e he
            cases he
            exact hboth.1

theorem read_expiries (h : Host) (b : TokenBlock) :
    (b.read h).expiries h = ((b.read h).firstExpiry h).toList := by
  unfold Block.firstExpiry Block.expiries TokenBlock.read
  cases (itemsOf b.checks).find? (settles h) with
  | none => rfl
  | some x =>
    cases hx : stringElem x with
    | none => simp [hx]
    | some check => cases hexp : expiryOf h check <;> simp [hx, hexp]

theorem aware_read_iff (h : Host) (blocks : List TokenBlock) :
    Aware h (blocks.map (TokenBlock.read h)) ↔
      ∀ b ∈ blocks.map (TokenBlock.read h), ∀ e, b.firstExpiry h = some e → e.aware = true := by
  unfold Aware
  refine forall₂_congr fun b hb => ?_
  obtain ⟨c, -, rfl⟩ := List.mem_map.mp hb
  simp [read_expiries]

theorem factsLegible_of_intersect (effective r : List String) (blocks : List TokenBlock)
    (hr : intersectTools effective blocks = .ok r) : ∀ b ∈ blocks, FactsLegible b.facts := by
  induction blocks generalizing effective with
  | nil => exact fun b hb => absurd hb List.not_mem_nil
  | cons b bs ih =>
    rw [intersectTools] at hr
    obtain ⟨tools, htools, hr⟩ := bind_eq_ok.mp hr
    exact List.forall_mem_cons.mpr ⟨factsLegible_of_extract b.facts tools htools, ih _ hr⟩

theorem intersectTools_read (h : Host) (effective : List String) (blocks : List TokenBlock)
    (hb : ∀ b ∈ blocks, FactsLegible b.facts) :
    intersectTools effective blocks =
      intersectTools effective ((blocks.map (TokenBlock.read h)).map Block.toTokenBlock) := by
  induction blocks generalizing effective with
  | nil => rfl
  | cons b bs ih =>
    obtain ⟨hhead, htail⟩ := List.forall_mem_cons.mp hb
    simp only [List.map_cons, intersectTools, extractToolNames_read h b hhead,
      extractToolNames_typed, ih _ htail]

theorem factsLegible_of_effective (blocks : List TokenBlock) (tools : List String)
    (hr : computeEffectiveTools blocks = .ok tools) : ∀ b ∈ blocks, FactsLegible b.facts := by
  cases blocks with
  | nil => exact fun b hb => absurd hb List.not_mem_nil
  | cons b bs =>
    rw [computeEffectiveTools] at hr
    obtain ⟨names, htools, hr⟩ := bind_eq_ok.mp hr
    exact List.forall_mem_cons.mpr ⟨factsLegible_of_extract b.facts names htools,
      factsLegible_of_intersect _ tools bs hr⟩

theorem computeEffectiveTools_read (h : Host) (blocks : List TokenBlock)
    (hb : ∀ b ∈ blocks, FactsLegible b.facts) : computeEffectiveTools blocks =
      computeEffectiveTools ((blocks.map (TokenBlock.read h)).map Block.toTokenBlock) := by
  cases blocks with
  | nil => rfl
  | cons b bs =>
    obtain ⟨hhead, htail⟩ := List.forall_mem_cons.mp hb
    simp only [List.map_cons, computeEffectiveTools, extractToolNames_read h b hhead,
      extractToolNames_typed, intersectTools_read h _ bs htail]

theorem extractIdentity_read (h : Host) (blocks : List TokenBlock)
    (hb : ∀ b ∈ blocks, FactsLegible b.facts) :
    extractIdentityFromFacts ((blocks.head?.map TokenBlock.facts).getD (.list [])) =
      .ok (identity (blocks.map (TokenBlock.read h))) := by
  cases blocks with
  | nil => rfl
  | cons b bs =>
    have hhead := facts_read h b (hb b List.mem_cons_self)
    simp only [List.head?_cons, Option.map_some, Option.getD_some, extractIdentityFromFacts, hhead]
    exact extractIdentityItems_map {} _

/-! ## The checks -/

/-- A block states an expiry that has passed. -/
def Expired (h : Host) (now : DateTime) (blocks : List Block) : Prop :=
  ∃ b ∈ blocks, ∃ e, b.firstExpiry h = some e ∧ e.instant ≤ now.instant

/-- What the checks need of the blocks: they read every check up to the one that settles, they
compare the expiries with each other and with an aware time, and they read the facts unless the
token has expired. -/
structure Legible (h : Host) (now : DateTime) (blocks : List TokenBlock) : Prop where
  checks : ∀ b ∈ blocks, ChecksLegible h b.checks
  aware : Aware h (blocks.map (TokenBlock.read h))
  facts : Expired h now (blocks.map (TokenBlock.read h)) ∨ ∀ b ∈ blocks, FactsLegible b.facts

theorem expired_ok_iff (h : Host) (now : DateTime) (hnow : now.aware = true) (blocks : List Block)
    (ha : Aware h blocks) : ∃ late, expired now (expiresAt h blocks) = .ok late ∧
      (late = true ↔ Expired h now blocks) := by
  cases he : expiresAt h blocks with
  | none =>
    refine ⟨false, rfl, ?_⟩
    have hnone := (expiresAt_eq_none_iff h blocks).mp he
    constructor
    · intro hf
      cases hf
    · rintro ⟨b, hb, e, hbe, -⟩
      rw [hnone b hb] at hbe
      cases hbe
  | some e =>
    obtain ⟨⟨b, hb, hbe⟩, hmin⟩ := expiresAt_some h blocks e he
    have hea := ha b hb e (List.mem_of_mem_head? hbe)
    have hlt := (DateTime.lt_eq_ok_iff now e _).mpr ⟨hnow.trans hea.symm, rfl⟩
    refine ⟨!decide (now.instant < e.instant), ?_, ?_⟩
    · simp only [expired, hlt, bind, Except.bind]
    · simp only [Bool.not_eq_true', decide_eq_false_iff_not, not_lt]
      constructor
      · exact fun hle => ⟨b, hb, e, hbe, hle⟩
      · rintro ⟨c, hc, f, hcf, hle⟩
        exact le_trans (hmin c hc f hcf) hle

theorem mostRestrictiveExpiry_read (h : Host) (blocks : List TokenBlock)
    (hc : ∀ b ∈ blocks, ChecksLegible h b.checks)
    (ha : Aware h (blocks.map (TokenBlock.read h))) :
    mostRestrictiveExpiry h blocks = .ok (expiresAt h (blocks.map (TokenBlock.read h))) := by
  rw [mostRestrictiveExpiry, mostRestrictiveLoop_read h none blocks hc]
  exact mostRestrictiveExpiry_typed h _ ha

/-- The checks that need no `try` are the ones on legible blocks. -/
theorem legible_of_checkBlocks (h : Host) (requiredTool expectedTenant : Option String)
    (now : DateTime) (hnow : now.aware = true) (blocks : List TokenBlock) (vr : VerifyResult)
    (hvr : checkBlocks h requiredTool expectedTenant now blocks = .ok vr) :
    Legible h now blocks := by
  unfold checkBlocks at hvr
  obtain ⟨exp, hexp, hvr⟩ := bind_eq_ok.mp hvr
  obtain ⟨late, hlate, hvr⟩ := bind_eq_ok.mp hvr
  have hchecks := checksLegible_of_loop h none exp blocks hexp
  have hloop := hexp
  rw [mostRestrictiveExpiry, mostRestrictiveLoop_read h none blocks hchecks] at hloop
  have hexpaware : ∀ e, exp = some e → e.aware = true := by
    rintro e rfl
    obtain ⟨r, hlt, -⟩ := bind_eq_ok.mp hlate
    exact ((DateTime.lt_eq_ok_iff now e r).mp hlt).1.symm.trans hnow
  have haware := (aware_read_iff h blocks).mpr (aware_of_loop h none exp _ hloop hexpaware).2
  refine ⟨hchecks, haware, ?_⟩
  rw [mostRestrictiveExpiry_read h blocks hchecks haware, Except.ok.injEq] at hexp
  obtain ⟨late', hlate', hiff⟩ := expired_ok_iff h now hnow _ haware
  rw [hexp, hlate, Except.ok.injEq] at hlate'
  cases late with
  | true => exact Or.inl (hiff.mp hlate'.symm)
  | false =>
    obtain ⟨tools, htools, -⟩ := bind_eq_ok.mp hvr
    exact Or.inr (factsLegible_of_effective blocks tools htools)

/-- Legible blocks are judged, and accepted as the strings read from them would be. -/
theorem checkBlocks_of_legible (h : Host) (requiredTool expectedTenant : Option String)
    (now : DateTime) (hnow : now.aware = true) (blocks : List TokenBlock) (hne : blocks ≠ [])
    (hl : Legible h now blocks) :
    ∃ vr, checkBlocks h requiredTool expectedTenant now blocks = .ok vr ∧
      (vr.ok = true ↔
        Admits h requiredTool expectedTenant now (blocks.map (TokenBlock.read h))) := by
  have hne' : blocks.map (TokenBlock.read h) ≠ [] := by simpa using hne
  obtain ⟨late, hlate, hiff⟩ := expired_ok_iff h now hnow _ hl.aware
  have hexp := mostRestrictiveExpiry_read h blocks hl.checks hl.aware
  cases late with
  | true =>
    refine ⟨{ ok := false, reason := some "task_expired",
              expiresAt := expiresAt h (blocks.map (TokenBlock.read h)) }, ?_, ?_⟩
    · simp only [checkBlocks, hexp, hlate, bind, Except.bind, if_true]
    · obtain ⟨b, hb, e, hbe, hle⟩ := hiff.mp rfl
      have hno : ¬ Admits h requiredTool expectedTenant now (blocks.map (TokenBlock.read h)) := by
        intro hadm
        have hbefore := (hadm.unexpired b hb e hbe).2
        omega
      simp [hno]
  | false =>
    have hfacts : ∀ b ∈ blocks, FactsLegible b.facts :=
      hl.facts.resolve_left fun hexpired => by simpa using hiff.mpr hexpired
    have hsame : checkBlocks h requiredTool expectedTenant now blocks =
        checkBlocks h requiredTool expectedTenant now
          ((blocks.map (TokenBlock.read h)).map Block.toTokenBlock) := by
      simp only [checkBlocks, hexp, mostRestrictiveExpiry_typed h _ hl.aware,
        computeEffectiveTools_read h blocks hfacts, extractIdentity_read h blocks hfacts,
        extractIdentity_typed]
    have haccepts := checkBlocks_accepts_iff h requiredTool expectedTenant now _ hl.aware hne'
    cases hvr : checkBlocks h requiredTool expectedTenant now blocks with
    | error e =>
      simp only [checkBlocks, hexp, hlate, computeEffectiveTools_read h blocks hfacts,
        computeEffectiveTools_typed, extractIdentity_read h blocks hfacts, bind, Except.bind,
        Bool.false_eq_true, if_false] at hvr
      repeat' split at hvr
      all_goals cases hvr
    | ok vr =>
      refine ⟨vr, rfl, ?_⟩
      rw [hsame] at hvr
      constructor
      · exact fun hok => ((haccepts vr).mp ⟨hvr, hok⟩).1
      · intro hadm
        obtain ⟨hacc, hok⟩ := (haccepts _).mpr ⟨hadm, rfl⟩
        rw [hvr, Except.ok.injEq] at hacc
        rw [hacc]
        exact hok

end Sigil.Verify
