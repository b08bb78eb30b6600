import Sigil.Verify.Malformed
import Mathlib.Data.List.Perm.Basic

/-! # The order of the facts

Two tokens whose blocks hold the same facts in different orders, with the same checks. The tools are
intersected as sets, so they do not depend on the order; the identity is read by a loop in which a
later fact overwrites an earlier one of its kind, so it does (`rearranged_iff`).
-/
set_option autoImplicit false

namespace Sigil.Verify

/-! ## Identity facts -/

def identityKinds : List String := ["tenant(", "agent(", "task("]

/-- The value of the last fact of a kind. -/
def lastFact (kind : String) (facts : List String) : Option String :=
  (facts.filterMap (factValue kind)).getLast?

/-- The facts of the authority block. -/
def authorityFacts (blocks : List Block) : List String := (blocks.head?.map Block.facts).getD []

theorem factValue_none_of_prefix (pred other fact : String)
    (h : ¬ pred.toList <+: other.toList ∧ ¬ other.toList <+: pred.toList)
    (hother : (factValue other fact).isSome = true) : factValue pred fact = none := by
  unfold factValue at hother ⊢
  split_ifs at hother with hcond
  · rw [if_neg]
    intro hpred
    have hp := List.isPrefixOf_iff_prefix.mp hpred.1
    have ho := List.isPrefixOf_iff_prefix.mp hcond.1
    rcases List.prefix_or_prefix_of_prefix hp ho with hpre | hpre
    · exact h.1 hpre
    · exact h.2 hpre
  · cases hother

theorem absorb_agentId (i : Identity) (fact : String) :
    (i.absorb fact).agentId = (factValue "agent(" fact).or i.agentId := by
  unfold Identity.absorb
  cases htenant : factValue "tenant(" fact with
  | some tenant =>
    have hnone := factValue_none_of_prefix "agent(" "tenant(" fact (by decide) (by simp [htenant])
    rw [hnone]
    rfl
  | none =>
    cases factValue "agent(" fact with
    | some agent => rfl
    | none => cases factValue "task(" fact <;> rfl

theorem absorb_taskId (i : Identity) (fact : String) :
    (i.absorb fact).taskId = (factValue "task(" fact).or i.taskId := by
  unfold Identity.absorb
  cases htenant : factValue "tenant(" fact with
  | some tenant =>
    have hnone := factValue_none_of_prefix "task(" "tenant(" fact (by decide) (by simp [htenant])
    rw [hnone]
    rfl
  | none =>
    cases hagent : factValue "agent(" fact with
    | some agent =>
      have hnone := factValue_none_of_prefix "task(" "agent(" fact (by decide) (by simp [hagent])
      rw [hnone]
      rfl
    | none => cases factValue "task(" fact <;> rfl

/-- The identity is the last fact of each kind in the authority block. -/
theorem identity_eq (blocks : List Block) :
    identity blocks = { tenantId := lastFact "tenant(" (authorityFacts blocks)
                        agentId := lastFact "agent(" (authorityFacts blocks)
                        taskId := lastFact "task(" (authorityFacts blocks) } := by
  have htenant := foldl_absorb Identity.tenantId "tenant(" absorb_tenantId {} (authorityFacts blocks)
  have hagent := foldl_absorb Identity.agentId "agent(" absorb_agentId {} (authorityFacts blocks)
  have htask := foldl_absorb Identity.taskId "task(" absorb_taskId {} (authorityFacts blocks)
  rw [Option.or_none] at htenant hagent htask
  show (authorityFacts blocks).foldl Identity.absorb {} = _
  rw [lastFact, lastFact, lastFact, ← htenant, ← hagent, ← htask]

/-- The last fact of each kind has the same value. -/
def SameIdentity (facts facts' : List String) : Prop :=
  ∀ kind ∈ identityKinds, lastFact kind facts = lastFact kind facts'

theorem identity_eq_iff (blocks blocks' : List Block) :
    identity blocks = identity blocks' ↔
      SameIdentity (authorityFacts blocks) (authorityFacts blocks') := by
  rw [identity_eq, identity_eq, Identity.mk.injEq]
  simp [SameIdentity, identityKinds]

/-! ## Rearranging facts -/

/-- No two facts of one kind have different values. -/
def Consistent (facts : List String) : Prop :=
  ∀ kind ∈ identityKinds, ∀ fact ∈ facts, ∀ fact' ∈ facts, ∀ v v',
    factValue kind fact = some v → factValue kind fact' = some v' → v = v'

theorem getLast?_eq_of_perm (xs ys : List String) (h : xs.Perm ys)
    (hall : ∀ x ∈ xs, ∀ y ∈ xs, x = y) : xs.getLast? = ys.getLast? := by
  cases hx : xs.getLast? with
  | none =>
    rw [List.getLast?_eq_none_iff] at hx
    rw [hx] at h
    rw [h.symm.eq_nil]
    rfl
  | some x =>
    cases hy : ys.getLast? with
    | none =>
      rw [List.getLast?_eq_none_iff] at hy
      rw [hy] at h
      rw [h.eq_nil] at hx
      cases hx
    | some y =>
      have hmem := List.mem_of_getLast? hx
      have hmem' := h.mem_iff.mpr (List.mem_of_getLast? hy)
      rw [hall x hmem y hmem']

theorem lastFact_concat (kind : String) (facts : List String) (fact v : String)
    (h : factValue kind fact = some v) : lastFact kind (facts ++ [fact]) = some v := by
  rw [lastFact, List.filterMap_append, List.filterMap_cons_some h, List.filterMap_nil,
    List.getLast?_concat]

theorem lastFact_of_mem (kind : String) (facts : List String) (fact v : String) (hmem : fact ∈ facts)
    (h : factValue kind fact = some v)
    (hall : ∀ facts', facts.Perm facts' → lastFact kind facts = lastFact kind facts') :
    lastFact kind facts = some v := by
  have hlast : facts.Perm (facts.erase fact ++ [fact]) :=
    (List.perm_cons_erase hmem).trans (List.perm_append_singleton fact (facts.erase fact)).symm
  rw [hall _ hlast]
  exact lastFact_concat kind (facts.erase fact) fact v h

/-- Every order gives the same identity exactly when the facts do not contradict each other. -/
theorem sameIdentity_perm_iff (facts : List String) :
    (∀ facts', facts.Perm facts' → SameIdentity facts facts') ↔ Consistent facts := by
  constructor
  · intro hall kind hkind fact hfact fact' hfact' v v' hv hv'
    have hsame := fun facts' h => hall facts' h kind hkind
    have hlast := lastFact_of_mem kind facts fact v hfact hv hsame
    rw [lastFact_of_mem kind facts fact' v' hfact' hv' hsame] at hlast
    exact (Option.some.inj hlast).symm
  · intro hcons facts' hperm kind hkind
    apply getLast?_eq_of_perm _ _ (hperm.filterMap (factValue kind))
    intro v hv v' hv'
    obtain ⟨fact, hfact, hv⟩ := List.mem_filterMap.mp hv
    obtain ⟨fact', hfact', hv'⟩ := List.mem_filterMap.mp hv'
    exact hcons kind hkind fact hfact fact' hfact' v v' hv hv'

/-- A block with the same facts in another order, and the same checks. -/
def Block.Rearranged (b b' : Block) : Prop := b.facts.Perm b'.facts ∧ b'.checks = b.checks

theorem mem_effectiveTools_rearranged (blocks blocks' : List Block)
    (h : List.Forall₂ Block.Rearranged blocks blocks') (tool : String) :
    tool ∈ effectiveTools blocks ↔ tool ∈ effectiveTools blocks' := by
  have hblocks : (∀ b ∈ blocks, tool ∈ b.tools) ↔ ∀ b ∈ blocks', tool ∈ b.tools := by
    induction h with
    | nil => simp
    | cons hb _ ih =>
      rw [List.forall_mem_cons, List.forall_mem_cons, ih]
      rw [Block.tools, Block.tools, (hb.1.filterMap toolName).mem_iff]
  have hnil : blocks = [] ↔ blocks' = [] := by
    cases h <;> simp
  rw [mem_effectiveTools, mem_effectiveTools, hblocks, Ne, Ne, hnil]

theorem mostRestrictiveLoop_rearranged (h : Host) (result : Option DateTime)
    (blocks blocks' : List Block) (hb : List.Forall₂ Block.Rearranged blocks blocks') :
    mostRestrictiveLoop h result (blocks.map Block.toTokenBlock) =
      mostRestrictiveLoop h result (blocks'.map Block.toTokenBlock) := by
  induction hb generalizing result with
  | nil => rfl
  | @cons b b' bs bs' hb _ ih =>
    have hchecks : b.toTokenBlock.checks = b'.toTokenBlock.checks := by
      rw [Block.toTokenBlock, Block.toTokenBlock, hb.2]
    simp only [List.map_cons, mostRestrictiveLoop, hchecks, ih]

/-! ## Time -/

/-- `now` is before every expiry, and may be compared with it. -/
def Unexpired (h : Host) (now : DateTime) (blocks : List Block) : Prop :=
  ∀ b ∈ blocks, ∀ e, b.firstExpiry h = some e → now.Before e

theorem before_trans (now e e' : DateTime) (hnow : now.Before e) (hle : e.instant ≤ e'.instant)
    (haware : e.aware = e'.aware) : now.Before e' :=
  ⟨hnow.1.trans haware, lt_of_lt_of_le hnow.2 hle⟩

/-- Of two timestamps only the earlier matters. -/
theorem before_absorbs (now a b : DateTime) (P : Prop) (hab : now.Before a → now.Before b) :
    ((∀ x, some a = some x → now.Before x) ∧ P) ↔
      (∀ x, some a = some x → now.Before x) ∧ (∀ x, some b = some x → now.Before x) ∧ P := by
  simp only [Option.some.injEq, forall_eq']
  constructor
  · rintro ⟨ha, hp⟩
    exact ⟨ha, hab ha, hp⟩
  · rintro ⟨ha, -, hp⟩
    exact ⟨ha, hp⟩

/-- The loop and the comparison after it get through exactly when nothing has expired. -/
theorem mostRestrictiveLoop_unexpired_iff (h : Host) (now : DateTime) (result : Option DateTime)
    (blocks : List Block) :
    (∃ x, mostRestrictiveLoop h result (blocks.map Block.toTokenBlock) = .ok x ∧
        expired now x = .ok false) ↔
      (∀ r, result = some r → now.Before r) ∧ Unexpired h now blocks := by
  induction blocks generalizing result with
  | nil => simp [mostRestrictiveLoop, expired_eq_false_iff, Unexpired]
  | cons b bs ih =>
    have hsplit : Unexpired h now (b :: bs) ↔
        (∀ e, b.firstExpiry h = some e → now.Before e) ∧ Unexpired h now bs :=
      List.forall_mem_cons
    rw [hsplit, List.map_cons, mostRestrictiveLoop, parseExpiryFromChecks_typed]
    cases hexp : b.firstExpiry h with
    | none =>
      have hrest := ih result
      simpa [bind, Except.bind] using hrest
    | some e =>
      cases result with
      | none =>
        have hrest := ih (some e)
        simpa [bind, Except.bind] using hrest
      | some r =>
        by_cases haware : e.aware = r.aware
        · have hlt : e.lt r = .ok (decide (e.instant < r.instant)) :=
            (DateTime.lt_eq_ok_iff e r _).mpr ⟨haware, rfl⟩
          by_cases hearlier : e.instant < r.instant
          · have hrest := ih (some e)
            simp only [bind, Except.bind, hlt, hearlier, decide_true, if_true]
            rw [hrest, and_left_comm]
            exact before_absorbs now e r _ fun hb => before_trans now e r hb hearlier.le haware
          · have hrest := ih (some r)
            simp only [bind, Except.bind, hlt, hearlier, decide_false, Bool.false_eq_true, if_false]
            rw [hrest]
            exact before_absorbs now r e _ fun hb =>
              before_trans now r e hb (not_lt.mp hearlier) haware.symm
        · have hlt : e.lt r = .error .typeError := by
            simp [DateTime.lt, haware]
          simp only [bind, Except.bind, hlt, reduceCtorEq, false_and, exists_false, false_iff]
          rintro ⟨hr, he, _⟩
          exact haware ((he e rfl).1.symm.trans (hr r rfl).1)

theorem unexpired_iff (h : Host) (now : DateTime) (blocks : List Block) :
    (∃ x, mostRestrictiveExpiry h (blocks.map Block.toTokenBlock) = .ok x ∧
      expired now x = .ok false) ↔ Unexpired h now blocks := by
  have hloop := mostRestrictiveLoop_unexpired_iff h now none blocks
  simpa [mostRestrictiveExpiry] using hloop

/-! ## Verdicts -/

/-- The same answer, with the tools compared as sets. -/
structure VerifyResult.Same (vr vr' : VerifyResult) : Prop where
  ok : vr.ok = vr'.ok
  reason : vr.reason = vr'.reason
  tenantId : vr.tenantId = vr'.tenantId
  agentId : vr.agentId = vr'.agentId
  taskId : vr.taskId = vr'.taskId
  expiresAt : vr.expiresAt = vr'.expiresAt
  tools : ∀ tool, tool ∈ vr.effectiveTools ↔ tool ∈ vr'.effectiveTools

theorem VerifyResult.Same.refl (vr : VerifyResult) : vr.Same vr :=
  ⟨rfl, rfl, rfl, rfl, rfl, rfl, fun _ => Iff.rfl⟩

/-- The same answer, or the same exception. -/
inductive SameVerdict : Except PyError VerifyResult → Except PyError VerifyResult → Prop where
  | returned (vr vr' : VerifyResult) (h : vr.Same vr') : SameVerdict (.ok vr) (.ok vr')
  | raised (e : PyError) : SameVerdict (.error e) (.error e)

theorem sameVerdict_ok_iff (vr vr' : VerifyResult) : SameVerdict (.ok vr) (.ok vr') ↔ vr.Same vr' := by
  constructor
  · intro h
    cases h
    assumption
  · exact SameVerdict.returned vr vr'

/-- Steps 10 and 11, on what the steps before them have found. -/
def judge (requiredTool expectedTenant : Option String) (expiresAt : Option DateTime)
    (effectiveTools : List String) (i : Identity) : VerifyResult :=
  if expectedTenant.isSome ∧ i.tenantId ≠ expectedTenant then
    { ok := false, reason := some "tenant_mismatch", agentId := i.agentId, taskId := i.taskId,
      tenantId := i.tenantId, expiresAt := expiresAt }
  else if requiredTool.any fun tool => tool ∉ effectiveTools then
    { ok := false, reason := some "tool_not_in_scope", effectiveTools := effectiveTools,
      agentId := i.agentId, taskId := i.taskId, tenantId := i.tenantId, expiresAt := expiresAt }
  else
    { ok := true, effectiveTools := effectiveTools, agentId := i.agentId, taskId := i.taskId,
      tenantId := i.tenantId, expiresAt := expiresAt }

section Judge

variable (requiredTool expectedTenant : Option String) (expiresAt : Option DateTime)

/-- Whatever the judgement, it tells the identity. -/
theorem judge_identity (tools : List String) (i : Identity) :
    (⟨(judge requiredTool expectedTenant expiresAt tools i).tenantId,
      (judge requiredTool expectedTenant expiresAt tools i).agentId,
      (judge requiredTool expectedTenant expiresAt tools i).taskId⟩ : Identity) = i := by
  unfold judge
  split_ifs <;> rfl

theorem judge_same (tools tools' : List String) (i : Identity)
    (htools : ∀ tool, tool ∈ tools ↔ tool ∈ tools') :
    (judge requiredTool expectedTenant expiresAt tools i).Same
      (judge requiredTool expectedTenant expiresAt tools' i) := by
  have hscope : (requiredTool.any fun tool => decide (tool ∉ tools)) =
      requiredTool.any fun tool => decide (tool ∉ tools') := by
    simp only [htools]
  unfold judge
  rw [hscope]
  split_ifs with htenant hmissing
  · exact .refl _
  · exact ⟨rfl, rfl, rfl, rfl, rfl, rfl, htools⟩
  · exact ⟨rfl, rfl, rfl, rfl, rfl, rfl, htools⟩

theorem judge_same_iff (tools tools' : List String) (i i' : Identity)
    (htools : ∀ tool, tool ∈ tools ↔ tool ∈ tools') :
    (judge requiredTool expectedTenant expiresAt tools i).Same
      (judge requiredTool expectedTenant expiresAt tools' i') ↔ i = i' := by
  constructor
  · intro hsame
    rw [← judge_identity requiredTool expectedTenant expiresAt tools i,
      ← judge_identity requiredTool expectedTenant expiresAt tools' i', hsame.tenantId,
      hsame.agentId, hsame.taskId]
  · rintro rfl
    exact judge_same requiredTool expectedTenant expiresAt tools tools' i htools

end Judge

/-- The checks after the signature: the expiry ends them, or the judgement does. -/
theorem checkBlocks_typed (h : Host) (requiredTool expectedTenant : Option String) (now : DateTime)
    (blocks : List Block) :
    checkBlocks h requiredTool expectedTenant now (blocks.map Block.toTokenBlock) =
      (do let expiresAt ← mostRestrictiveExpiry h (blocks.map Block.toTokenBlock)
          if ← expired now expiresAt then
            .ok { ok := false, reason := some "task_expired", expiresAt := expiresAt }
          else .ok (judge requiredTool expectedTenant expiresAt (effectiveTools blocks)
            (identity blocks))) := by
  unfold checkBlocks judge
  simp only [computeEffectiveTools_typed, extractIdentity_typed, bind, Except.bind]
  split
  · rfl
  · split
    · rfl
    · split_ifs <;> rfl

theorem checkBlocks_rearranged_iff (h : Host) (requiredTool expectedTenant : Option String)
    (now : DateTime) (blocks blocks' : List Block)
    (hb : List.Forall₂ Block.Rearranged blocks blocks') :
    SameVerdict (checkBlocks h requiredTool expectedTenant now (blocks.map Block.toTokenBlock))
        (checkBlocks h requiredTool expectedTenant now (blocks'.map Block.toTokenBlock)) ↔
      (Unexpired h now blocks →
        SameIdentity (authorityFacts blocks) (authorityFacts blocks')) := by
  have htools := mem_effectiveTools_rearranged blocks blocks' hb
  have hexpiry : mostRestrictiveExpiry h (blocks.map Block.toTokenBlock) =
      mostRestrictiveExpiry h (blocks'.map Block.toTokenBlock) :=
    mostRestrictiveLoop_rearranged h none blocks blocks' hb
  rw [checkBlocks_typed, checkBlocks_typed, ← hexpiry, ← unexpired_iff, ← identity_eq_iff]
  cases hloop : mostRestrictiveExpiry h (blocks.map Block.toTokenBlock) with
  | error err =>
    have hsame : SameVerdict (.error err) (.error err) := .raised err
    simp [bind, Except.bind, hsame]
  | ok x =>
    cases hlate : expired now x with
    | error err =>
      have hsame : SameVerdict (.error err) (.error err) := .raised err
      simp [bind, Except.bind, hlate, hsame]
    | ok late =>
      cases late with
      | true =>
        simp [bind, Except.bind, hlate, sameVerdict_ok_iff, VerifyResult.Same.refl]
      | false =>
        have hjudge := judge_same_iff requiredTool expectedTenant x _ _ (identity blocks)
          (identity blocks') htools
        simpa [bind, Except.bind, hlate, sameVerdict_ok_iff] using hjudge

/-! ## Tokens -/

/-- What `verify_local` does with a signed token that carries a typed biscuit. -/
theorem verifyLocal_signed {h : Host} {token : String} (e : Envelope h token) (t : Biscuit)
    (ht : Biscuit.ofPayload e.raw = some t) (keyring : Keyring)
    (activeKid requiredTool expectedTenant : Option String) (now : Option DateTime)
    (utcNow : DateTime) (hsigned : e.Signed keyring activeKid) :
    verifyLocal h token keyring activeKid requiredTool expectedTenant now utcNow =
      if t.blocks = [] then .ok (.denied "token_invalid")
      else checkBlocks h requiredTool expectedTenant (now.getD utcNow)
        (t.blocks.map Block.toTokenBlock) := by
  obtain ⟨kvs, hraw⟩ : ∃ kvs, e.raw = .dict kvs := by
    cases hraw : e.raw <;> simp_all [Biscuit.ofPayload]
  have hget := e.kid_of_dict kvs hraw
  have hkid : e.kid = .str t.kid := by
    rw [kid_ofPayload e.raw t ht, Except.ok.injEq] at hget
    exact hget.symm
  obtain ⟨keys, hkeys, -⟩ := verifyKeys_str keyring activeKid t.kid
  rw [← hkid] at hkeys
  obtain ⟨ks, rfl, hany⟩ := (e.signed_iff_any keyring activeKid keys hkeys).mp hsigned
  rw [verifyLocal_envelope h token e]
  unfold verifyPayload
  simp only [e.parses, hget, hkeys, bind, Except.bind, hany, if_true]
  rw [parseBlocks_ofPayload e.raw t ht]
  by_cases hnil : t.blocks = []
  · rw [if_pos hnil, if_pos hnil]
  · rw [if_neg hnil, if_neg hnil]

/-- **Facts are a set, the identity facts aside.** Two signed tokens that differ in the order of the
facts in their blocks get the same verdict exactly when the tokens have expired, or the last tenant,
agent and task facts of their authority blocks agree. All orders agree exactly when no two facts of
one of these kinds contradict each other. -/
theorem rearranged_iff {h : Host} {token token' : String} (e : Envelope h token)
    (e' : Envelope h token') (t t' : Biscuit) (ht : Biscuit.ofPayload e.raw = some t)
    (ht' : Biscuit.ofPayload e'.raw = some t') (keyring : Keyring)
    (activeKid requiredTool expectedTenant : Option String) (now : Option DateTime)
    (utcNow : DateTime) (hsigned : e.Signed keyring activeKid) (hsigned' : e'.Signed keyring activeKid)
    (hblocks : List.Forall₂ Block.Rearranged t.blocks t'.blocks) :
    (SameVerdict
        (verifyLocal h token keyring activeKid requiredTool expectedTenant now utcNow)
        (verifyLocal h token' keyring activeKid requiredTool expectedTenant now utcNow) ↔
      (Unexpired h (now.getD utcNow) t.blocks →
        SameIdentity (authorityFacts t.blocks) (authorityFacts t'.blocks))) ∧
    ((∀ facts', (authorityFacts t.blocks).Perm facts' →
        SameIdentity (authorityFacts t.blocks) facts') ↔ Consistent (authorityFacts t.blocks)) := by
  refine ⟨?_, sameIdentity_perm_iff (authorityFacts t.blocks)⟩
  rw [verifyLocal_signed e t ht keyring activeKid requiredTool expectedTenant now utcNow hsigned,
    verifyLocal_signed e' t' ht' keyring activeKid requiredTool expectedTenant now utcNow hsigned']
  by_cases hnil : t.blocks = []
  · have hnil' : t'.blocks = [] := by
      rw [hnil] at hblocks
      exact List.forall₂_nil_left_iff.mp hblocks
    have hsame : SameIdentity (authorityFacts t.blocks) (authorityFacts t'.blocks) := by
      rw [hnil, hnil']
      exact fun _ _ => rfl
    rw [if_pos hnil, if_pos hnil', sameVerdict_ok_iff]
    exact ⟨fun _ _ => hsame, fun _ => .refl _⟩
  · have hnil' : t'.blocks ≠ [] := by
      intro hnil'
      rw [hnil'] at hblocks
      exact hnil (List.forall₂_nil_right_iff.mp hblocks)
    rw [if_neg hnil, if_neg hnil']
    exact checkBlocks_rearranged_iff h requiredTool expectedTenant (now.getD utcNow) t.blocks
      t'.blocks hblocks

/-! ## Two tenants -/

def tenantsKey : List UInt8 :=
  [138, 100, 128, 237, 245, 158, 154, 54, 33, 143, 5, 193, 55, 183, 16, 19, 237, 102, 47, 192, 53,
    219, 52, 59, 184, 105, 190, 226, 228, 30, 236, 156]

def tenantsKeyring : Keyring := ⟨[("k", tenantsKey)], List.nodup_singleton _⟩

def tenantsPayload : { cs : List Char // String.ofList cs =
    "eyJraWQiOiJrIiwiYmxvY2tzIjpbeyJmYWN0cyI6WyJ0ZW5hbnQodCkiLCJ0ZW5hbnQodSkiXSwiY2hlY2tzIjpbXX1dfQ" } :=
  ⟨_, rfl⟩

def tenantsSig : { cs : List Char // String.ofList cs =
    "oCLdOSGGv9ZQeyZaoM6msc3de33i88FYMuRKFRlvLeyMGRVd0cZoWaUp60hkMDz9ozkAOxF0yB8zfHrM1tcXCA" } :=
  ⟨_, rfl⟩

def swappedPayload : { cs : List Char // String.ofList cs =
    "eyJraWQiOiJrIiwiYmxvY2tzIjpbeyJmYWN0cyI6WyJ0ZW5hbnQodSkiLCJ0ZW5hbnQodCkiXSwiY2hlY2tzIjpbXX1dfQ" } :=
  ⟨_, rfl⟩

def swappedSig : { cs : List Char // String.ofList cs =
    "Ueh3EsLsYasGsmPWHN6KsHo-jx7JJ3ah2dZAG_SODItaPEwFQicdRc1SXyv-QLrsAbuCj4TUJ9RLpd-dZfgJAw" } :=
  ⟨_, rfl⟩

def tenantsBlock : Block := ⟨["tenant(t)", "tenant(u)"], []⟩

def swappedBlock : Block := ⟨["tenant(u)", "tenant(t)"], []⟩

def factsVal (facts : List String) : PyVal :=
  .dict [(.str "kid", .str "k"), (.str "blocks", .list [
    .dict [(.str "facts", .list (facts.map .str)), (.str "checks", .list [])]])]

/-- An authority block that names two tenants. -/
def tenantsText : SignedText :=
  ⟨tenantsPayload.val, tenantsSig.val, factsVal tenantsBlock.facts⟩

/-- The same facts in the other order. -/
def swappedText : SignedText :=
  ⟨swappedPayload.val, swappedSig.val, factsVal swappedBlock.facts⟩

def tenantsHost : Host := tableHost tenantsKey [tenantsText, swappedText] [] fun _ => ""

theorem tenantsText_carries : tenantsText.Carries tenantsHost ⟨"k", [tenantsBlock]⟩ where
  dotFree := by decide +kernel
  payload_ne := by simp [tenantsText, tenantsPayload]
  sig_ne := by simp [tenantsText, tenantsSig]
  payload_decodes := by decide +kernel
  sig_decodes := by decide +kernel
  parses := tableHost_parses _ _ _ _ _ 0 tenantsText (by decide +kernel) rfl
  typed := by decide +kernel
  aware := by decide +kernel

theorem swappedText_carries : swappedText.Carries tenantsHost ⟨"k", [swappedBlock]⟩ where
  dotFree := by decide +kernel
  payload_ne := by simp [swappedText, swappedPayload]
  sig_ne := by simp [swappedText, swappedSig]
  payload_decodes := by decide +kernel
  sig_decodes := by decide +kernel
  parses := tableHost_parses _ _ _ _ _ 1 swappedText (by decide +kernel) rfl
  typed := by decide +kernel
  aware := by decide +kernel

def tenantsReading : Reading tenantsHost tenantsText.token :=
  tenantsText.reading ⟨"k", [tenantsBlock]⟩ tenantsText_carries

def swappedReading : Reading tenantsHost swappedText.token :=
  swappedText.reading ⟨"k", [swappedBlock]⟩ swappedText_carries

theorem tenantsReading_signed : tenantsReading.toEnvelope.Signed tenantsKeyring none :=
  ⟨tenantsKey, ⟨"k", rfl, .named (by decide) rfl⟩, by decide +kernel⟩

theorem swappedReading_signed : swappedReading.toEnvelope.Signed tenantsKeyring none :=
  ⟨tenantsKey, ⟨"k", rfl, .named (by decide) rfl⟩, by decide +kernel⟩

theorem tenants_rearranged : List.Forall₂ Block.Rearranged [tenantsBlock] [swappedBlock] :=
  .cons ⟨List.Perm.swap _ _ _, rfl⟩ .nil

theorem rearranged_iff_tenants :
    SameVerdict
        (verifyLocal tenantsHost tenantsText.token tenantsKeyring none none none none start2030)
        (verifyLocal tenantsHost swappedText.token tenantsKeyring none none none none start2030) ↔
      (Unexpired tenantsHost start2030 [tenantsBlock] →
        SameIdentity ["tenant(t)", "tenant(u)"] ["tenant(u)", "tenant(t)"]) :=
  (rearranged_iff tenantsReading.toEnvelope swappedReading.toEnvelope ⟨"k", [tenantsBlock]⟩
    ⟨"k", [swappedBlock]⟩ tenantsReading.typed swappedReading.typed tenantsKeyring none none none none
    start2030 tenantsReading_signed swappedReading_signed tenants_rearranged).1

/-- Of two signed tokens with the same facts one is refused and the other accepted. -/
theorem tenant_order_decides :
    List.Forall₂ Block.Rearranged tenantsReading.biscuit.blocks swappedReading.biscuit.blocks ∧
      (∃ vr, verifyLocal tenantsHost tenantsText.token tenantsKeyring none none (some "t") none
        start2030 = .ok vr ∧ vr.ok = false ∧ vr.reason = some "tenant_mismatch") ∧
      (∃ vr, verifyLocal tenantsHost swappedText.token tenantsKeyring none none (some "t") none
        start2030 = .ok vr ∧ vr.ok = true) := by
  have hrefused := verifyLocal_signed tenantsReading.toEnvelope ⟨"k", [tenantsBlock]⟩
    tenantsReading.typed tenantsKeyring none none (some "t") none start2030 tenantsReading_signed
  have haccepted := verifyLocal_signed swappedReading.toEnvelope ⟨"k", [swappedBlock]⟩
    swappedReading.typed tenantsKeyring none none (some "t") none start2030 swappedReading_signed
  refine ⟨tenants_rearranged, ?_, ?_⟩
  · rw [hrefused]
    exact ⟨_, rfl, by decide +kernel, by decide +kernel⟩
  · rw [haccepted]
    exact ⟨_, rfl, by decide +kernel⟩

end Sigil.Verify
