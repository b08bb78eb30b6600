import Sigil.Library.OrderedDict
import Sigil.Python.Value

/-! # The revocation registry of the kill-switch subscriber

`_RevocationSubscriber` keeps a bounded, insertion-ordered map from agent and task ids to denial
reasons. `apply` is `_apply` on a payload whose fields are strings or absent; each call runs under
the registry lock, so it is one step. `isRevoked` is the look-up the decorators make.

The registry evicts first in, first out, and assigning to a present key does not move it: a flood
of revocations of our own tasks does push the agent's entry out in the middle of `apply`. It is
always put back, because every accepted payload ends by assigning the agent's id
(`apply_accepted`), and no other payload touches the registry (`apply_rejected`).
-/
set_option autoImplicit false

namespace Sigil.Revocation

def revokedMax : ℕ := 10000

/-- A revocation message; `none` is an absent field. -/
structure Payload where
  scope : Option String
  reason : Option String
  agentId : Option String
  taskId : Option String
  tenantId : Option String
  deriving DecidableEq, Repr

structure RevocationSubscriber where
  tenantId : String
  agentId : String
  revoked : OrderedDict String String

namespace RevocationSubscriber

/-- `__init__`: the registry starts empty. -/
def init (tenantId agentId : String) : RevocationSubscriber where
  tenantId := tenantId
  agentId := agentId
  revoked := OrderedDict.empty

def isRevoked (s : RevocationSubscriber) (agentId : String) (taskId : Option String) : Bool :=
  if agentId ≠ "" ∧ agentId ∈ s.revoked.keys then true
  else match taskId with
    | some t => decide (t ≠ "" ∧ t ∈ s.revoked.keys)
    | none => false

def setRevoked (s : RevocationSubscriber) (key reason : String) : RevocationSubscriber :=
  { s with revoked := (s.revoked.assign key reason).evict revokedMax }

def apply (s : RevocationSubscriber) (payload : Payload) : RevocationSubscriber :=
  let scope := payload.scope.getD ""
  let reason := strOr payload.reason "agent_revoked"
  let paId := payload.agentId.getD ""
  let ptId := payload.taskId.getD ""
  let ptenant := payload.tenantId.getD ""
  let tenantOk : Bool := ptenant = "" || ptenant = s.tenantId
  if scope = "tenant" then
    if ptenant = s.tenantId ∧ s.agentId ≠ "" then s.setRevoked s.agentId reason else s
  else if scope = "agent" then
    if paId = s.agentId ∧ tenantOk then s.setRevoked paId reason else s
  else if scope = "task" ∨ scope = "single" then
    let s₁ := if tenantOk ∧ paId = s.agentId ∧ ptId ≠ "" then s.setRevoked ptId reason else s
    if tenantOk ∧ paId = s.agentId then s₁.setRevoked paId reason else s₁
  else s

def applyAll (s : RevocationSubscriber) (payloads : List Payload) : RevocationSubscriber :=
  payloads.foldl apply s

/-! ## What one assignment does -/

theorem setRevoked_size_le (s : RevocationSubscriber) (k r : String) :
    (s.setRevoked k r).revoked.size ≤ revokedMax :=
  OrderedDict.size_evict_le _ _

theorem setRevoked_mem (s : RevocationSubscriber) (k r : String)
    (h : s.revoked.size ≤ revokedMax) : k ∈ (s.setRevoked k r).revoked.keys :=
  OrderedDict.mem_assign_self _ _ _ _ (by decide) h

/-! ## Which payloads count -/

/-- The payloads this subscriber acts on: a tenant-wide kill of our tenant, or a kill of our agent
(directly or through one of its tasks) that names our tenant or none. An absent field reads as the
empty string. -/
def Accepted (s : RevocationSubscriber) (p : Payload) : Prop :=
  (p.scope.getD "" = "tenant" ∧ p.tenantId.getD "" = s.tenantId) ∨
    (p.scope.getD "" ∈ ["agent", "task", "single"] ∧ p.agentId.getD "" = s.agentId ∧
      (p.tenantId.getD "" = "" ∨ p.tenantId.getD "" = s.tenantId))

/-- The registry stays within its bound, and once it holds anything it holds our agent. -/
structure Registered (s : RevocationSubscriber) : Prop where
  bounded : s.revoked.size ≤ revokedMax
  holdsAgent : s.revoked.keys ≠ [] → s.agentId ∈ s.revoked.keys

theorem init_registered (tenantId agentId : String) : Registered (init tenantId agentId) where
  bounded := Nat.zero_le _
  holdsAgent := fun h => absurd rfl h

theorem setRevoked_registered (s : RevocationSubscriber) (r : String)
    (h : s.revoked.size ≤ revokedMax) : Registered (s.setRevoked s.agentId r) where
  bounded := setRevoked_size_le _ _ _
  holdsAgent := fun _ => setRevoked_mem _ _ _ h

/-- An accepted payload ends with the agent's own assignment, whatever was assigned before it. -/
theorem apply_accepted_eq (s : RevocationSubscriber) (p : Payload) (ha : s.agentId ≠ "")
    (hp : s.Accepted p) : ∃ s₁ r, s.apply p = setRevoked s₁ s.agentId r ∧
      s₁.agentId = s.agentId ∧ s₁.tenantId = s.tenantId ∧
      (s.revoked.size ≤ revokedMax → s₁.revoked.size ≤ revokedMax) := by
  rcases hp with ⟨hscope, htenant⟩ | ⟨hscope, hagent, htenant⟩
  · exact ⟨s, strOr p.reason "agent_revoked", by simp [apply, hscope, htenant, ha], rfl, rfl, id⟩
  · have htask : p.scope.getD "" = "task" ∨ p.scope.getD "" = "single" →
        ∃ s₁ r, s.apply p = setRevoked s₁ s.agentId r ∧ s₁.agentId = s.agentId ∧
          s₁.tenantId = s.tenantId ∧
          (s.revoked.size ≤ revokedMax → s₁.revoked.size ≤ revokedMax) := by
      intro h
      refine ⟨if p.taskId.getD "" ≠ "" then s.setRevoked (p.taskId.getD "")
        (strOr p.reason "agent_revoked") else s, strOr p.reason "agent_revoked", ?_, ?_, ?_, ?_⟩
      · rcases h with h | h <;> simp [apply, h, hagent, htenant]
      · split <;> rfl
      · split <;> rfl
      · intro hs
        split
        · exact setRevoked_size_le _ _ _
        · exact hs
    simp only [List.mem_cons, List.not_mem_nil, or_false] at hscope
    rcases hscope with h | h | h
    · exact ⟨s, strOr p.reason "agent_revoked", by simp [apply, h, hagent, htenant], rfl, rfl, id⟩
    · exact htask (Or.inl h)
    · exact htask (Or.inr h)

theorem apply_rejected (s : RevocationSubscriber) (p : Payload) (hp : ¬ s.Accepted p) :
    s.apply p = s := by
  have hno : p.scope.getD "" ∈ ["agent", "task", "single"] → ¬ ((p.tenantId.getD "" = "" ∨
      p.tenantId.getD "" = s.tenantId) ∧ p.agentId.getD "" = s.agentId) :=
    fun hscope h => hp (Or.inr ⟨hscope, h.2, h.1⟩)
  simp only [List.mem_cons, List.not_mem_nil, or_false] at hno
  simp only [apply, Bool.or_eq_true, decide_eq_true_eq]
  split
  · next h => exact if_neg fun ht => hp (Or.inl ⟨h, ht.1⟩)
  · split
    · next h => exact if_neg fun ht => hno (Or.inl h) ⟨ht.2, ht.1⟩
    · split
      · next h =>
        rw [if_neg (hno (Or.inr h)), if_neg fun ht => hno (Or.inr h) ⟨ht.1, ht.2.1⟩]
      · rfl

@[simp] theorem apply_agentId (s : RevocationSubscriber) (p : Payload) :
    (s.apply p).agentId = s.agentId := by
  simp only [apply]
  split_ifs <;> rfl

@[simp] theorem apply_tenantId (s : RevocationSubscriber) (p : Payload) :
    (s.apply p).tenantId = s.tenantId := by
  simp only [apply]
  split_ifs <;> rfl

theorem accepted_apply_iff (s : RevocationSubscriber) (p q : Payload) :
    (s.apply p).Accepted q ↔ s.Accepted q := by
  simp [Accepted]

/-! ## One payload -/

theorem apply_accepted (s : RevocationSubscriber) (p : Payload) (ha : s.agentId ≠ "")
    (hs : s.Registered) (hp : s.Accepted p) :
    (s.apply p).Registered ∧ s.agentId ∈ (s.apply p).revoked.keys := by
  obtain ⟨s₁, r, heq, hagent, -, hsize⟩ := apply_accepted_eq s p ha hp
  have hb := hsize hs.bounded
  rw [heq, ← hagent]
  exact ⟨setRevoked_registered s₁ r hb, setRevoked_mem s₁ _ r hb⟩

theorem apply_registered (s : RevocationSubscriber) (p : Payload) (ha : s.agentId ≠ "")
    (hs : s.Registered) : (s.apply p).Registered := by
  by_cases hp : s.Accepted p
  · exact (apply_accepted s p ha hs hp).1
  · rw [apply_rejected s p hp]
    exact hs

/-- One payload fills an empty registry exactly when it is accepted, and never empties one. -/
theorem apply_nonempty_iff (s : RevocationSubscriber) (p : Payload) (ha : s.agentId ≠ "")
    (hs : s.Registered) :
    (s.apply p).revoked.keys ≠ [] ↔ s.revoked.keys ≠ [] ∨ s.Accepted p := by
  by_cases hp : s.Accepted p
  · have hmem := (apply_accepted s p ha hs hp).2
    simp [hp, List.ne_nil_of_mem hmem]
  · simp [hp, apply_rejected s p hp]

/-! ## Whole histories -/

@[simp] theorem applyAll_agentId (s : RevocationSubscriber) (ps : List Payload) :
    (s.applyAll ps).agentId = s.agentId := by
  induction ps generalizing s with
  | nil => rfl
  | cons p ps ih => exact (ih (s.apply p)).trans (apply_agentId s p)

theorem applyAll_registered (s : RevocationSubscriber) (ps : List Payload) (ha : s.agentId ≠ "")
    (hs : s.Registered) : (s.applyAll ps).Registered := by
  induction ps generalizing s with
  | nil => exact hs
  | cons p ps ih => exact ih (s.apply p) (by simpa using ha) (apply_registered s p ha hs)

theorem applyAll_nonempty_iff (s : RevocationSubscriber) (ps : List Payload) (ha : s.agentId ≠ "")
    (hs : s.Registered) :
    (s.applyAll ps).revoked.keys ≠ [] ↔ s.revoked.keys ≠ [] ∨ ∃ p ∈ ps, s.Accepted p := by
  induction ps generalizing s with
  | nil => simp [applyAll]
  | cons p ps ih =>
    have hstep := ih (s.apply p) (by simpa using ha) (apply_registered s p ha hs)
    rw [apply_nonempty_iff s p ha hs] at hstep
    simp only [accepted_apply_iff] at hstep
    simpa [applyAll, or_assoc] using hstep

theorem isRevoked_own_iff (s : RevocationSubscriber) (t : Option String) (ha : s.agentId ≠ "")
    (hs : s.Registered) : s.isRevoked s.agentId t = true ↔ s.revoked.keys ≠ [] := by
  constructor
  · intro h hnil
    simp only [isRevoked, hnil, List.not_mem_nil, and_false, if_false] at h
    cases t <;> simp at h
  · intro h
    simp [isRevoked, ha, hs.holdsAgent h]

theorem init_isRevoked_iff (tenantId agentId : String) (ha : agentId ≠ "") (ps : List Payload)
    (t : Option String) : ((init tenantId agentId).applyAll ps).isRevoked agentId t = true ↔
      ∃ p ∈ ps, (init tenantId agentId).Accepted p := by
  have hs := init_registered tenantId agentId
  have hagent : ((init tenantId agentId).applyAll ps).agentId = agentId := applyAll_agentId _ ps
  have hown := isRevoked_own_iff _ t (by rw [hagent]; exact ha) (applyAll_registered _ ps ha hs)
  rw [hagent, applyAll_nonempty_iff _ ps ha hs] at hown
  simpa [init] using hown

/-- **Exact, permanent, bounded.** After any history of payloads the registry is within its bound,
holds our agent as soon as it holds anything, and reports our agent revoked (whatever the task)
exactly when some payload of the history was accepted. -/
theorem registry_exact (tenantId agentId : String) (ha : agentId ≠ "") (ps : List Payload) :
    ((init tenantId agentId).applyAll ps).revoked.size ≤ 10000 ∧
    (((init tenantId agentId).applyAll ps).revoked.keys ≠ [] →
      agentId ∈ ((init tenantId agentId).applyAll ps).revoked.keys) ∧
    ∀ t : Option String, ((init tenantId agentId).applyAll ps).isRevoked agentId t = true ↔
      ∃ p ∈ ps, (init tenantId agentId).Accepted p := by
  have hfinal := applyAll_registered _ ps ha (init_registered tenantId agentId)
  refine ⟨hfinal.bounded, ?_, init_isRevoked_iff tenantId agentId ha ps⟩
  intro h
  have hagent : ((init tenantId agentId).applyAll ps).agentId = agentId := applyAll_agentId _ ps
  simpa only [hagent] using hfinal.holdsAgent h

theorem registry_exact_tenant_kill :
    ((init "t" "a").applyAll [⟨some "tenant", none, none, none, some "t"⟩]).isRevoked "a" none =
      true :=
  ((registry_exact "t" "a" (by decide) [⟨some "tenant", none, none, none, some "t"⟩]).2.2 none).mpr
    ⟨_, List.mem_singleton_self _, Or.inl ⟨rfl, rfl⟩⟩

end RevocationSubscriber

end Sigil.Revocation
