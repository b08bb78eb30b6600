import Mathlib.Data.List.Basic

/-! # Well-nested blocks

A program enters blocks and leaves them, the innermost first. A `Discipline` says what entering and
leaving do to a state; a block that refuses to be entered is passed over. `Restores` says that every
block leaves what `view` sees of the state as it was found. The rules are for disciplines in which
whether a block can be entered does not depend on what has happened before (`Steady`).
-/
set_option autoImplicit false

namespace Blocks

/-- A sequence of blocks, each with the sequence inside it. -/
inductive Nest (β : Type) where
  | done
  | block (b : β) (body rest : Nest β)

structure Discipline (β σ : Type) where
  /-- whether the block is entered, and the state afterwards -/
  enter : β → σ → Bool × σ
  exit : β → σ → σ

/-- A block, from before it is entered to after it is left. -/
structure Visit (β σ : Type) where
  block : β
  depth : ℕ
  before : σ
  after : σ

variable {β σ γ : Type}

/-- The state after a block whose body takes `s` to `body s`. -/
def Discipline.around (D : Discipline β σ) (b : β) (body : σ → σ) (s : σ) : σ :=
  match D.enter b s with
  | (true, s') => D.exit b (body s')
  | (false, s') => s'

namespace Nest

def run (D : Discipline β σ) : Nest β → σ → σ
  | done, s => s
  | block b body rest, s => run D rest (D.around b (run D body) s)

def visits (D : Discipline β σ) : Nest β → ℕ → σ → List (Visit β σ)
  | done, _, _ => []
  | block b body rest, depth, s =>
    let inner := match D.enter b s with
      | (true, s') => visits D body (depth + 1) s'
      | (false, _) => []
    inner ++ ⟨b, depth, s, D.around b (run D body) s⟩ ::
      visits D rest depth (D.around b (run D body) s)

section Steps

variable {D : Discipline β σ} {b : β} {body rest : Nest β} {s s' : σ} {depth : ℕ}

theorem run_entered (h : D.enter b s = (true, s')) :
    (block b body rest).run D s = rest.run D (D.exit b (body.run D s')) := by
  rw [run, Discipline.around, h]

theorem run_refused (h : D.enter b s = (false, s')) :
    (block b body rest).run D s = rest.run D s' := by
  rw [run, Discipline.around, h]

theorem visits_entered (h : D.enter b s = (true, s')) : (block b body rest).visits D depth s =
    body.visits D (depth + 1) s' ++ ⟨b, depth, s, D.exit b (body.run D s')⟩ ::
      rest.visits D depth (D.exit b (body.run D s')) := by
  rw [visits, Discipline.around, h]

theorem visits_refused (h : D.enter b s = (false, s')) : (block b body rest).visits D depth s =
    ⟨b, depth, s, s'⟩ :: rest.visits D depth s' := by
  rw [visits, Discipline.around, h]
  rfl

end Steps

/-- Induction along a run. -/
theorem induct (D : Discipline β σ) {motive : Nest β → σ → Prop} (hdone : ∀ s, motive done s)
    (hrefused : ∀ b body rest s s', D.enter b s = (false, s') → motive rest s' →
      motive (block b body rest) s)
    (hentered : ∀ b body rest s s', D.enter b s = (true, s') → motive body s' →
      motive rest (D.exit b (body.run D s')) → motive (block b body rest) s)
    (p : Nest β) (s : σ) : motive p s := by
  induction p generalizing s with
  | done => exact hdone s
  | block b body rest ihbody ihrest =>
    cases h : D.enter b s with
    | mk entered s' =>
      cases entered with
      | true => exact hentered b body rest s s' h (ihbody s') (ihrest _)
      | false => exact hrefused b body rest s s' h (ihrest s')

/-! ## What is restored -/

/-- Every block leaves the view as it found it. -/
def Restores (D : Discipline β σ) (view : σ → γ) (p : Nest β) (depth : ℕ) (s : σ) : Prop :=
  ∀ v ∈ p.visits D depth s, view v.after = view v.before

section Restores

variable {D : Discipline β σ} {view : σ → γ} {b : β} {body rest : Nest β} {s s' : σ} {depth : ℕ}

theorem restores_done : Restores D view done depth s := by simp [Restores, visits]

theorem restores_entered (h : D.enter b s = (true, s')) :
    Restores D view (block b body rest) depth s ↔ Restores D view body (depth + 1) s' ∧
      view (D.exit b (body.run D s')) = view s ∧
        Restores D view rest depth (D.exit b (body.run D s')) := by
  unfold Restores
  rw [visits_entered h, List.forall_mem_append, List.forall_mem_cons]

theorem restores_refused (h : D.enter b s = (false, s')) :
    Restores D view (block b body rest) depth s ↔
      view s' = view s ∧ Restores D view rest depth s' := by
  unfold Restores
  rw [visits_refused h, List.forall_mem_cons]

/-- A sequence of blocks that restore the view restores it. -/
theorem Restores.run {p : Nest β} (hp : Restores D view p depth s) : view (p.run D s) = view s := by
  induction p, s using induct D with
  | hdone s => rfl
  | hrefused b body rest s s' h ihrest =>
    obtain ⟨hblock, hrest⟩ := (restores_refused h).mp hp
    rw [run_refused h, ihrest hrest, hblock]
  | hentered b body rest s s' h _ ihrest =>
    obtain ⟨-, hblock, hrest⟩ := (restores_entered h).mp hp
    rw [run_entered h, ihrest hrest, hblock]

theorem depth_le {p : Nest β} (v : Visit β σ) (hv : v ∈ p.visits D depth s) : depth ≤ v.depth := by
  induction p, s using induct D generalizing depth with
  | hdone s => cases hv
  | hrefused b body rest s s' h ihrest =>
    rw [visits_refused h] at hv
    rcases List.mem_cons.mp hv with rfl | hv
    · exact Nat.le_refl depth
    · exact ihrest hv
  | hentered b body rest s s' h ihbody ihrest =>
    rw [visits_entered h] at hv
    rcases List.mem_append.mp hv with hv | hv
    · have hbody := ihbody hv
      omega
    · rcases List.mem_cons.mp hv with rfl | hv
      · exact Nat.le_refl depth
      · exact ihrest hv

/-- The outermost blocks are all entered in what is seen at the start. -/
theorem Restores.outermost {p : Nest β} (hp : Restores D view p depth s) (v : Visit β σ)
    (hv : v ∈ p.visits D depth s) (hdepth : v.depth = depth) : view v.before = view s := by
  induction p, s using induct D with
  | hdone s => cases hv
  | hrefused b body rest s s' h ihrest =>
    obtain ⟨hblock, hrest⟩ := (restores_refused h).mp hp
    rw [visits_refused h] at hv
    rcases List.mem_cons.mp hv with rfl | hv
    · rfl
    · exact (ihrest hrest hv).trans hblock
  | hentered b body rest s s' h _ ihrest =>
    obtain ⟨-, hblock, hrest⟩ := (restores_entered h).mp hp
    rw [visits_entered h] at hv
    rcases List.mem_append.mp hv with hv | hv
    · have hbody := depth_le v hv
      omega
    · rcases List.mem_cons.mp hv with rfl | hv
      · rfl
      · exact (ihrest hrest hv).trans hblock

end Restores

/-! ## Steady disciplines -/

/-- In the states in `I`, a block can be entered exactly if it `opens`. -/
structure Steady (D : Discipline β σ) (I : σ → Prop) (opens : β → Bool) : Prop where
  opens : ∀ b s, I s → (D.enter b s).1 = opens b
  enter : ∀ b s, I s → I (D.enter b s).2
  exit : ∀ b s, I s → I (D.exit b s)

/-- Some block that is entered has the property. -/
def Any (opens : β → Bool) (P : β → Prop) : Nest β → Prop
  | done => False
  | block b body rest => (opens b = true ∧ (P b ∨ Any opens P body)) ∨ Any opens P rest

/-- Every block that is entered stands in `R` to its body. -/
def Each (opens : β → Bool) (R : β → Nest β → Prop) : Nest β → Prop
  | done => True
  | block b body rest => (opens b = true → R b body ∧ Each opens R body) ∧ Each opens R rest

section Steady

variable {D : Discipline β σ} {I : σ → Prop} {opens : β → Bool}

theorem Steady.run (hD : Steady D I opens) (p : Nest β) (s : σ) (hs : I s) : I (p.run D s) := by
  induction p, s using induct D with
  | hdone s => exact hs
  | hrefused b body rest s s' h ihrest =>
    have henter := hD.enter b s hs
    rw [h] at henter
    rw [run_refused h]
    exact ihrest henter
  | hentered b body rest s s' h ihbody ihrest =>
    have henter := hD.enter b s hs
    rw [h] at henter
    rw [run_entered h]
    exact ihrest (hD.exit b _ (ihbody henter))

/-- Induction along a run in the states in `I`. -/
theorem Steady.induct (hD : Steady D I opens) {motive : Nest β → σ → Prop}
    (hdone : ∀ s, I s → motive done s)
    (hrefused : ∀ b body rest s s', I s → opens b = false → D.enter b s = (false, s') →
      motive rest s' → motive (block b body rest) s)
    (hentered : ∀ b body rest s s', I s → opens b = true → D.enter b s = (true, s') → I s' →
      motive body s' → motive rest (D.exit b (body.run D s')) → motive (block b body rest) s)
    (p : Nest β) (s : σ) (hs : I s) : motive p s := by
  induction p, s using Nest.induct D with
  | hdone s => exact hdone s hs
  | hrefused b body rest s s' h ihrest =>
    have hopens := hD.opens b s hs
    have henter := hD.enter b s hs
    rw [h] at hopens henter
    exact hrefused b body rest s s' hs hopens.symm h (ihrest henter)
  | hentered b body rest s s' h ihbody ihrest =>
    have hopens := hD.opens b s hs
    have henter := hD.enter b s hs
    rw [h] at hopens henter
    have hexit : I (D.exit b (body.run D s')) := hD.exit b _ (hD.run body s' henter)
    exact hentered b body rest s s' hs hopens.symm h henter (ihbody henter) (ihrest hexit)

/-- **Frame.** What only blocks with a property touch is untouched where no such block is entered. -/
theorem Steady.frame (hD : Steady D I opens) (view : σ → γ) (P : β → Prop)
    (hrefused : ∀ b s, I s → opens b = false → view (D.enter b s).2 = view s)
    (hentered : ∀ b s, I s → opens b = true → ¬ P b → view (D.enter b s).2 = view s)
    (hexit : ∀ b s, ¬ P b → view (D.exit b s) = view s)
    (p : Nest β) (s : σ) (hs : I s) (hp : ¬ p.Any opens P) : view (p.run D s) = view s := by
  refine hD.induct (motive := fun p s => ¬ p.Any opens P → view (p.run D s) = view s)
    ?_ ?_ ?_ p s hs hp
  · intro s _ _
    rfl
  · intro b body rest s s' hs hopens h ihrest hp
    have hview := hrefused b s hs hopens
    rw [h] at hview
    rw [run_refused h, ihrest fun hany => hp (Or.inr hany), hview]
  · intro b body rest s s' hs hopens h _ ihbody ihrest hp
    have hb : ¬ P b := fun hb => hp (Or.inl ⟨hopens, Or.inl hb⟩)
    have hbody : ¬ body.Any opens P := fun hany => hp (Or.inl ⟨hopens, Or.inr hany⟩)
    have hview := hentered b s hs hopens hb
    rw [h] at hview
    rw [run_entered h, ihrest fun hany => hp (Or.inr hany), hexit b _ hb, ihbody hbody, hview]

end Steady

end Nest

end Blocks
