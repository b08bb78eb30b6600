import Sigil.Audit.Flusher
import Sigil.Library.Shared
import Mathlib.Algebra.Order.BigOperators.Group.Finset
import Mathlib.Data.Fintype.Card
import Mathlib.Algebra.Group.Action.Defs

/-! # The size cap of an overflow file

`write` looks at the size of the day's file before it appends to it, and between the two steps other
threads may append as well. So a file can grow beyond its cap, but by no more than one line for each
thread that writes at the same time.
-/
set_option autoImplicit false

namespace Sigil.Audit

open Dialogue (query run Shared Guided Deterministic guided_done guided_query_bind guided_ask)
open OverflowWriter (line append)

/-! ## The steps of a write -/

inductive WriteQuestion where
  /-- `datetime.now(tz=timezone.utc).strftime("%Y-%m-%d")` -/
  | today
  /-- `os.path.getsize`; `none` is `OSError` -/
  | getSize (path : String)
  | readDropCount
  | setDropCount (n : ℕ)
  /-- `os.open` for appending, `os.write` and `os.close` -/
  | append (path : String) (bytes : List UInt8)
  deriving DecidableEq

abbrev WriteAnswer : WriteQuestion → Type
  | .today => String
  | .getSize _ => Option ℕ
  | .readDropCount => ℕ
  | .setDropCount _ => Unit
  | .append _ _ => Unit

abbrev Writing (α : Type) : Type := Dialogue WriteQuestion WriteAnswer Empty α

/-- What `write` does once it knows the path. -/
def writeTo (path : String) (bytes : List UInt8) : Writing Unit := do
  let size ← query (WriteQuestion.getSize path)
  if size.any fun n => decide (maxOverflowFileBytes ≤ n) then do
    let drops ← query WriteQuestion.readDropCount
    query (WriteQuestion.setDropCount (drops + 1))
  else query (WriteQuestion.append path bytes)

/-- `write`, step by step. -/
def writeSteps (h : Host) (w : OverflowWriter) (event : PyVal) : Writing Unit :=
  if !w.writable then pure ()
  else do
    let today ← query WriteQuestion.today
    writeTo (w.currentPath today) (line h event)

def writeEach (h : Host) (w : OverflowWriter) : List PyVal → Writing Unit
  | [] => pure ()
  | event :: events => do
    writeSteps h w event
    writeEach h w events

/-! ## Alone -/

structure WriteState where
  disk : Disk
  dropCount : ℕ
  today : String

def WriteState.answer (s : WriteState) : (q : WriteQuestion) → WriteAnswer q × WriteState
  | .today => (s.today, s)
  | .getSize path => ((s.disk.files path).map List.length, s)
  | .readDropCount => (s.dropCount, s)
  | .setDropCount n => ((), { s with dropCount := n })
  | .append path bytes => ((), { s with disk := OverflowWriter.append s.disk path bytes })

def alone : Dialogue.Environment WriteQuestion WriteAnswer WriteState where
  answer q s := s.answer q

/-- **Alone, the steps make up `write`.** -/
theorem writeSteps_alone (h : Host) (w : OverflowWriter) (disk : Disk) (today : String)
    (event : PyVal) :
    (run alone (writeSteps h w event) ⟨disk, w.dropCount, today⟩).final =
      ⟨(w.write h disk today event).2, (w.write h disk today event).1.dropCount, today⟩ := by
  unfold writeSteps OverflowWriter.write
  by_cases hwritable : (!w.writable) = true
  · rw [if_pos hwritable, if_pos hwritable]
    rfl
  · rw [if_neg hwritable, if_neg hwritable]
    have hsize : ((disk.files (w.currentPath today)).map List.length).any
        (fun n => decide (maxOverflowFileBytes ≤ n)) =
        (disk.files (w.currentPath today)).any
          fun bytes => decide (maxOverflowFileBytes ≤ bytes.length) := by
      cases disk.files (w.currentPath today) <;> rfl
    have hrun : (run alone (query WriteQuestion.today >>= fun today =>
        writeTo (w.currentPath today) (line h event)) ⟨disk, w.dropCount, today⟩).final =
        (run alone (if ((disk.files (w.currentPath today)).map List.length).any
            (fun n => decide (maxOverflowFileBytes ≤ n)) then
          query WriteQuestion.readDropCount >>= fun drops =>
            query (WriteQuestion.setDropCount (drops + 1))
          else query (WriteQuestion.append (w.currentPath today) (line h event)))
          ⟨disk, w.dropCount, today⟩).final := rfl
    rw [hrun, hsize]
    split <;> rfl

/-! ## Beside other writers -/

/-- Other threads may remove files. -/
inductive Removes : WriteState → WriteState → Prop where
  | unlink (s : WriteState) (path : String) : Removes s
      { s with disk := { s.disk with files := Function.update s.disk.files path none } }

/-- The day may change at any time. -/
def Responded (s : WriteState) (e : Dialogue.Event WriteQuestion WriteAnswer) (s' : WriteState) :
    Prop :=
  ∃ today, WriteState.answer { s with today := today } e.1 = (e.2, s')

/-- Where a thread that writes lines of at most `longest` bytes stands: the file that it has found to
be below the cap, if it has not appended to it yet. -/
inductive Clears (longest : ℕ) : Option String → Dialogue.Event WriteQuestion WriteAnswer →
    Option String → Prop where
  | today (day : String) : Clears longest none ⟨.today, day⟩ none
  | getSize (path : String) (size : Option ℕ) : Clears longest none ⟨.getSize path, size⟩
      (if size.any fun n => decide (maxOverflowFileBytes ≤ n) then none else some path)
  | readDropCount (n : ℕ) : Clears longest none ⟨.readDropCount, n⟩ none
  | setDropCount (n : ℕ) : Clears longest none ⟨.setDropCount n, ()⟩ none
  | append (path : String) (bytes : List UInt8) (hlong : bytes.length ≤ longest) :
      Clears longest (some path) ⟨.append path bytes, ()⟩ none

theorem clears_deterministic (longest : ℕ) : Deterministic (Clears longest) := by
  intro g e g₁ g₂ h₁ h₂
  cases h₁ <;> cases h₂ <;> rfl

theorem writeSteps_guided (h : Host) (w : OverflowWriter) (longest : ℕ) (event : PyVal)
    (hlong : (line h event).length ≤ longest) :
    Guided (Clears longest) (writeSteps h w event) none fun _ g => g = none := by
  unfold writeSteps
  split
  · exact guided_done () rfl
  · apply guided_query_bind
    intro today
    refine ⟨_, .today today, ?_⟩
    apply guided_query_bind
    intro size
    refine ⟨_, .getSize _ size, ?_⟩
    split
    · apply guided_query_bind
      intro drops
      refine ⟨_, .readDropCount drops, ?_⟩
      exact guided_ask fun _ => ⟨_, .setDropCount (drops + 1), guided_done () rfl⟩
    · exact guided_ask fun _ => ⟨_, .append _ _ hlong, guided_done () rfl⟩

theorem writeEach_guided (h : Host) (w : OverflowWriter) (longest : ℕ) (events : List PyVal)
    (hlong : ∀ event ∈ events, (line h event).length ≤ longest) :
    Guided (Clears longest) (writeEach h w events) none fun _ g => g = none := by
  induction events with
  | nil => exact guided_done () rfl
  | cons event events ih =>
    refine (writeSteps_guided h w longest event (hlong event List.mem_cons_self)).bind ?_
      fun e _ _ => e.elim
    intro _ g hg
    subst hg
    exact ih fun e he => hlong e (List.mem_cons_of_mem _ he)

section Bound

variable {ι : Type} [Fintype ι] {longest : ℕ}

/-- How many threads are about to append to the file. -/
def cleared (g : ι → Option String) (path : String) : ℕ := ∑ i, if g i = some path then 1 else 0

theorem cleared_le (g : ι → Option String) (path : String) : cleared g path ≤ Fintype.card ι := by
  have hone : ∀ i ∈ Finset.univ, (if g i = some path then 1 else 0) ≤ 1 := by
    intro i _
    split
    · exact Nat.le_refl 1
    · exact Nat.zero_le 1
  have hsum := Finset.sum_le_card_nsmul Finset.univ _ 1 hone
  rwa [smul_eq_mul, mul_one, Finset.card_univ] at hsum

def size (s : WriteState) (path : String) : ℕ := ((s.disk.files path).getD []).length

/-- With what is about to be appended, no file is longer than this. -/
def Bounded (longest : ℕ) (s : WriteState) (g : ι → Option String) : Prop :=
  ∀ path, size s path + longest * cleared g path < maxOverflowFileBytes + longest * Fintype.card ι

theorem Removes.bounded {s s' : WriteState} {g : ι → Option String} (hm : Removes s s')
    (hs : Bounded longest s g) : Bounded longest s' g := by
  cases hm with
  | unlink path =>
    intro p
    by_cases hp : p = path
    · have hsize : size { s with disk := { s.disk with
          files := Function.update s.disk.files path none } } p = 0 := by
        simp only [size, hp, Function.update_self]
        rfl
      have hcleared := Nat.mul_le_mul_left longest (cleared_le g p)
      have hcap : 0 < maxOverflowFileBytes := by decide
      rw [hsize]
      omega
    · have hsize : size { s with disk := { s.disk with
          files := Function.update s.disk.files path none } } p = size s p := by
        simp only [size, Function.update_of_ne hp]
      rw [hsize]
      exact hs p

theorem size_append (s : WriteState) (path : String) (bytes : List UInt8) (p : String) :
    size { s with disk := append s.disk path bytes } p ≤
      size s p + if p = path then bytes.length else 0 := by
  by_cases hopen : s.disk.canOpen path = true
  · by_cases hp : p = path
    · simp only [size, append, if_pos hopen, hp, Function.update_self, Option.getD_some,
        List.length_append, if_true]
      exact Nat.le_refl _
    · simp only [size, append, if_pos hopen, Function.update_of_ne hp, if_neg hp]
      exact Nat.le_refl _
  · simp only [size, append, if_neg hopen]
    exact Nat.le_add_right _ _

variable [DecidableEq ι]

/-- A thread that comes to stand at `γ` counts where it did not, and no longer where it did. -/
theorem cleared_update (g : ι → Option String) (i : ι) (γ : Option String) (path : String) :
    cleared (Function.update g i γ) path + (if g i = some path then 1 else 0) =
      cleared g path + if γ = some path then 1 else 0 :=
  Dialogue.sum_update_add (fun x : Option String => if x = some path then 1 else 0) g i γ

theorem Responded.bounded {s s' : WriteState} {g : ι → Option String} {i : ι}
    {e : Dialogue.Event WriteQuestion WriteAnswer} {γ : Option String} (hstep : Responded s e s')
    (hg : Clears longest (g i) e γ) (hs : Bounded longest s g) :
    Bounded longest s' (Function.update g i γ) := by
  obtain ⟨day, heq⟩ := hstep
  have hnext : s' = (WriteState.answer { s with today := day } e.1).2 := (congrArg Prod.snd heq).symm
  generalize hold : g i = γ₀ at hg
  have hupdate := cleared_update g i γ
  rw [hold] at hupdate
  have hsame : (∀ p, size s' p = size s p) → (∀ p, cleared (Function.update g i γ) p = cleared g p) →
      Bounded longest s' (Function.update g i γ) := by
    intro hsize hcleared p
    rw [hsize, hcleared]
    exact hs p
  cases hg with
  | getSize path found =>
    have hfound : found = (s.disk.files path).map List.length := (congrArg Prod.fst heq).symm
    subst hnext
    by_cases hfull : (found.any fun n => decide (maxOverflowFileBytes ≤ n)) = true
    · simp only [if_pos hfull] at hsame hupdate ⊢
      refine hsame (fun _ => rfl) fun p => ?_
      have hp := hupdate p
      simpa using hp
    · -- one more thread is about to append, but the file is below its cap
      intro p
      have hp := hupdate p
      simp only [if_neg hfull] at hp ⊢
      by_cases hpath : p = path
      · subst hpath
        have hbelow : size s p < maxOverflowFileBytes := by
          unfold size
          cases hfile : s.disk.files p with
          | none => decide
          | some bytes =>
            rw [hfound, hfile] at hfull
            simpa using hfull
        have hcleared := Nat.mul_le_mul_left longest (cleared_le (Function.update g i (some p)) p)
        show size s p + _ < _
        omega
      · have hne : ¬ (some path : Option String) = some p := fun h => hpath (Option.some.inj h).symm
        have hkeep : cleared (Function.update g i (some path)) p = cleared g p := by
          simpa [hne] using hp
        rw [hkeep]
        exact hs p
  | append path bytes hlong =>
    subst hnext
    intro p
    have hp := hupdate p
    have hsize := size_append s path bytes p
    have hbound := hs p
    show size { s with disk := append s.disk path bytes } p + _ < _
    by_cases hpath : p = path
    · subst hpath
      have hone : cleared (Function.update g i none) p + 1 = cleared g p := by simpa using hp
      rw [if_pos rfl] at hsize
      rw [← hone, Nat.mul_succ] at hbound
      omega
    · have hne : ¬ (some path : Option String) = some p := fun h => hpath (Option.some.inj h).symm
      have hkeep : cleared (Function.update g i none) p = cleared g p := by simpa [hne] using hp
      rw [if_neg hpath] at hsize
      rw [hkeep]
      omega
  | _ =>
    subst hnext
    refine hsame (fun _ => rfl) fun p => ?_
    have hp := hupdate p
    simpa using hp

/-- **A file exceeds its cap by at most a line for each writer.** Any number of threads write any
events, step by step in any order, while others remove files: at every moment each file is shorter
than its cap and one longest line for each thread. -/
theorem overflow_bounded (h : Host) (w : ι → OverflowWriter) (events : ι → List PyVal)
    (hlong : ∀ i, ∀ event ∈ events i, (line h event).length ≤ longest) (s s' : WriteState)
    (hstart : ∀ path bytes, s.disk.files path = some bytes →
      bytes.length < maxOverflowFileBytes + longest * Fintype.card ι)
    (tr : List (ι × Dialogue.Event WriteQuestion WriteAnswer)) (pool' : ι → Writing Unit)
    (hrun : Shared Removes (fun _ => Responded) (fun i => writeEach h (w i) (events i)) s tr pool' s')
    (path : String) (bytes : List UInt8) (hfile : s'.disk.files path = some bytes) :
    bytes.length < maxOverflowFileBytes + longest * Fintype.card ι := by
  have hguided := hrun.guided (clears_deterministic longest) (J := fun s _ g => Bounded longest s g)
    (P := fun _ _ g => g = none) (fun s s' _ g hs hm => hm.bounded hs)
    (fun i s e s' _ g γ hs hstep hg => hstep.bounded hg hs) [] (fun _ => none)
    (fun i => writeEach_guided h (w i) longest (events i) (hlong i)) ?_
  · obtain ⟨g, hbounded, -⟩ := hguided
    have hsize : size s' path = bytes.length := by
      rw [size, hfile]
      rfl
    have hpath := hbounded path
    rw [hsize] at hpath
    omega
  · intro p
    have hnone : cleared (fun _ : ι => none) p = 0 := Finset.sum_eq_zero fun _ _ => rfl
    rw [hnone, Nat.mul_zero, Nat.add_zero]
    cases hp : s.disk.files p with
    | none =>
      have hcap : 0 < maxOverflowFileBytes := by decide
      have hzero : size s p = 0 := by
        rw [size, hp]
        rfl
      omega
    | some b =>
      have hsize : size s p = b.length := by
        rw [size, hp]
        rfl
      rw [hsize]
      exact hstart p b hp

end Bound

/-! ### One of two threads writes -/

def oneWriter : Bool → List PyVal
  | false => [.none]
  | true => []

def noFiles : WriteState := ⟨(emptyStore "a1").disk, 0, "2026-01-01"⟩

def oneFile : WriteState :=
  { noFiles with disk := append noFiles.disk "o/a1_2026-01-01.ndjson" (line plainHost .none) }

theorem oneWriter_run : Shared Removes (fun _ => Responded)
    (fun i => writeEach plainHost (emptyStore "a1").overflow (oneWriter i)) noFiles
    [(false, ⟨.today, "2026-01-01"⟩), (false, ⟨.getSize "o/a1_2026-01-01.ndjson", none⟩),
      (false, ⟨.append "o/a1_2026-01-01.ndjson" (line plainHost .none), ()⟩)]
    (fun _ => .done ()) oneFile := by
  have hend : ∀ (p : Bool → Writing Unit) (s : WriteState), p = (fun _ => .done ()) →
      Shared Removes (fun _ => Responded) p s [] (fun _ => .done ()) s := by
    intro p s hp
    rw [hp]
    exact .refl _ s
  apply Shared.step
  · exact rfl
  · exact ⟨"2026-01-01", rfl⟩
  apply Shared.step
  · exact rfl
  · exact ⟨"2026-01-01", rfl⟩
  apply Shared.step
  · exact rfl
  · exact ⟨"2026-01-01", rfl⟩
  apply hend
  funext i
  cases i <;> rfl

theorem overflow_bounded_oneWriter :
    (line plainHost .none).length < maxOverflowFileBytes + 5 * Fintype.card Bool := by
  refine overflow_bounded plainHost (fun _ => (emptyStore "a1").overflow) oneWriter ?_ noFiles
    oneFile (fun _ _ hfile => (by cases hfile)) _ _ oneWriter_run "o/a1_2026-01-01.ndjson" _ rfl
  intro i event hevent
  cases i with
  | false =>
    rw [List.mem_singleton.mp hevent]
    decide +kernel
  | true => exact absurd hevent List.not_mem_nil

end Sigil.Audit
