import Sigil.Library.Placeholders

/-! # Shapes

A pattern is seen through a map of characters when the pattern on the other side admits whatever it
admits (`Seen`): then its matches are mapped to matches (`Matches.seen`). If the map leaves a few
characters only, and the pattern repeats nothing without bound, the words it may match can be listed
(`words`), and what holds of each of them holds of every match.
-/
set_option autoImplicit false

namespace Regex

variable {α β : Type}

/-! ## Patterns seen through a map -/

def Seen (f : α → β) : Regex α → Regex β → Prop
  | char p, char q => ∀ x, p x = true → q (f x) = true
  | look p, look q => ∀ b a, p b a = true → q (b.map f) (a.map f) = true
  | empty, empty => True
  | seq r s, seq r' s' => Seen f r r' ∧ Seen f s s'
  | alt r s, alt r' s' => Seen f r r' ∧ Seen f s s'
  | star r, star r' => Seen f r r'
  | _, _ => False

variable {f : α → β} {r s : Regex α} {r' s' : Regex β}

theorem Seen.opt (h : Seen f r r') : Seen f (opt r) (opt r') := ⟨h, trivial⟩

theorem Seen.times (h : Seen f r r') (n : ℕ) : Seen f (times n r) (times n r') := by
  induction n with
  | zero => trivial
  | succ n ih => exact ⟨h, ih⟩

theorem Seen.upTo (h : Seen f r r') (n : ℕ) : Seen f (upTo n r) (upTo n r') := by
  induction n with
  | zero => trivial
  | succ n ih => exact ⟨⟨h, ih⟩, trivial⟩

theorem Seen.between (h : Seen f r r') (lo hi : ℕ) : Seen f (between lo hi r) (between lo hi r') :=
  ⟨h.times lo, h.upTo (hi - lo)⟩

theorem Matches.seen {b a : Option α} {w : List α} (h : Matches r b w a) (hr : Seen f r r') :
    Matches r' (b.map f) (w.map f) (a.map f) := by
  induction h generalizing r' with
  | char p b a x hp =>
    cases r' with
    | char q => exact .char q _ _ (f x) (hr x hp)
    | _ => exact hr.elim
  | look p b a hp =>
    cases r' with
    | look q => exact .look q _ _ (hr b a hp)
    | _ => exact hr.elim
  | empty b a =>
    cases r' with
    | empty => exact .empty _ _
    | _ => exact hr.elim
  | seq r s b a u v _ _ ihr ihs =>
    cases r' with
    | seq r' s' =>
      have hu := ihr hr.1
      have hv := ihs hr.2
      rw [Option.map_or, ← List.head?_map] at hu
      rw [Option.map_or, ← List.getLast?_map] at hv
      rw [List.map_append]
      exact .seq r' s' _ _ _ _ hu hv
    | _ => exact hr.elim
  | left r s b a w _ ih =>
    cases r' with
    | alt r' s' => exact .left r' s' _ _ _ (ih hr.1)
    | _ => exact hr.elim
  | right r s b a w _ ih =>
    cases r' with
    | alt r' s' => exact .right r' s' _ _ _ (ih hr.2)
    | _ => exact hr.elim
  | stop r b a =>
    cases r' with
    | star r' => exact .stop r' _ _
    | _ => exact hr.elim
  | round r b a u v hne _ _ ihr ihs =>
    cases r' with
    | star r' =>
      have hu := ihr hr
      have hrest : Seen f (.star r) (.star r') := hr
      have hv := ihs hrest
      rw [Option.map_or, ← List.head?_map] at hu
      rw [Option.map_or, ← List.getLast?_map] at hv
      rw [List.map_append]
      exact .round r' _ _ _ _ (by simpa using hne) hu hv
    | _ => exact hr.elim

theorem Run.Occurs.seen {w : List α} (h : Run.Occurs r ⟨none, w, none⟩) (hr : Seen f r r') :
    Run.Occurs r' ⟨none, w.map f, none⟩ := by
  obtain ⟨x, u, y, hword, hm⟩ := h
  have hmatch := hm.seen hr
  rw [Option.map_or, Option.map_or, ← List.getLast?_map, ← List.head?_map] at hmatch
  refine ⟨x.map f, u.map f, y.map f, ?_, hmatch⟩
  rw [show w = x ++ (u ++ y) from hword, List.map_append, List.map_append]

/-! ## The words of a pattern -/

/-- The words over an alphabet that the classes of a pattern without `star` admit. -/
def words (alphabet : List α) : Regex α → List (List α)
  | char p => (alphabet.filter p).map fun x => [x]
  | look _ => [[]]
  | empty => [[]]
  | seq r s => (words alphabet r).flatMap fun u => (words alphabet s).map fun v => u ++ v
  | alt r s => words alphabet r ++ words alphabet s
  | star _ => []

def Bounded : Regex α → Bool
  | char _ => true
  | look _ => true
  | empty => true
  | seq r s => Bounded r && Bounded s
  | alt r s => Bounded r && Bounded s
  | star _ => false

theorem Matches.mem_words {alphabet : List α} (hall : ∀ x, x ∈ alphabet) {b a : Option α}
    {w : List α} (h : Matches r b w a) (hr : Bounded r = true) : w ∈ words alphabet r := by
  induction h with
  | char p b a x hp => exact List.mem_map.mpr ⟨x, List.mem_filter.mpr ⟨hall x, hp⟩, rfl⟩
  | look p b a hp => exact List.mem_singleton_self []
  | empty b a => exact List.mem_singleton_self []
  | seq r s b a u v _ _ ihr ihs =>
    obtain ⟨hleft, hright⟩ := Bool.and_eq_true_iff.mp hr
    exact List.mem_flatMap.mpr ⟨u, ihr hleft, List.mem_map.mpr ⟨v, ihs hright, rfl⟩⟩
  | left r s b a w _ ih =>
    exact List.mem_append_left _ (ih (Bool.and_eq_true_iff.mp hr).1)
  | right r s b a w _ ih =>
    exact List.mem_append_right _ (ih (Bool.and_eq_true_iff.mp hr).2)
  | stop r b a => cases hr
  | round r b a u v hne _ _ _ _ => cases hr

/-! ### Lengths -/

/-- The pattern with its classes and tests forgotten. -/
def blank : Regex α → Regex Unit
  | char _ => char fun _ => true
  | look _ => look fun _ _ => true
  | empty => empty
  | seq r s => seq (blank r) (blank s)
  | alt r s => alt (blank r) (blank s)
  | star r => star (blank r)

theorem seen_blank (r : Regex α) : Seen (fun _ => ()) r (blank r) := by
  induction r with
  | char p => exact fun _ _ => rfl
  | look p => exact fun _ _ _ => rfl
  | empty => trivial
  | seq r s ihr ihs => exact ⟨ihr, ihs⟩
  | alt r s ihr ihs => exact ⟨ihr, ihs⟩
  | star r ih => exact ih

theorem mem_units (x : Unit) : x ∈ [()] := List.mem_singleton_self x

/-- A pattern that admits words of one length only. -/
theorem Matches.length_eq {n : ℕ} {b a : Option α} {w : List α} (h : Matches r b w a)
    (hr : Bounded (blank r) = true)
    (hn : (words [()] (blank r)).all (fun v => v.length = n) = true) : w.length = n := by
  have hword := (h.seen (seen_blank r)).mem_words mem_units hr
  simpa using List.all_eq_true.mp hn _ hword

end Regex
