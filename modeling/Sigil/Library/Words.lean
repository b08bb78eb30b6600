import Sigil.Library.Placeholders

/-! # The words that are taken

What a sequence of substitutions takes out of a text was matched, each word by a pattern of its
label. As a match never holds a bracket of a placeholder, a text that comes out as it went in had
nothing taken out of it, and no pattern matches in it (`subAll_eq_self_iff`).
-/
set_option autoImplicit false

namespace Regex

variable {L α : Type}

namespace Cuts

/-- The words that were taken, each with its label. -/
def words : Cuts L α → List (L × List α)
  | last _ => []
  | cut _ l w rest => (l, w) :: rest.words

@[simp] theorem words_cons (x : α) (k : Cuts L α) : (k.cons x).words = k.words := by
  cases k <;> rfl

theorem words_followedBy (l : L) (w : List α) (k k' : Cuts L α) :
    (k.followedBy l w k').words = k.words ++ (l, w) :: k'.words := by
  induction k with
  | last u => rfl
  | cut u l' w' rest ih => rw [followedBy, words, words, ih, List.cons_append]

theorem eq_last_of_words (k : Cuts L α) (h : k.words = []) : k = .last k.original := by
  cases k with
  | last u => rfl
  | cut u l w rest => cases h

end Cuts

/-- The pattern matches the word, whatever stands beside it. -/
def Recognises (r : Regex α) (w : List α) : Prop := ∃ b a, Matches r b w a

theorem cuts_recognised {r : Regex α} {l : L} {e : Option α} (c : Cursor α) :
    ∀ v ∈ (cuts r l e c).words, v.1 = l ∧ Recognises r v.2 := by
  induction c using cuts_induction (r := r) (e := e) with
  | nil b => exact fun v hv => absurd hv List.not_mem_nil
  | hit c d w hh hw ih =>
    rw [cuts_hit hh hw]
    intro v hv
    obtain rfl | hv := List.mem_cons.mp hv
    · obtain ⟨w', hw', hm⟩ := first_sound (hit_eq_some hh).1
      have hsame : w' = w := List.append_cancel_right (hw'.rest.symm.trans hw.rest)
      subst hsame
      exact ⟨rfl, _, _, hm⟩
    · exact ih v hv
  | miss b x xs hh ih =>
    rw [cuts_miss hh, Cuts.words_cons]
    exact ih

section Apply

variable {P : Placeholders L α}

theorem recut_words {r : Regex α} {l : L} {e : Option α} (b : Option α) (k : Cuts L α) :
    ∀ v ∈ (recut P r l e b k).words, v ∈ k.words ∨ v.1 = l ∧ Recognises r v.2 := by
  induction k generalizing b with
  | last u => exact fun v hv => Or.inr (cuts_recognised ⟨b, u⟩ v hv)
  | cut u l' w rest ih =>
    intro v hv
    rw [recut, Cuts.words_followedBy] at hv
    obtain hv | hv := List.mem_append.mp hv
    · exact Or.inr (cuts_recognised ⟨b, u⟩ v hv)
    · obtain rfl | hv := List.mem_cons.mp hv
      · exact Or.inl List.mem_cons_self
      · exact (ih _ v hv).imp_left (List.mem_cons_of_mem _)

/-- **What is taken was recognised.** -/
theorem apply_words (Cs : List (Classifier P)) (k : Cuts L α) :
    ∀ v ∈ (apply Cs k).words, v ∈ k.words ∨ ∃ C ∈ Cs, C.label = v.1 ∧ Recognises C.pattern v.2 := by
  induction Cs generalizing k with
  | nil => exact fun v hv => Or.inl hv
  | cons C Cs ih =>
    intro v hv
    obtain hv | ⟨D, hD, hrecognised⟩ := ih _ v hv
    · obtain hv | ⟨hlabel, hm⟩ := recut_words none k v hv
      · exact Or.inl hv
      · exact Or.inr ⟨C, List.mem_cons_self, hlabel.symm, hm⟩
    · exact Or.inr ⟨D, List.mem_cons_of_mem C hD, hrecognised⟩

/-- A placeholder does not begin as the word does that it stands for. -/
theorem words_nil_of_render (Cs : List (Classifier P)) (k : Cuts L α)
    (hwords : ∀ v ∈ k.words, ∃ C ∈ Cs, C.label = v.1 ∧ Recognises C.pattern v.2)
    (hsame : k.render P.text = k.original) : k.words = [] := by
  cases k with
  | last u => rfl
  | cut u l w rest =>
    exfalso
    obtain ⟨C, -, -, b, a, hm⟩ := hwords (l, w) List.mem_cons_self
    have hrest : P.text l ++ rest.render P.text = w ++ rest.original := List.append_cancel_left hsame
    cases w with
    | nil => exact C.fits.consumes b a hm
    | cons x w =>
      have hx : P.opening = x := (List.cons.inj hrest).1
      exact hm.avoids C.fits.opening (hx ▸ List.mem_cons_self)

/-- **A text stays as it is exactly if nothing in it is recognised.** -/
theorem subAll_eq_self_iff (Cs : List (Classifier P)) (text : List α) :
    subAll Cs text = text ↔ ∀ C ∈ Cs, ¬ Run.Occurs C.pattern ⟨none, text, none⟩ := by
  constructor
  · intro hsame C hC
    have hrender : (apply Cs (.last text)).render P.text = text :=
      (render_apply Cs (.last text)).symm.trans hsame
    have horiginal : (apply Cs (.last text)).original = text := apply_original Cs (.last text)
    have hnil := words_nil_of_render Cs (apply Cs (.last text))
      (fun v hv => (apply_words Cs (.last text) v hv).resolve_left List.not_mem_nil)
      (hrender.trans horiginal.symm)
    have hlast := Cuts.eq_last_of_words _ hnil
    rw [horiginal] at hlast
    -- the whole text is one run, with no placeholder beside it
    have hrun : (⟨none, text, none⟩ : Run α) ∈ (apply Cs (.last text)).runs P none none := by
      rw [hlast]
      exact List.mem_singleton_self _
    rintro ⟨x, w, y, hfound⟩
    obtain ⟨-, hbefore⟩ | ⟨-, hafter⟩ := apply_guarded Cs C hC _ _ hrun x w y hfound
    · cases hbefore
    · cases hafter
  · exact subAll_of_not_occurs Cs text

end Apply

end Regex
