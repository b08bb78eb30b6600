import Sigil.Library.Placeholders

/-! # Edges

A character is an edge for a pattern when no class of the pattern has it and no test can tell it from
the end of the text. A substitution then works on the texts before and after it by themselves
(`sub_edge`), and so does any sequence of substitutions (`subAll_edge`).
-/
set_option autoImplicit false

namespace Regex

variable {L α : Type}

def Edge (x : α) : Regex α → Prop
  | char p => p x = false
  | look f => (∀ b, f b (some x) = f b none) ∧ ∀ a, f (some x) a = f none a
  | empty => True
  | seq r s => Edge x r ∧ Edge x s
  | alt r s => Edge x r ∧ Edge x s
  | star r => Edge x r

theorem Edge.avoids {x : α} {r : Regex α} (h : Edge x r) : Avoids x r := by
  induction r with
  | char p => exact h
  | look f => trivial
  | empty => trivial
  | seq r s ihr ihs => exact ⟨ihr h.1, ihs h.2⟩
  | alt r s ihr ihs => exact ⟨ihr h.1, ihs h.2⟩
  | star r ih => exact ih h

section Repetitions

variable {x : α} {r : Regex α} (h : Edge x r)

include h

theorem Edge.opt : Edge x (opt r) := ⟨h, trivial⟩

theorem Edge.times (n : ℕ) : Edge x (times n r) := by
  induction n with
  | zero => trivial
  | succ n ih => exact ⟨h, ih⟩

theorem Edge.upTo (n : ℕ) : Edge x (upTo n r) := by
  induction n with
  | zero => trivial
  | succ n ih => exact ⟨⟨h, ih⟩, trivial⟩

theorem Edge.plus : Edge x (plus r) := ⟨h, h⟩

theorem Edge.atLeast (n : ℕ) : Edge x (atLeast n r) := ⟨h.times n, h⟩

theorem Edge.between (lo hi : ℕ) : Edge x (between lo hi r) := ⟨h.times lo, h.upTo (hi - lo)⟩

end Repetitions

theorem edge_concat {x : α} {rs : List (Regex α)} (h : ∀ r ∈ rs, Edge x r) :
    Edge x (concat rs) := by
  induction rs with
  | nil => trivial
  | cons r rs ih =>
    have hhead := h r List.mem_cons_self
    cases rs with
    | nil => exact hhead
    | cons s rs => exact ⟨hhead, ih fun t ht => h t (List.mem_cons_of_mem r ht)⟩

/-! ## After a text -/

theorem ends_edge_after {x : α} {r : Regex α} (h : Edge x r) (c : Cursor α) :
    ends (some x) r c = ends none r c := by
  induction r generalizing c with
  | char p => rfl
  | look f =>
    have hnext : f c.prev (c.next (some x)) = f c.prev (c.next none) := by
      cases hrest : c.rest with
      | nil => simpa [Cursor.next, hrest] using h.1 c.prev
      | cons y ys => simp [Cursor.next, hrest]
    rw [ends, ends, hnext]
  | empty => rfl
  | seq r s ihr ihs =>
    rw [ends, ends, ihr h.1]
    exact List.flatMap_congr fun d _ => ihs h.2 d
  | alt r s ihr ihs => rw [ends, ends, ihr h.1, ihs h.2]
  | star r ih => rw [ends, ends, funext (ih h)]

theorem cuts_edge_after {x : α} {r : Regex α} (h : Edge x r) (l : L) (c : Cursor α) :
    cuts r l (some x) c = cuts r l none c := by
  have hhit : ∀ c, hit (some x) r c = hit none r c := by
    intro c
    rw [hit, hit, first, first, ends_edge_after h]
  induction c using cuts_induction (r := r) (e := some x) with
  | nil b => rfl
  | hit c d w hh hw ih => rw [cuts_hit hh hw, ih, cuts_hit ((hhit c).symm.trans hh) hw]
  | miss b y ys hh ih => rw [cuts_miss hh, ih, cuts_miss ((hhit _).symm.trans hh)]

/-! ## Before a text -/

section Before

variable [DecidableEq α]

/-- The same place, with the edge before it forgotten. -/
def Cursor.forget (x : α) (c : Cursor α) : Cursor α :=
  ⟨if c.prev = some x then none else c.prev, c.rest⟩

theorem Cursor.forget_start (x : α) (v : List α) : Cursor.forget x ⟨some x, v⟩ = ⟨none, v⟩ := by
  simp [Cursor.forget]

theorem greedy_forget (x : α) (step : Cursor α → List (Cursor α))
    (hstep : ∀ c, step (c.forget x) = (step c).map (Cursor.forget x)) (n : ℕ) (c : Cursor α) :
    greedy step n (c.forget x) = (greedy step n c).map (Cursor.forget x) := by
  induction n generalizing c with
  | zero => rfl
  | succ n ih =>
    have hfilter : (step (c.forget x)).filter
          (fun d => decide (d.rest.length < (c.forget x).rest.length)) =
        ((step c).filter fun d => decide (d.rest.length < c.rest.length)).map
          (Cursor.forget x) := by
      rw [hstep, List.filter_map]
      rfl
    rw [greedy, greedy, hfilter, List.flatMap_map, List.map_append, List.map_flatMap]
    congr 1
    exact List.flatMap_congr fun d _ => ih d

theorem ends_forget {x : α} {r : Regex α} (h : Edge x r) (e : Option α) (c : Cursor α) :
    ends e r (c.forget x) = (ends e r c).map (Cursor.forget x) := by
  induction r generalizing c with
  | char p =>
    obtain ⟨b, rest⟩ := c
    cases rest with
    | nil => rfl
    | cons y ys =>
      by_cases hy : p y = true
      · have hne : y ≠ x := by
          intro heq
          rw [heq, show p x = false from h] at hy
          cases hy
        simp [ends, Cursor.forget, hy, hne]
      · simp [ends, Cursor.forget, hy]
  | look f =>
    have hlook : f (c.forget x).prev ((c.forget x).next e) = f c.prev (c.next e) := by
      have hnext : (c.forget x).next e = c.next e := rfl
      rw [hnext]
      by_cases hb : c.prev = some x
      · rw [Cursor.forget, if_pos hb, hb]
        exact (h.2 _).symm
      · rw [Cursor.forget, if_neg hb]
    rw [ends, ends, hlook]
    split <;> rfl
  | empty => rfl
  | seq r s ihr ihs =>
    rw [ends, ends, ihr h.1, List.flatMap_map, List.map_flatMap]
    exact List.flatMap_congr fun d _ => ihs h.2 d
  | alt r s ihr ihs => rw [ends, ends, ihr h.1, ihs h.2, List.map_append]
  | star r ih =>
    rw [ends, ends]
    exact greedy_forget x (ends e r) (ih h) c.rest.length c

theorem hit_forget {x : α} {r : Regex α} (h : Edge x r) (e : Option α) (c : Cursor α) :
    hit e r (c.forget x) = (hit e r c).map (Cursor.forget x) := by
  rw [hit, hit, first, first, ends_forget h, List.head?_map]
  cases (ends e r c).head? with
  | none => rfl
  | some d => by_cases hlt : d.rest.length < c.rest.length <;> simp [Option.filter, Cursor.forget, hlt]

theorem cuts_forget {x : α} {r : Regex α} (h : Edge x r) (l : L) (e : Option α) (c : Cursor α) :
    cuts r l e (c.forget x) = cuts r l e c := by
  induction c using cuts_induction (r := r) (e := e) with
  | nil b => rfl
  | hit c d w hh hw ih =>
    have hforget := hit_forget h e c
    rw [hh] at hforget
    have hreads : (c.forget x).Reads w (d.forget x) := by
      obtain ⟨v, hv, hm⟩ := first_sound (hit_eq_some hh).1
      have hvw : v = w := by
        have hrest : v ++ d.rest = w ++ d.rest := hv.rest.symm.trans hw.rest
        exact List.append_cancel_right hrest
      have hmem : x ∉ w := hvw ▸ hm.avoids h.avoids
      refine ⟨hw.rest, ?_⟩
      show (if d.prev = some x then none else d.prev) = _
      rw [hw.prev]
      cases hlast : w.getLast? with
      | none => rfl
      | some y =>
        have hne : y ≠ x := fun heq => hmem (heq ▸ List.mem_of_getLast? hlast)
        simp [hne]
    rw [cuts_hit hforget hreads, ih, cuts_hit hh hw]
  | miss b y ys hh ih =>
    have hforget := hit_forget h e ⟨b, y :: ys⟩
    rw [hh] at hforget
    exact (cuts_miss hforget).trans (cuts_miss hh).symm

end Before

/-! ## Substitution -/

/-- **A substitution does not reach across an edge.** -/
theorem sub_edge [DecidableEq α] {x : α} {r : Regex α} (h : Edge x r) (repl u v : List α) :
    sub r repl (u ++ x :: v) = sub r repl u ++ x :: sub r repl v := by
  have hsplit := cuts_barrier (l := ()) h.avoids none v ⟨none, u⟩
  have hafter := cuts_edge_after h () ⟨none, u⟩
  have hbefore := cuts_forget h () none ⟨some x, v⟩
  rw [Cursor.forget_start] at hbefore
  rw [hafter, ← hbefore] at hsplit
  rw [sub, show (⟨none, u ++ x :: v⟩ : Cursor α) = Cursor.extend (x :: v) ⟨none, u⟩ from rfl, hsplit,
    Cuts.render_append, Cuts.render_cons]
  rfl

theorem subAll_edge [DecidableEq α] {P : Placeholders L α} {x : α} (Cs : List (Classifier P))
    (h : ∀ C ∈ Cs, Edge x C.pattern) (u v : List α) :
    subAll Cs (u ++ x :: v) = subAll Cs u ++ x :: subAll Cs v := by
  induction Cs generalizing u v with
  | nil => rfl
  | cons C Cs ih =>
    rw [subAll, List.foldl_cons, sub_edge (h C List.mem_cons_self), ← subAll]
    exact ih (fun D hD => h D (List.mem_cons_of_mem C hD)) _ _

end Regex
