import Sigil.Library.Shapes

/-! # Matches that take a whole text

A text that a pattern can match only as a whole is replaced as a whole (`sub_whole`). Where it could
match less, the match the engine finds first decides: a repetition takes what it can, and gives back
until the rest of the pattern matches (`first_star_back`).
-/
set_option autoImplicit false

namespace Regex

variable {α β L : Type} {f : α → β} {r s : Regex α} {r' : Regex β}

/-! ## Giving back -/

section Back

variable {e : Option α} {p : α → Bool}

theorem ends_seq_assoc (r s t : Regex α) (c : Cursor α) :
    ends e (seq (seq r s) t) c = ends e (seq r (seq s t)) c := by
  simp only [ends]
  exact List.flatMap_assoc

/-- A repetition first goes on, and then stops here. -/
theorem first_star_cons {b : Option α} {x : α} {xs : List α} (hx : p x = true) :
    first e (seq (star (.char p)) s) ⟨b, x :: xs⟩ =
      (first e (seq (star (.char p)) s) ⟨some x, xs⟩).or (first e s ⟨b, x :: xs⟩) := by
  have hends : ends e (star (.char p)) ⟨b, x :: xs⟩ =
      ends e (star (.char p)) ⟨some x, xs⟩ ++ [⟨b, x :: xs⟩] := by
    simp [ends, greedy, hx]
  simp only [first]
  rw [ends, hends, List.flatMap_append, List.head?_append, List.flatMap_singleton]
  rfl

theorem first_star_fails (b : Option α) (v : List α) (hv : ∀ x ∈ v, p x = true)
    (hfails : ∀ u t b', v = u ++ t → first e s ⟨b', t⟩ = none) :
    first e (seq (star (.char p)) s) ⟨b, v⟩ = none := by
  induction v generalizing b with
  | nil =>
    have hnil : ends e (star (.char p)) ⟨b, []⟩ = [⟨b, []⟩] := rfl
    rw [first, ends, hnil, List.flatMap_singleton]
    exact hfails [] [] b rfl
  | cons x v ih =>
    rw [first_star_cons (hv x List.mem_cons_self), ih (some x), hfails [] (x :: v) b rfl]
    · rfl
    · exact fun y hy => hv y (List.mem_cons_of_mem x hy)
    · exact fun u t b' hsplit => hfails (x :: u) t b' (by rw [hsplit, List.cons_append])

/-- What follows a repetition matches at `v`, and at no place after it. -/
theorem first_star_back {d : Cursor α} (b : Option α) (u v : List α)
    (hall : ∀ x ∈ u ++ v, p x = true)
    (hfails : ∀ x w t b', v = x :: w ++ t → first e s ⟨b', t⟩ = none)
    (hd : first e s ⟨u.getLast?.or b, v⟩ = some d) :
    first e (seq (star (.char p)) s) ⟨b, u ++ v⟩ = some d := by
  induction u generalizing b with
  | nil =>
    cases v with
    | nil =>
      have hnil : ends e (star (.char p)) ⟨b, []⟩ = [⟨b, []⟩] := rfl
      rw [List.nil_append, first, ends, hnil, List.flatMap_singleton]
      exact hd
    | cons x v =>
      have hlater : first e (seq (star (.char p)) s) ⟨some x, v⟩ = none := by
        refine first_star_fails (some x) v (fun y hy => hall y (List.mem_cons_of_mem x hy)) ?_
        intro w t b' hsplit
        exact hfails x w t b' (by rw [hsplit, List.cons_append])
      rw [List.nil_append, first_star_cons (hall x List.mem_cons_self), hlater]
      exact hd
  | cons x u ih =>
    rw [getLast?_cons_or] at hd
    have hrest := ih (some x) (fun y hy => hall y (List.mem_cons_of_mem x hy)) hd
    rw [List.cons_append, first_star_cons (hall x List.mem_cons_self), hrest]
    rfl

/-- A repetition of a class stops where the class does. -/
theorem first_star_until (b : Option α) (u v : List α) (hu : ∀ x ∈ u, p x = true)
    (hv : ∀ x ∈ v.head?, p x = false) :
    first e (star (.char p)) ⟨b, u ++ v⟩ = some ⟨u.getLast?.or b, v⟩ := by
  induction u generalizing b with
  | nil =>
    apply first_star_stop
    cases v with
    | nil => rfl
    | cons x v => simp [first, ends, hv x rfl]
  | cons x u ih =>
    have hrest := ih (some x) fun y hy => hu y (List.mem_cons_of_mem x hy)
    rw [List.cons_append, first_star_round (first_char (hu x List.mem_cons_self)) (Nat.lt_succ_self _),
      hrest, getLast?_cons_or]

end Back

/-! ## Matches that take a whole text -/

/-- Every match at the beginning of the text is all of it. -/
def Whole (r : Regex α) (text : List α) : Prop :=
  ∀ u v, text = u ++ v → Matches r none u v.head? → v = []

/-- The same, by the engine. -/
def whole (r : Regex α) (text : List α) : Bool := (ends none r ⟨none, text⟩).all fun d => d.rest.isEmpty

theorem whole_iff {text : List α} : whole r text = true ↔ Whole r text := by
  rw [whole, List.all_eq_true]
  constructor
  · intro h u v htext hm
    obtain ⟨d, hreads, hrest⟩ := Cursor.exists_reads ⟨none, text⟩ u v htext
    rw [← Option.or_none (o := v.head?), ← hrest] at hm
    have hmem := (mem_ends none r ⟨none, text⟩ d).mpr ⟨u, hreads, hm⟩
    rw [← hrest]
    exact List.isEmpty_iff.mp (h d hmem)
  · intro h d hd
    obtain ⟨u, hreads, hm⟩ := (mem_ends none r _ d).mp hd
    rw [Cursor.next, Option.or_none] at hm
    exact List.isEmpty_iff.mpr (h u d.rest hreads.rest hm)

/-- `re.fullmatch` -/
def fullmatch (r : Regex α) (text : List α) : Bool :=
  (ends none r ⟨none, text⟩).any fun d => d.rest.isEmpty

theorem fullmatch_iff {text : List α} : fullmatch r text = true ↔ Matches r none text none := by
  rw [fullmatch, List.any_eq_true]
  constructor
  · rintro ⟨d, hd, hempty⟩
    obtain ⟨u, hreads, hm⟩ := (mem_ends none r _ d).mp hd
    have hnil : d.rest = [] := List.isEmpty_iff.mp hempty
    have htext : text = u ++ d.rest := hreads.rest
    rw [hnil, List.append_nil] at htext
    rw [Cursor.next, hnil] at hm
    rw [htext]
    exact hm
  · intro hm
    obtain ⟨d, hreads, hrest⟩ := Cursor.exists_reads ⟨none, text⟩ text [] (List.append_nil _).symm
    refine ⟨d, (mem_ends none r _ d).mpr ⟨text, hreads, ?_⟩, by rw [hrest]; rfl⟩
    rw [Cursor.next, hrest]
    exact hm

theorem Whole.of_seen {text : List α} (hr : Seen f r r') (h : Whole r' (text.map f)) :
    Whole r text := by
  intro u v htext hm
  have hmatch := hm.seen hr
  rw [← List.head?_map] at hmatch
  exact List.map_eq_nil_iff.mp (h (u.map f) (v.map f) (by rw [htext, List.map_append]) hmatch)

/-- A pattern that needs all the characters there are. -/
theorem whole_of_minLength {text : List α} (h : minLength r = text.length) : Whole r text := by
  intro u v htext hm
  have hle := hm.minLength_le
  rw [h, htext, List.length_append] at hle
  exact List.length_eq_zero_iff.mp (by omega)

theorem sub_first {text repl : List α} {b : Option α} (hne : text ≠ [])
    (h : first none r ⟨none, text⟩ = some ⟨b, []⟩) : sub r repl text = repl := by
  obtain ⟨u, hreads, -⟩ := first_sound h
  have hhit : hit none r ⟨none, text⟩ = some ⟨b, []⟩ := by
    rw [hit, h, Option.filter_some, if_pos]
    rw [decide_eq_true_eq]
    exact List.length_pos_iff.mpr hne
  rw [sub, cuts_hit hhit hreads, cuts_nil, Cuts.render, Cuts.render, List.append_nil]
  rfl

/-- What can only be matched as a whole is replaced as a whole. -/
theorem sub_whole {text repl : List α} (hm : Matches r none text none) (hne : text ≠ [])
    (h : Whole r text) : sub r repl text = repl := by
  cases hfirst : first none r ⟨none, text⟩ with
  | none =>
    obtain ⟨d, hreads, hrest⟩ := Cursor.exists_reads ⟨none, text⟩ text [] (List.append_nil _).symm
    refine absurd ?_ (first_eq_none.mp hfirst text d hreads)
    rw [Cursor.next, hrest]
    exact hm
  | some d =>
    obtain ⟨u, hreads, hmatch⟩ := first_sound hfirst
    rw [Cursor.next, Option.or_none] at hmatch
    have hnil : d.rest = [] := h u d.rest hreads.rest hmatch
    obtain ⟨b, rest⟩ := d
    obtain rfl : rest = [] := hnil
    exact sub_first hne hfirst

/-! ## In a sequence of substitutions -/

variable {P : Placeholders L α}

/-- A placeholder is left alone. -/
theorem sub_text (hr : Fits P r) (repl : List α) (l : L) : sub r repl (P.text l) = P.text l := by
  have hrender : (Cuts.cut [] l [] (.last [])).render P.text = P.text l := by simp [Cuts.render]
  apply sub_of_not_occurs
  rw [← hrender, occurs_render hr]
  rintro ⟨R, hR, x, w, y, hword, hm⟩
  have hnil : R.word = [] := by
    simp only [Cuts.runs, List.mem_cons, List.not_mem_nil, or_false] at hR
    obtain rfl | rfl := hR <;> rfl
  rw [hnil] at hword
  obtain ⟨-, hwy⟩ := List.append_eq_nil_iff.mp hword.symm
  obtain ⟨rfl, -⟩ := List.append_eq_nil_iff.mp hwy
  exact hr.consumes _ _ hm

theorem subAll_text (Cs : List (Classifier P)) (l : L) : subAll Cs (P.text l) = P.text l := by
  induction Cs with
  | nil => rfl
  | cons C Cs ih => rw [subAll, List.foldl_cons, sub_text C.fits, ← subAll, ih]

/-- A text that a classifier replaces as a whole, when none before it matches in it. -/
theorem subAll_whole (before after : List (Classifier P)) (C : Classifier P) {text : List α}
    (hbefore : ∀ D ∈ before, ¬ Run.Occurs D.pattern ⟨none, text, none⟩)
    (hwhole : sub C.pattern (P.text C.label) text = P.text C.label) :
    subAll (before ++ C :: after) text = P.text C.label := by
  have hkept := subAll_of_not_occurs before text hbefore
  rw [subAll] at hkept
  rw [subAll, List.foldl_append, hkept, List.foldl_cons, hwhole]
  exact subAll_text after C.label

/-! ### Placeholders stay -/

/-- The text has the placeholder of `l` in it. -/
def Holds (P : Placeholders L α) (l : L) (text : List α) : Prop := P.text l <:+: text

theorem sub_eq_render (C : Classifier P) (k : Cuts L α) :
    sub C.pattern (P.text C.label) (k.render P.text) =
      (recut P C.pattern C.label none none k).render P.text := by
  rw [← render_recut C.fits, sub]
  exact cuts_render_const _ P.text rfl _

theorem sub_holds (C : Classifier P) {l : L} {text : List α} (h : Holds P l text) :
    Holds P l (sub C.pattern (P.text C.label) text) := by
  obtain ⟨u, v, rfl⟩ := h
  have hrender : u ++ P.text l ++ v = (Cuts.cut u l [] (.last v)).render P.text := by
    simp [Cuts.render]
  rw [hrender, sub_eq_render, recut, Cuts.render_followedBy]
  exact ⟨_, _, List.append_assoc _ _ _⟩

theorem subAll_holds (Cs : List (Classifier P)) {l : L} {text : List α} (h : Holds P l text) :
    Holds P l (subAll Cs text) := by
  induction Cs generalizing text with
  | nil => exact h
  | cons C Cs ih =>
    rw [subAll, List.foldl_cons, ← subAll]
    exact ih (sub_holds C h)

/-- Where a pattern matches, something is taken. -/
theorem cuts_of_occurs {l : L} {e : Option α} (hr : ∀ b a, ¬ Matches r b [] a) (c : Cursor α)
    (h : Run.Occurs r ⟨c.prev, c.rest, e⟩) : ∃ u w rest, cuts r l e c = .cut u l w rest := by
  induction c using cuts_induction (r := r) (e := e) with
  | nil b =>
    obtain ⟨x, w, y, hword, hm⟩ := h
    obtain ⟨-, hwy⟩ := List.append_eq_nil_iff.mp (show x ++ (w ++ y) = [] from hword.symm)
    obtain ⟨rfl, -⟩ := List.append_eq_nil_iff.mp hwy
    exact absurd hm (hr _ _)
  | hit c d w hh hw ih => exact ⟨[], w, _, cuts_hit hh hw⟩
  | miss b x xs hh ih =>
    obtain ⟨u, w, y, hword, hm⟩ := h
    cases u with
    | nil => exact absurd hm (hit_eq_none hr hh w y hword)
    | cons z u =>
      obtain ⟨rfl, hxs⟩ := List.cons.inj (show x :: xs = z :: (u ++ (w ++ y)) from hword)
      rw [getLast?_cons_or] at hm
      obtain ⟨u', w', rest, hcut⟩ := ih ⟨u, w, y, hxs, hm⟩
      exact ⟨x :: u', w', rest, by rw [cuts_miss hh, hcut]; rfl⟩

theorem sub_of_occurs (C : Classifier P) {text : List α}
    (h : Run.Occurs C.pattern ⟨none, text, none⟩) :
    Holds P C.label (sub C.pattern (P.text C.label) text) := by
  obtain ⟨u, w, rest, hcut⟩ := cuts_of_occurs (l := C.label) C.fits.consumes ⟨none, text⟩ h
  rw [sub, cuts_render_const (P.text C.label) P.text rfl, hcut, Cuts.render]
  exact ⟨u, rest.render P.text, List.append_assoc _ _ _⟩

/-- What the first classifier that matches takes stays taken. -/
theorem subAll_of_occurs (before after : List (Classifier P)) (C : Classifier P) {text : List α}
    (hbefore : ∀ D ∈ before, ¬ Run.Occurs D.pattern ⟨none, text, none⟩)
    (h : Run.Occurs C.pattern ⟨none, text, none⟩) :
    Holds P C.label (subAll (before ++ C :: after) text) := by
  have hkept := subAll_of_not_occurs before text hbefore
  rw [subAll] at hkept
  rw [subAll, List.foldl_append, hkept, List.foldl_cons, ← subAll]
  exact subAll_holds after (sub_of_occurs C h)

end Regex
