import Sigil.Library.Regex

/-! # Substitution

`sub` replaces every match of a pattern by a fixed text, as a backtracking engine scans: from left
to right, going on after each match. It is the rendering of a text cut up (`Cuts`), in which runs
are kept and the words between them taken.

A sequence of substitutions whose placeholders no pattern can touch works on the kept runs alone:
each run is cut again, with a bracket of a placeholder for a neighbour where a word was taken
(`render_apply`). So what a pattern still matches in the end is at such a seam (`apply_guarded`).
-/
set_option autoImplicit false

namespace Regex

variable {L α : Type}

/-! ## A text cut up -/

inductive Cuts (L α : Type) : Type where
  | last (run : List α)
  | cut (run : List α) (label : L) (word : List α) (rest : Cuts L α)

namespace Cuts

def original : Cuts L α → List α
  | last u => u
  | cut u _ w rest => u ++ (w ++ rest.original)

/-- The text with a placeholder for every word that was taken. -/
def render (text : L → List α) : Cuts L α → List α
  | last u => u
  | cut u l _ rest => u ++ (text l ++ rest.render text)

def cons (x : α) : Cuts L α → Cuts L α
  | last u => last (x :: u)
  | cut u l w rest => cut (x :: u) l w rest

/-- Two texts cut up, one after the other: the last run of the first is joined with the first of
the second. -/
def append : Cuts L α → Cuts L α → Cuts L α
  | last u, k => u.foldr cons k
  | cut u l w rest, k => cut u l w (rest.append k)

/-- Two texts cut up, with a taken word between them. -/
def followedBy : Cuts L α → L → List α → Cuts L α → Cuts L α
  | last u, l, w, k => cut u l w k
  | cut u l' w' rest, l, w, k => cut u l' w' (rest.followedBy l w k)

theorem foldr_cons_last (x u : List α) : x.foldr cons (last u : Cuts L α) = last (x ++ u) := by
  induction x with
  | nil => rfl
  | cons z x ih => rw [List.foldr_cons, ih, cons, List.cons_append]

theorem foldr_cons_cut (x u : List α) (l : L) (w : List α) (rest : Cuts L α) :
    x.foldr cons (cut u l w rest) = cut (x ++ u) l w rest := by
  induction x with
  | nil => rfl
  | cons z x ih => rw [List.foldr_cons, ih, cons, List.cons_append]

section Render

variable (text : L → List α)

@[simp] theorem render_cons (x : α) (k : Cuts L α) : (k.cons x).render text = x :: k.render text := by
  cases k <;> rfl

@[simp] theorem original_cons (x : α) (k : Cuts L α) : (k.cons x).original = x :: k.original := by
  cases k <;> rfl

theorem render_foldr_cons (u : List α) (k : Cuts L α) :
    (u.foldr cons k).render text = u ++ k.render text := by
  induction u with
  | nil => rfl
  | cons x u ih => rw [List.foldr_cons, render_cons, ih, List.cons_append]

theorem render_append (k k' : Cuts L α) :
    (k.append k').render text = k.render text ++ k'.render text := by
  induction k with
  | last u => exact render_foldr_cons text u k'
  | cut u l w rest ih => rw [append, render, render, ih, List.append_assoc, List.append_assoc]

theorem render_followedBy (l : L) (w : List α) (k k' : Cuts L α) :
    (k.followedBy l w k').render text = k.render text ++ (text l ++ k'.render text) := by
  induction k with
  | last u => rfl
  | cut u l' w' rest ih => rw [followedBy, render, render, ih, List.append_assoc, List.append_assoc]

theorem original_followedBy (l : L) (w : List α) (k k' : Cuts L α) :
    (k.followedBy l w k').original = k.original ++ (w ++ k'.original) := by
  induction k with
  | last u => rfl
  | cut u l' w' rest ih =>
    rw [followedBy, original, original, ih, List.append_assoc, List.append_assoc]

end Render

end Cuts

/-! ## Scanning -/

/-- The match at a cursor, if there is one that consumes something. -/
def hit (e : Option α) (r : Regex α) (c : Cursor α) : Option (Cursor α) :=
  (first e r c).filter fun d => d.rest.length < c.rest.length

def scan (r : Regex α) (l : L) (e : Option α) : ℕ → Cursor α → Cuts L α
  | 0, c => .last c.rest
  | n + 1, c => match c.rest with
    | [] => .last []
    | x :: xs => match hit e r c with
      | some d => .cut [] l (c.rest.take (c.rest.length - d.rest.length)) (scan r l e n d)
      | none => (scan r l e n ⟨some x, xs⟩).cons x

/-- The text from a cursor on, with the matches of `r` taken out under the label `l`. -/
def cuts (r : Regex α) (l : L) (e : Option α) (c : Cursor α) : Cuts L α :=
  scan r l e c.rest.length c

/-- `re.sub(repl, text)`, for a pattern that does not match the empty word. -/
def sub (r : Regex α) (repl text : List α) : List α :=
  (cuts r () none ⟨none, text⟩).render fun _ => repl

/-- Whether `re.search(text)` finds a match. -/
def search (r : Regex α) (e : Option α) : Option α → List α → Bool
  | b, [] => !(ends e r ⟨b, []⟩).isEmpty
  | b, x :: xs => !(ends e r ⟨b, x :: xs⟩).isEmpty || search r e (some x) xs

theorem hit_eq_some {e : Option α} {r : Regex α} {c d : Cursor α} (h : hit e r c = some d) :
    first e r c = some d ∧ d.rest.length < c.rest.length := by
  obtain ⟨hf, hlt⟩ := Option.filter_eq_some_iff.mp h
  exact ⟨hf, of_decide_eq_true hlt⟩

section Scan

variable {r : Regex α} {l : L} {e : Option α}

theorem scan_fuel (n m : ℕ) (c : Cursor α) (hn : c.rest.length ≤ n) (hm : c.rest.length ≤ m) :
    scan r l e n c = scan r l e m c := by
  induction n generalizing c m with
  | zero =>
    have hnil : c.rest = [] := List.length_eq_zero_iff.mp (by omega)
    cases m with
    | zero => rfl
    | succ m => simp only [scan, hnil]
  | succ n ih =>
    cases m with
    | zero =>
      have hnil : c.rest = [] := List.length_eq_zero_iff.mp (by omega)
      simp only [scan, hnil]
    | succ m =>
      obtain ⟨b, rest⟩ := c
      cases rest with
      | nil => simp only [scan]
      | cons x xs =>
        simp only [List.length_cons] at hn hm
        simp only [scan]
        cases hh : hit e r ⟨b, x :: xs⟩ with
        | none =>
          have hrest := ih m ⟨some x, xs⟩ (by simp only; omega) (by simp only; omega)
          simp only [hrest]
        | some d =>
          have hlt := (hit_eq_some hh).2
          simp only [List.length_cons] at hlt
          simp only [ih m d (by omega) (by omega)]

@[simp] theorem cuts_nil (b : Option α) : cuts r l e ⟨b, []⟩ = .last [] := rfl

theorem cuts_miss {b : Option α} {x : α} {xs : List α} (h : hit e r ⟨b, x :: xs⟩ = none) :
    cuts r l e ⟨b, x :: xs⟩ = (cuts r l e ⟨some x, xs⟩).cons x := by
  simp only [cuts, List.length_cons, scan, h]

theorem cuts_hit {c d : Cursor α} {w : List α} (h : hit e r c = some d) (hw : c.Reads w d) :
    cuts r l e c = .cut [] l w (cuts r l e d) := by
  obtain ⟨b, rest⟩ := c
  have hlt := (hit_eq_some h).2
  cases rest with
  | nil => simp at hlt
  | cons x xs =>
    have htake : (x :: xs).take ((x :: xs).length - d.rest.length) = w := by
      rw [show x :: xs = w ++ d.rest from hw.rest, List.length_append, Nat.add_sub_cancel,
        List.take_left]
    simp only [List.length_cons] at hlt
    have hfuel := scan_fuel (r := r) (l := l) (e := e) xs.length d.rest.length d (by omega)
      (Nat.le_refl _)
    simp only [cuts, List.length_cons] at htake ⊢
    simp only [scan, h, List.length_cons, htake, hfuel]

/-- Along a scan: at the end of the text, at a match, and at a character that is kept. -/
theorem cuts_induction {motive : Cursor α → Prop} (nil : ∀ b, motive ⟨b, []⟩)
    (hit : ∀ c d w, hit e r c = some d → c.Reads w d → motive d → motive c)
    (miss : ∀ b x xs, Regex.hit e r ⟨b, x :: xs⟩ = none → motive ⟨some x, xs⟩ →
      motive ⟨b, x :: xs⟩) (c : Cursor α) : motive c := by
  obtain ⟨n, hn⟩ : ∃ n, c.rest.length = n := ⟨_, rfl⟩
  induction n using Nat.strongRecOn generalizing c with
  | ind n ih =>
    obtain ⟨b, rest⟩ := c
    cases rest with
    | nil => exact nil b
    | cons x xs =>
      simp only [List.length_cons] at hn
      cases hh : Regex.hit e r ⟨b, x :: xs⟩ with
      | none => exact miss b x xs hh (ih xs.length (by omega) ⟨some x, xs⟩ rfl)
      | some d =>
        obtain ⟨hf, hlt⟩ := hit_eq_some hh
        obtain ⟨w, hw, -⟩ := first_sound hf
        simp only [List.length_cons] at hlt
        exact hit _ d w hh hw (ih d.rest.length (by omega) d rfl)

/-- Nothing is lost: the runs and the words are the text. -/
theorem cuts_original (c : Cursor α) : (cuts r l e c).original = c.rest := by
  induction c using cuts_induction (r := r) (e := e) with
  | nil b => rfl
  | hit c d w hh hw ih => rw [cuts_hit hh hw, Cuts.original, ih, hw.rest, List.nil_append]
  | miss b x xs hh ih => rw [cuts_miss hh, Cuts.original_cons, ih]

theorem cuts_render_const (repl : List α) (text : L → List α) (htext : text l = repl)
    (c : Cursor α) :
    (cuts r () e c).render (fun _ => repl) = (cuts r l e c).render text := by
  induction c using cuts_induction (r := r) (e := e) with
  | nil b => rfl
  | hit c d w hh hw ih => rw [cuts_hit hh hw, cuts_hit hh hw, Cuts.render, Cuts.render, ih, htext]
  | miss b x xs hh ih =>
    rw [cuts_miss hh, cuts_miss hh, Cuts.render_cons, Cuts.render_cons, ih]

end Scan

/-! ### Where no match begins -/

theorem hit_eq_none_of_begins {r : Regex α} {p : α → Prop} (hr : Begins p r) {e b : Option α}
    {x : α} {xs : List α} (hx : ¬ p x) : hit e r ⟨b, x :: xs⟩ = none := by
  rw [Option.eq_none_iff_forall_ne_some]
  intro d hd
  obtain ⟨hf, hlt⟩ := hit_eq_some hd
  obtain ⟨w, hw, hm⟩ := first_sound hf
  cases w with
  | nil =>
    rw [hw.eq_of_nil] at hlt
    exact Nat.lt_irrefl _ hlt
  | cons y w =>
    obtain ⟨rfl, -⟩ := List.cons.inj (show x :: xs = y :: (w ++ d.rest) from hw.rest)
    exact hx (hm.begins hr x rfl)

theorem cuts_skip {r : Regex α} {l : L} {p : α → Prop} (hr : Begins p r) (e b : Option α)
    (u v : List α) (hu : ∀ x ∈ u, ¬ p x) :
    cuts r l e ⟨b, u ++ v⟩ = u.foldr Cuts.cons (cuts r l e ⟨u.getLast?.or b, v⟩) := by
  induction u generalizing b with
  | nil => rfl
  | cons x u ih =>
    have hmiss : hit e r ⟨b, x :: (u ++ v)⟩ = none :=
      hit_eq_none_of_begins hr (hu x List.mem_cons_self)
    rw [List.cons_append, cuts_miss hmiss, ih (some x) fun y hy => hu y (List.mem_cons_of_mem x hy),
      getLast?_cons_or]
    rfl

/-! ### Where a match takes all there is -/

theorem cuts_takesAll {r : Regex α} {l : L} {p : α → Bool} (hr : TakesAll p r) {e : Option α}
    {c d : Cursor α} (hc : ∀ x ∈ c.rest, p x = true) (hd : first e r c = some d)
    (hne : c.rest ≠ []) : cuts r l e c = .cut [] l c.rest (.last []) := by
  have hnil := hr e c d hc hd
  have hhit : hit e r c = some d := by
    rw [hit, hd, Option.filter_some, if_pos]
    rw [hnil, decide_eq_true_eq]
    exact List.length_pos_iff.mpr hne
  obtain ⟨w, hw, -⟩ := first_sound hd
  have hword : c.rest = w := by
    rw [hw.rest, hnil, List.append_nil]
  obtain ⟨b, rest⟩ := d
  obtain rfl : rest = [] := hnil
  rw [cuts_hit hhit hw, cuts_nil, hword]

/-- One match at most, and nothing after it. -/
theorem cuts_of_takesAll {r : Regex α} {l : L} {p : α → Bool} (hr : TakesAll p r) {e : Option α}
    (c : Cursor α) (hc : ∀ x ∈ c.rest, p x = true) :
    cuts r l e c = .last c.rest ∨ ∃ x y, c.rest = x ++ y ∧
      Matches r (x.getLast?.or c.prev) y e ∧ cuts r l e c = .cut x l y (.last []) := by
  induction c using cuts_induction (r := r) (e := e) with
  | nil b => exact Or.inl rfl
  | hit c d w hh hw ih =>
    obtain ⟨hf, hlt⟩ := hit_eq_some hh
    have hnil := hr e c d hc hf
    have hne : c.rest ≠ [] := List.length_pos_iff.mp (Nat.lt_of_le_of_lt (Nat.zero_le _) hlt)
    obtain ⟨v, hv, hm⟩ := first_sound hf
    refine Or.inr ⟨[], c.rest, rfl, ?_, cuts_takesAll hr hc hf hne⟩
    rw [Cursor.next, hnil] at hm
    rw [show c.rest = v by rw [hv.rest, hnil, List.append_nil]]
    exact hm
  | miss b x xs hh ih =>
    rw [cuts_miss hh]
    rcases ih fun y hy => hc y (List.mem_cons_of_mem x hy) with hlast | ⟨u, y, hrest, hm, hcut⟩
    · rw [hlast]
      exact Or.inl rfl
    · rw [hcut]
      refine Or.inr ⟨x :: u, y, congrArg (x :: ·) hrest, ?_, rfl⟩
      rw [getLast?_cons_or]
      exact hm

/-! ### Across a barrier -/

theorem hit_extend {r : Regex α} {x : α} (hx : Avoids x r) (e : Option α) (v : List α)
    (c : Cursor α) :
    hit e r (c.extend (x :: v)) = (hit (some x) r c).map (Cursor.extend (x :: v)) := by
  rw [hit, hit, first_barrier hx]
  cases first (some x) r c with
  | none => rfl
  | some d => simp [Option.filter, Cursor.extend, apply_ite]

theorem Cursor.Reads.extend {c d : Cursor α} {w : List α} (h : c.Reads w d) (t : List α) :
    (c.extend t).Reads w (d.extend t) where
  rest := by simp only [Cursor.extend, h.rest, List.append_assoc]
  prev := h.prev

/-- What comes before a character the pattern has no use for is cut up by itself. -/
theorem cuts_barrier {r : Regex α} {l : L} {x : α} (hx : Avoids x r) (e : Option α) (v : List α)
    (c : Cursor α) :
    cuts r l e (c.extend (x :: v)) =
      (cuts r l (some x) c).append ((cuts r l e ⟨some x, v⟩).cons x) := by
  induction c using cuts_induction (r := r) (e := some x) with
  | nil b =>
    have hmiss : hit e r ⟨b, x :: v⟩ = none := by
      have hext := hit_extend hx e v ⟨b, []⟩
      have hnone : hit (some x) r ⟨b, []⟩ = none := by
        rw [Option.eq_none_iff_forall_ne_some]
        intro d hd
        have := (hit_eq_some hd).2
        simp at this
      rw [hnone] at hext
      exact hext
    exact cuts_miss hmiss
  | hit c d w hh hw ih =>
    have hext := hit_extend hx e v c
    rw [hh] at hext
    rw [cuts_hit hext (hw.extend _), cuts_hit hh hw, ih]
    rfl
  | miss b y ys hh ih =>
    have hext := hit_extend hx e v ⟨b, y :: ys⟩
    rw [hh] at hext
    rw [show Cursor.extend (x :: v) ⟨b, y :: ys⟩ = ⟨b, y :: (ys ++ x :: v)⟩ from rfl] at hext ⊢
    rw [cuts_miss hext, cuts_miss hh]
    rw [show (⟨some y, ys ++ x :: v⟩ : Cursor α) = Cursor.extend (x :: v) ⟨some y, ys⟩ from rfl, ih]
    cases cuts r l (some x) ⟨some y, ys⟩ <;> rfl

end Regex
