import Mathlib.Data.List.Basic

/-! # Backtracking regular expressions

Patterns over an arbitrary alphabet, matched the way a backtracking engine does: `ends` lists every
way a pattern can match from a cursor on, in the order in which the engine tries them, and the first
of them is the match it reports. An alternative is tried before the ones after it, and a repetition
goes round once more before it stops.

`Matches r b w a` says the same without the order: `r` matches the word `w` when the character `b`
stands before it and `a` after it. `mem_ends` connects the two.
-/
set_option autoImplicit false

inductive Regex (α : Type) : Type where
  /-- one character -/
  | char (p : α → Bool)
  /-- a test of the characters before and after, which consumes nothing -/
  | look (f : Option α → Option α → Bool)
  | empty
  | seq (r s : Regex α)
  | alt (r s : Regex α)
  | star (r : Regex α)

namespace Regex

variable {α : Type}

/-! ## Repetitions -/

def opt (r : Regex α) : Regex α := alt r empty

def times : ℕ → Regex α → Regex α
  | 0, _ => empty
  | n + 1, r => seq r (times n r)

def upTo : ℕ → Regex α → Regex α
  | 0, _ => empty
  | n + 1, r => opt (seq r (upTo n r))

/-- `r{n,}` -/
def atLeast (n : ℕ) (r : Regex α) : Regex α := seq (times n r) (star r)

/-- `r{lo,hi}` -/
def between (lo hi : ℕ) (r : Regex α) : Regex α := seq (times lo r) (upTo (hi - lo) r)

/-- `r+` -/
def plus (r : Regex α) : Regex α := seq r (star r)

/-- One pattern after the other. -/
def concat : List (Regex α) → Regex α
  | [] => empty
  | [r] => r
  | r :: rs => seq r (concat rs)

/-! ## The engine -/

/-- A place in a text: the character before it, and the text from there on. -/
structure Cursor (α : Type) where
  prev : Option α
  rest : List α

/-- The character after a cursor; `e` is the one after the text. -/
def Cursor.next (e : Option α) (c : Cursor α) : Option α := c.rest.head?.or e

/-- A round that consumes nothing is not repeated. -/
def greedy (step : Cursor α → List (Cursor α)) : ℕ → Cursor α → List (Cursor α)
  | 0, c => [c]
  | n + 1, c =>
    ((step c).filter fun d => d.rest.length < c.rest.length).flatMap (greedy step n) ++ [c]

/-- Where a match from `c` on can end, in the order of the engine. -/
def ends (e : Option α) : Regex α → Cursor α → List (Cursor α)
  | char p, c => match c.rest with
    | [] => []
    | x :: xs => if p x then [⟨some x, xs⟩] else []
  | look f, c => if f c.prev (c.next e) then [c] else []
  | empty, c => [c]
  | seq r s, c => (ends e r c).flatMap (ends e s)
  | alt r s, c => ends e r c ++ ends e s c
  | star r, c => greedy (ends e r) c.rest.length c

/-! ## Matching -/

inductive Matches : Regex α → Option α → List α → Option α → Prop where
  | char (p : α → Bool) (b a : Option α) (x : α) (h : p x = true) : Matches (char p) b [x] a
  | look (f : Option α → Option α → Bool) (b a : Option α) (h : f b a = true) :
      Matches (look f) b [] a
  | empty (b a : Option α) : Matches empty b [] a
  | seq (r s : Regex α) (b a : Option α) (u v : List α) (hr : Matches r b u (v.head?.or a))
      (hs : Matches s (u.getLast?.or b) v a) : Matches (seq r s) b (u ++ v) a
  | left (r s : Regex α) (b a : Option α) (w : List α) (h : Matches r b w a) :
      Matches (alt r s) b w a
  | right (r s : Regex α) (b a : Option α) (w : List α) (h : Matches s b w a) :
      Matches (alt r s) b w a
  | stop (r : Regex α) (b a : Option α) : Matches (star r) b [] a
  | round (r : Regex α) (b a : Option α) (u v : List α) (hne : u ≠ [])
      (hr : Matches r b u (v.head?.or a)) (hs : Matches (star r) (u.getLast?.or b) v a) :
      Matches (star r) b (u ++ v) a

section Inversion

variable {r s : Regex α} {b a : Option α} {w : List α}

theorem matches_char {p : α → Bool} : Matches (.char p) b w a ↔ ∃ x, w = [x] ∧ p x = true := by
  constructor
  · intro h
    cases h with
    | char _ _ _ x h => exact ⟨x, rfl, h⟩
  · rintro ⟨x, rfl, h⟩
    exact .char p b a x h

theorem matches_look {f : Option α → Option α → Bool} :
    Matches (.look f) b w a ↔ w = [] ∧ f b a = true := by
  constructor
  · intro h
    cases h with
    | look _ _ _ h => exact ⟨rfl, h⟩
  · rintro ⟨rfl, h⟩
    exact .look f b a h

theorem matches_empty : Matches .empty b w a ↔ w = [] := by
  constructor
  · intro h
    cases h
    rfl
  · rintro rfl
    exact .empty b a

theorem matches_seq : Matches (.seq r s) b w a ↔
    ∃ u v, w = u ++ v ∧ Matches r b u (v.head?.or a) ∧ Matches s (u.getLast?.or b) v a := by
  constructor
  · intro h
    cases h with
    | seq _ _ _ _ u v hr hs => exact ⟨u, v, rfl, hr, hs⟩
  · rintro ⟨u, v, rfl, hr, hs⟩
    exact .seq r s b a u v hr hs

/-- A pattern that begins with a class, on a word that begins with a character. -/
theorem matches_char_seq {p : α → Bool} {x : α} :
    Matches (.seq (.char p) s) b (x :: w) a ↔ p x = true ∧ Matches s (some x) w a := by
  constructor
  · intro h
    obtain ⟨u, v, huv, hu, hv⟩ := matches_seq.mp h
    obtain ⟨y, rfl, hy⟩ := matches_char.mp hu
    obtain ⟨rfl, rfl⟩ := List.cons.inj (show x :: w = y :: v from huv)
    exact ⟨hy, hv⟩
  · rintro ⟨hx, hm⟩
    exact .seq _ _ _ _ [x] w (.char p _ _ x hx) hm

theorem matches_alt : Matches (.alt r s) b w a ↔ Matches r b w a ∨ Matches s b w a := by
  constructor
  · intro h
    cases h with
    | left _ _ _ _ _ h => exact Or.inl h
    | right _ _ _ _ _ h => exact Or.inr h
  · rintro (h | h)
    · exact .left r s b a w h
    · exact .right r s b a w h

theorem matches_opt : Matches (opt r) b w a ↔ Matches r b w a ∨ w = [] := by
  rw [opt, matches_alt, matches_empty]

end Inversion

/-! ## The engine finds the matches -/

/-- From `c`, the word `w` leads to `d`. -/
structure Cursor.Reads (c : Cursor α) (w : List α) (d : Cursor α) : Prop where
  rest : c.rest = w ++ d.rest
  prev : d.prev = w.getLast?.or c.prev

theorem Cursor.reads_nil (c : Cursor α) : c.Reads [] c := ⟨rfl, rfl⟩

theorem Cursor.Reads.eq_of_nil {c d : Cursor α} (h : c.Reads [] d) : d = c := by
  obtain ⟨hrest, hprev⟩ := h
  cases c
  cases d
  simp_all

theorem Cursor.Reads.unique {c d d' : Cursor α} {w : List α} (h : c.Reads w d)
    (h' : c.Reads w d') : d = d' := by
  have hrest : d.rest = d'.rest := List.append_cancel_left (h.rest.symm.trans h'.rest)
  have hprev : d.prev = d'.prev := h.prev.trans h'.prev.symm
  cases d
  cases d'
  simp_all

theorem getLast?_append_or (u v : List α) (b : Option α) :
    (u ++ v).getLast?.or b = v.getLast?.or (u.getLast?.or b) := by
  rw [List.getLast?_append, Option.or_assoc]

theorem getLast?_cons_or (x : α) (u : List α) (b : Option α) :
    (x :: u).getLast?.or b = u.getLast?.or (some x) := by
  rw [← List.singleton_append, getLast?_append_or]
  rfl

theorem head?_append_or (u v : List α) (a : Option α) :
    (u ++ v).head?.or a = u.head?.or (v.head?.or a) := by
  rw [List.head?_append, Option.or_assoc]

theorem Cursor.Reads.trans {c d f : Cursor α} {u v : List α} (hu : c.Reads u d)
    (hv : d.Reads v f) : c.Reads (u ++ v) f where
  rest := by rw [hu.rest, hv.rest, List.append_assoc]
  prev := by rw [hv.prev, hu.prev, getLast?_append_or]

theorem Cursor.Reads.next {c d : Cursor α} {w : List α} (h : c.Reads w d) (e : Option α) :
    c.next e = w.head?.or (d.next e) := by
  rw [Cursor.next, h.rest, head?_append_or]
  rfl

/-- A word that stands at the cursor can be read. -/
theorem Cursor.exists_reads (c : Cursor α) (w rest : List α) (h : c.rest = w ++ rest) :
    ∃ d : Cursor α, c.Reads w d ∧ d.rest = rest := ⟨⟨w.getLast?.or c.prev, rest⟩, ⟨h, rfl⟩, rfl⟩

theorem Cursor.Reads.split {c f : Cursor α} {u v : List α} (h : c.Reads (u ++ v) f) :
    ∃ d : Cursor α, c.Reads u d ∧ d.Reads v f := by
  have hrest : c.rest = u ++ (v ++ f.rest) := by rw [h.rest, List.append_assoc]
  refine ⟨⟨u.getLast?.or c.prev, v ++ f.rest⟩, ⟨hrest, rfl⟩, ⟨rfl, ?_⟩⟩
  rw [h.prev, getLast?_append_or]

theorem Cursor.Reads.length {c d : Cursor α} {w : List α} (h : c.Reads w d) :
    c.rest.length = w.length + d.rest.length := by rw [h.rest, List.length_append]

section Greedy

variable {e : Option α} {r : Regex α}

/-- What a step finds, a repetition of it finds. -/
theorem greedy_sound
    (hstep : ∀ c d, d ∈ ends e r c → ∃ w, c.Reads w d ∧ Matches r c.prev w (d.next e))
    (n : ℕ) (c d : Cursor α) (hd : d ∈ greedy (ends e r) n c) :
    ∃ w, c.Reads w d ∧ Matches (star r) c.prev w (d.next e) := by
  induction n generalizing c with
  | zero =>
    obtain rfl := List.mem_singleton.mp hd
    exact ⟨[], d.reads_nil, .stop r _ _⟩
  | succ n ih =>
    rcases List.mem_append.mp hd with hd | hd
    · obtain ⟨m, hm, hd⟩ := List.mem_flatMap.mp hd
      obtain ⟨hm, hlt⟩ := List.mem_filter.mp hm
      obtain ⟨u, hu, hru⟩ := hstep c m hm
      obtain ⟨v, hv, hsv⟩ := ih m hd
      refine ⟨u ++ v, hu.trans hv, .round r _ _ u v ?_ ?_ ?_⟩
      · rintro rfl
        have := hu.length
        simp at this hlt
        omega
      · rwa [← hv.next]
      · rwa [← hu.prev]
    · obtain rfl := List.mem_singleton.mp hd
      exact ⟨[], d.reads_nil, .stop r _ _⟩

theorem greedy_complete
    (hstep : ∀ c d w, c.Reads w d → Matches r c.prev w (d.next e) → d ∈ ends e r c)
    (n : ℕ) (c d : Cursor α) (w : List α) (hn : c.rest.length ≤ n) (hw : c.Reads w d)
    (h : Matches (star r) c.prev w (d.next e)) : d ∈ greedy (ends e r) n c := by
  induction n generalizing c w with
  | zero =>
    have hnil : w = [] := by
      have := hw.length
      exact List.length_eq_zero_iff.mp (by omega)
    subst hnil
    rw [hw.eq_of_nil]
    exact List.mem_singleton_self c
  | succ n ih =>
    cases h with
    | stop =>
      rw [hw.eq_of_nil]
      exact List.mem_append_right _ (List.mem_singleton_self c)
    | round _ _ _ u v hne hr hs =>
      obtain ⟨m, hu, hv⟩ := hw.split
      have hlen := hu.length
      have hpos := List.length_pos_iff.mpr hne
      rw [← hv.next] at hr
      rw [← hu.prev] at hs
      refine List.mem_append_left _ (List.mem_flatMap.mpr ⟨m, ?_, ?_⟩)
      · exact List.mem_filter.mpr ⟨hstep c m u hu hr, by simp; omega⟩
      · exact ih m v (by omega) hv hs

end Greedy

/-- **The engine lists the matches**, and nothing else. -/
theorem mem_ends (e : Option α) (r : Regex α) (c d : Cursor α) :
    d ∈ ends e r c ↔ ∃ w, c.Reads w d ∧ Matches r c.prev w (d.next e) := by
  induction r generalizing c d with
  | char p =>
    constructor
    · intro hd
      unfold ends at hd
      split at hd
      · cases hd
      · next x xs hrest =>
        split_ifs at hd with hp
        · obtain rfl := List.mem_singleton.mp hd
          exact ⟨[x], ⟨hrest, rfl⟩, .char p _ _ x hp⟩
        · cases hd
    · rintro ⟨w, hw, h⟩
      obtain ⟨x, rfl, hp⟩ := matches_char.mp h
      have hrest : c.rest = x :: d.rest := hw.rest
      have hd : d = ⟨some x, d.rest⟩ := hw.unique ⟨hw.rest, rfl⟩
      unfold ends
      simp only [hrest, if_pos hp]
      exact List.mem_singleton.mpr hd
  | look f =>
    unfold ends
    split_ifs with hf
    · rw [List.mem_singleton]
      constructor
      · rintro rfl
        exact ⟨[], d.reads_nil, .look f _ _ hf⟩
      · rintro ⟨w, hw, h⟩
        obtain ⟨rfl, -⟩ := matches_look.mp h
        exact hw.eq_of_nil
    · constructor
      · intro hd
        cases hd
      · rintro ⟨w, hw, h⟩
        obtain ⟨rfl, hfd⟩ := matches_look.mp h
        rw [hw.eq_of_nil] at hfd
        exact absurd hfd hf
  | empty =>
    rw [ends, List.mem_singleton]
    constructor
    · rintro rfl
      exact ⟨[], d.reads_nil, .empty _ _⟩
    · rintro ⟨w, hw, h⟩
      obtain rfl := matches_empty.mp h
      exact hw.eq_of_nil
  | seq r s ihr ihs =>
    rw [ends, List.mem_flatMap]
    constructor
    · rintro ⟨m, hm, hd⟩
      obtain ⟨u, hu, hru⟩ := (ihr c m).mp hm
      obtain ⟨v, hv, hsv⟩ := (ihs m d).mp hd
      rw [hv.next] at hru
      rw [hu.prev] at hsv
      exact ⟨u ++ v, hu.trans hv, .seq r s _ _ u v hru hsv⟩
    · rintro ⟨w, hw, h⟩
      obtain ⟨u, v, rfl, hru, hsv⟩ := matches_seq.mp h
      obtain ⟨m, hu, hv⟩ := hw.split
      rw [← hv.next] at hru
      rw [← hu.prev] at hsv
      exact ⟨m, (ihr c m).mpr ⟨u, hu, hru⟩, (ihs m d).mpr ⟨v, hv, hsv⟩⟩
  | alt r s ihr ihs =>
    rw [ends, List.mem_append, ihr, ihs]
    constructor
    · rintro (⟨w, hw, h⟩ | ⟨w, hw, h⟩)
      · exact ⟨w, hw, .left r s _ _ w h⟩
      · exact ⟨w, hw, .right r s _ _ w h⟩
    · rintro ⟨w, hw, h⟩
      exact (matches_alt.mp h).imp (fun h => ⟨w, hw, h⟩) fun h => ⟨w, hw, h⟩
  | star r ih =>
    constructor
    · exact greedy_sound (fun c d => (ih c d).mp) _ c d
    · rintro ⟨w, hw, h⟩
      exact greedy_complete (fun c d w hw h => (ih c d).mpr ⟨w, hw, h⟩) _ c d w (Nat.le_refl _) hw h

/-- A match, as the engine reports it: the one it finds first. -/
def first (e : Option α) (r : Regex α) (c : Cursor α) : Option (Cursor α) := (ends e r c).head?

theorem first_eq_none {e : Option α} {r : Regex α} {c : Cursor α} :
    first e r c = none ↔ ∀ w d, c.Reads w d → ¬ Matches r c.prev w (d.next e) := by
  rw [first, List.head?_eq_none_iff, List.eq_nil_iff_forall_not_mem]
  constructor
  · exact fun h w d hw hm => h d ((mem_ends e r c d).mpr ⟨w, hw, hm⟩)
  · intro h d hd
    obtain ⟨w, hw, hm⟩ := (mem_ends e r c d).mp hd
    exact h w d hw hm

theorem first_sound {e : Option α} {r : Regex α} {c d : Cursor α} (h : first e r c = some d) :
    ∃ w, c.Reads w d ∧ Matches r c.prev w (d.next e) :=
  (mem_ends e r c d).mp (List.mem_of_mem_head? h)

/-! ### What is found first -/

section First

variable {e : Option α} {r s : Regex α} {c d f : Cursor α}

theorem first_seq (hr : first e r c = some d) (hs : first e s d = some f) :
    first e (seq r s) c = some f := by
  obtain ⟨ds, hds⟩ := List.head?_eq_some_iff.mp hr
  obtain ⟨fs, hfs⟩ := List.head?_eq_some_iff.mp hs
  rw [first, ends, hds, List.flatMap_cons, hfs]
  rfl

theorem first_left (hr : first e r c = some d) : first e (alt r s) c = some d := by
  obtain ⟨ds, hds⟩ := List.head?_eq_some_iff.mp hr
  rw [first, ends, hds]
  rfl

theorem first_right (hr : first e r c = none) : first e (alt r s) c = first e s c := by
  rw [first, ends, List.head?_eq_none_iff.mp hr, List.nil_append]
  rfl

theorem first_empty : first e empty c = some c := rfl

theorem first_char {p : α → Bool} {b : Option α} {x : α} {xs : List α} (hp : p x = true) :
    first e (.char p) ⟨b, x :: xs⟩ = some ⟨some x, xs⟩ := by
  simp [first, ends, hp]

/-- A repetition that cannot go round stops at once. -/
theorem first_star_stop (hr : first e r c = none) : first e (star r) c = some c := by
  have hnil := List.head?_eq_none_iff.mp hr
  rw [first, ends]
  cases c.rest.length with
  | zero => rfl
  | succ n => simp [greedy, hnil]

/-- How often a repetition may go round does not matter, once it is often enough. -/
theorem greedy_fuel (n m : ℕ) (c : Cursor α) (hn : c.rest.length ≤ n) (hm : c.rest.length ≤ m) :
    greedy (ends e r) n c = greedy (ends e r) m c := by
  induction n generalizing c m with
  | zero =>
    have hz : c.rest.length = 0 := by omega
    cases m with
    | zero => rfl
    | succ m =>
      have hnone : (ends e r c).filter (fun d => decide (d.rest.length < c.rest.length)) = [] := by
        rw [List.filter_eq_nil_iff]
        intro d _
        simp [hz]
      rw [greedy, greedy, hnone]
      rfl
  | succ n ih =>
    cases m with
    | zero =>
      have hz : c.rest.length = 0 := by omega
      have hnone : (ends e r c).filter (fun d => decide (d.rest.length < c.rest.length)) = [] := by
        rw [List.filter_eq_nil_iff]
        intro d _
        simp [hz]
      rw [greedy, greedy, hnone]
      rfl
    | succ m =>
      rw [greedy, greedy]
      congr 1
      refine List.flatMap_congr fun d hd => ?_
      have hlt := (List.mem_filter.mp hd).2
      rw [decide_eq_true_eq] at hlt
      exact ih m d (by omega) (by omega)

/-- It goes round once more before it stops. -/
theorem first_star_round (hr : first e r c = some d) (hlt : d.rest.length < c.rest.length) :
    first e (star r) c = first e (star r) d := by
  obtain ⟨ds, hds⟩ := List.head?_eq_some_iff.mp hr
  obtain ⟨n, hn⟩ : ∃ n, c.rest.length = n + 1 := ⟨c.rest.length - 1, by omega⟩
  have hfuel := greedy_fuel (e := e) (r := r) n d.rest.length d (by omega) (Nat.le_refl _)
  have hne : greedy (ends e r) d.rest.length d ≠ [] := by
    cases d.rest.length <;> simp [greedy]
  rw [first, ends, hn, greedy, hds, List.filter_cons_of_pos (by simpa using hlt),
    List.flatMap_cons, hfuel, List.append_assoc, List.head?_append_of_ne_nil _ hne]
  rfl

/-- A bounded repetition of a class takes what it can, if it can take all of it. -/
theorem first_upTo_char {p : α → Bool} (n : ℕ) (b : Option α) (u v : List α)
    (hu : ∀ x ∈ u, p x = true) (hn : u.length ≤ n)
    (hv : u.length = n ∨ ∀ x ∈ v.head?, p x = false) :
    first e (upTo n (.char p)) ⟨b, u ++ v⟩ = some ⟨u.getLast?.or b, v⟩ := by
  induction u generalizing n b with
  | nil =>
    cases n with
    | zero => exact first_empty
    | succ n =>
      have hnone : first e (seq (.char p) (upTo n (.char p))) ⟨b, v⟩ = none := by
        have hhead := hv.resolve_left (Nat.succ_ne_zero n).symm
        cases v with
        | nil => simp [first, ends]
        | cons x v => simp [first, ends, hhead x rfl]
      rw [upTo, opt, List.nil_append, first_right hnone]
      exact first_empty
  | cons x u ih =>
    cases n with
    | zero => exact absurd hn (Nat.not_succ_le_zero _)
    | succ n =>
      have hrest : first e (upTo n (.char p)) ⟨some x, u ++ v⟩ =
          some ⟨(x :: u).getLast?.or b, v⟩ := by
        rw [getLast?_cons_or]
        refine ih n (some x) (fun y hy => hu y (List.mem_cons_of_mem x hy)) ?_ ?_
        · simpa using hn
        · exact hv.imp_left (by simp)
      exact first_left (first_seq (first_char (hu x List.mem_cons_self)) hrest)

theorem first_times_char {p : α → Bool} (b : Option α) (u v : List α)
    (hu : ∀ x ∈ u, p x = true) :
    first e (times u.length (.char p)) ⟨b, u ++ v⟩ = some ⟨u.getLast?.or b, v⟩ := by
  induction u generalizing b with
  | nil => exact first_empty
  | cons x u ih =>
    have hrest := ih (some x) fun y hy => hu y (List.mem_cons_of_mem x hy)
    rw [getLast?_cons_or]
    exact first_seq (first_char (hu x List.mem_cons_self)) hrest

/-- A repetition of a class takes all of a text in the class. -/
theorem first_star_char {p : α → Bool} (b : Option α) (u : List α) (hu : ∀ x ∈ u, p x = true) :
    first e (star (.char p)) ⟨b, u⟩ = some ⟨u.getLast?.or b, []⟩ := by
  induction u generalizing b with
  | nil => exact first_star_stop rfl
  | cons x u ih =>
    have hrest := ih (some x) fun y hy => hu y (List.mem_cons_of_mem x hy)
    rw [first_star_round (first_char (hu x List.mem_cons_self)) (Nat.lt_succ_self _), hrest,
      getLast?_cons_or]

theorem first_atLeast_char {p : α → Bool} (n : ℕ) (b : Option α) (u : List α)
    (hu : ∀ x ∈ u, p x = true) (hn : n ≤ u.length) :
    ∃ b', first e (atLeast n (.char p)) ⟨b, u⟩ = some ⟨b', []⟩ := by
  have htake : (u.take n).length = n := List.length_take_of_le hn
  have htimes := first_times_char (e := e) b (u.take n) (u.drop n)
    fun x hx => hu x (List.mem_of_mem_take hx)
  have hstar := first_star_char (e := e) ((u.take n).getLast?.or b) (u.drop n)
    fun x hx => hu x (List.mem_of_mem_drop hx)
  rw [htake, List.take_append_drop] at htimes
  exact ⟨_, first_seq htimes hstar⟩

/-- From a place on where everything is in the class, the pattern matches all there is or nothing. -/
def TakesAll (p : α → Bool) (r : Regex α) : Prop :=
  ∀ (e : Option α) (c d : Cursor α), (∀ x ∈ c.rest, p x = true) → first e r c = some d → d.rest = []

theorem takesAll_star (p : α → Bool) : TakesAll p (star (.char p)) := by
  intro e c d hc hd
  have hall := first_star_char (e := e) c.prev c.rest hc
  rw [show first e (star (.char p)) ⟨c.prev, c.rest⟩ = some d from hd] at hall
  rw [Option.some.inj hall]

theorem takesAll_seq {p : α → Bool} (hs : TakesAll p s) : TakesAll p (seq r s) := by
  intro e c f hc hf
  have hmem : ∀ d ∈ ends e r c, ∀ x ∈ d.rest, p x = true := by
    intro d hd x hx
    obtain ⟨w, hw, -⟩ := (mem_ends e r c d).mp hd
    exact hc x (by rw [hw.rest]; exact List.mem_append_right w hx)
  rw [first, ends] at hf
  generalize ends e r c = ds at hmem hf
  induction ds with
  | nil => cases hf
  | cons d ds ih =>
    rw [List.flatMap_cons, List.head?_append] at hf
    cases hd : first e s d with
    | none =>
      rw [show (ends e s d).head? = none from hd] at hf
      exact ih (fun d' hd' => hmem d' (List.mem_cons_of_mem d hd')) hf
    | some f' =>
      rw [show (ends e s d).head? = some f' from hd] at hf
      obtain rfl : f' = f := Option.some.inj hf
      exact hs e d f' (hmem d List.mem_cons_self) hd

end First

/-! ## Characters a pattern has no use for -/

/-- No character class of the pattern has `x` in it. -/
def Avoids (x : α) : Regex α → Prop
  | char p => p x = false
  | look _ => True
  | empty => True
  | seq r s => Avoids x r ∧ Avoids x s
  | alt r s => Avoids x r ∧ Avoids x s
  | star r => Avoids x r

theorem Matches.avoids {r : Regex α} {b a : Option α} {w : List α} {x : α} (h : Matches r b w a)
    (hx : Avoids x r) : x ∉ w := by
  induction h with
  | char p b a y hp =>
    rw [List.mem_singleton]
    rintro rfl
    rw [Avoids, hp] at hx
    cases hx
  | look f b a hf => exact List.not_mem_nil
  | empty b a => exact List.not_mem_nil
  | seq r s b a u v _ _ ihr ihs =>
    intro hmem
    exact (List.mem_append.mp hmem).elim (ihr hx.1) (ihs hx.2)
  | left r s b a w _ ih => exact ih hx.1
  | right r s b a w _ ih => exact ih hx.2
  | stop r b a => exact List.not_mem_nil
  | round r b a u v _ _ _ ihr ihs =>
    intro hmem
    exact (List.mem_append.mp hmem).elim (ihr hx) (ihs hx)

/-- The same place, in a text that goes on. -/
def Cursor.extend (t : List α) (c : Cursor α) : Cursor α := ⟨c.prev, c.rest ++ t⟩

theorem Cursor.next_extend (e : Option α) (x : α) (v : List α) (c : Cursor α) :
    (c.extend (x :: v)).next e = c.next (some x) := by
  unfold Cursor.next Cursor.extend
  cases c.rest <;> rfl

theorem greedy_extend (t : List α) (step step' : Cursor α → List (Cursor α))
    (hstep : ∀ c, step' (c.extend t) = (step c).map (Cursor.extend t)) (n : ℕ) (c : Cursor α) :
    greedy step' n (c.extend t) = (greedy step n c).map (Cursor.extend t) := by
  induction n generalizing c with
  | zero => rfl
  | succ n ih =>
    have hfilter : (step' (c.extend t)).filter
          (fun d => decide (d.rest.length < (c.extend t).rest.length)) =
        ((step c).filter fun d => decide (d.rest.length < c.rest.length)).map
          (Cursor.extend t) := by
      rw [hstep, List.filter_map]
      congr 2
      funext d
      simp [Cursor.extend]
    rw [greedy, greedy, hfilter, List.flatMap_map, List.map_append, List.map_flatMap]
    congr 1
    exact List.flatMap_congr fun d _ => ih d

/-- A character the pattern has no use for ends the text, as far as the engine is concerned. -/
theorem ends_barrier {r : Regex α} {x : α} (hx : Avoids x r) (e : Option α) (v : List α)
    (c : Cursor α) :
    ends e r (c.extend (x :: v)) = (ends (some x) r c).map (Cursor.extend (x :: v)) := by
  induction r generalizing c with
  | char p =>
    obtain ⟨b, rest⟩ := c
    cases rest with
    | nil =>
      have hp : p x = false := hx
      simp [ends, Cursor.extend, hp]
    | cons y ys =>
      simp only [ends, Cursor.extend, List.cons_append]
      split_ifs <;> rfl
  | look f =>
    have hprev : (c.extend (x :: v)).prev = c.prev := rfl
    rw [ends, ends, hprev, Cursor.next_extend]
    split_ifs <;> rfl
  | empty => rfl
  | seq r s ihr ihs =>
    rw [ends, ends, ihr hx.1, List.flatMap_map, List.map_flatMap]
    exact List.flatMap_congr fun d _ => ihs hx.2 d
  | alt r s ihr ihs => rw [ends, ends, ihr hx.1, ihs hx.2, List.map_append]
  | star r ih =>
    have hlen : c.rest.length ≤ (c.extend (x :: v)).rest.length := by simp [Cursor.extend]
    rw [ends, ends, greedy_extend (x :: v) (ends (some x) r) (ends e r) (ih hx)]
    rw [greedy_fuel _ c.rest.length c hlen (Nat.le_refl _)]

theorem first_barrier {r : Regex α} {x : α} (hx : Avoids x r) (e : Option α) (v : List α)
    (c : Cursor α) :
    first e r (c.extend (x :: v)) = (first (some x) r c).map (Cursor.extend (x :: v)) := by
  rw [first, ends_barrier hx, List.head?_map]
  rfl

/-! ## Patterns without tests -/

/-- The pattern looks at nothing but the word it matches. -/
def Blind : Regex α → Prop
  | char _ => True
  | look _ => False
  | empty => True
  | seq r s => Blind r ∧ Blind s
  | alt r s => Blind r ∧ Blind s
  | star r => Blind r

theorem Matches.anywhere {r : Regex α} {b a : Option α} {w : List α} (h : Matches r b w a)
    (hr : Blind r) (b' a' : Option α) : Matches r b' w a' := by
  induction h generalizing b' a' with
  | char p b a x hp => exact .char p b' a' x hp
  | look f b a hf => exact hr.elim
  | empty b a => exact .empty b' a'
  | seq r s b a u v _ _ ihr ihs => exact .seq r s b' a' u v (ihr hr.1 _ _) (ihs hr.2 _ _)
  | left r s b a w _ ih => exact .left r s b' a' w (ih hr.1 _ _)
  | right r s b a w _ ih => exact .right r s b' a' w (ih hr.2 _ _)
  | stop r b a => exact .stop r b' a'
  | round r b a u v hne _ _ ihr ihs => exact .round r b' a' u v hne (ihr hr _ _) (ihs hr _ _)

/-! ## What every match has -/

/-- The length of the shortest word the classes of the pattern admit. -/
def minLength : Regex α → ℕ
  | char _ => 1
  | look _ => 0
  | empty => 0
  | seq r s => minLength r + minLength s
  | alt r s => min (minLength r) (minLength s)
  | star _ => 0

theorem Matches.minLength_le {r : Regex α} {b a : Option α} {w : List α} (h : Matches r b w a) :
    minLength r ≤ w.length := by
  induction h with
  | char p b a x hp => exact Nat.le_refl 1
  | look f b a hf => exact Nat.le_refl 0
  | empty b a => exact Nat.le_refl 0
  | seq r s b a u v _ _ ihr ihs =>
    rw [List.length_append]
    exact Nat.add_le_add ihr ihs
  | left r s b a w _ ih => exact Nat.le_trans (Nat.min_le_left _ _) ih
  | right r s b a w _ ih => exact Nat.le_trans (Nat.min_le_right _ _) ih
  | stop r b a => exact Nat.le_refl 0
  | round r b a u v _ _ _ _ _ => exact Nat.zero_le _

/-- A pattern that needs a character does not match the empty word. -/
theorem consumes_of_minLength {r : Regex α} (h : 0 < minLength r) (b a : Option α) :
    ¬ Matches r b [] a := by
  intro hm
  exact absurd hm.minLength_le (Nat.not_le.mpr h)

theorem Matches.length_le_of_upTo {p : α → Bool} {n : ℕ} {b a : Option α} {w : List α}
    (h : Matches (upTo n (.char p)) b w a) : w.length ≤ n := by
  induction n generalizing b w with
  | zero =>
    rw [matches_empty.mp h]
    exact Nat.le_refl 0
  | succ n ih =>
    rcases matches_opt.mp h with h | rfl
    · obtain ⟨u, v, rfl, hu, hv⟩ := matches_seq.mp h
      obtain ⟨x, rfl, -⟩ := matches_char.mp hu
      exact Nat.succ_le_succ (ih hv)
    · exact Nat.zero_le _

/-- Every match has a character of the kind `p` in it. -/
def Needs (p : α → Prop) : Regex α → Prop
  | char q => ∀ x, q x = true → p x
  | look _ => False
  | empty => False
  | seq r s => Needs p r ∨ Needs p s
  | alt r s => Needs p r ∧ Needs p s
  | star _ => False

theorem Matches.needs {r : Regex α} {b a : Option α} {w : List α} {p : α → Prop}
    (h : Matches r b w a) (hr : Needs p r) : ∃ x ∈ w, p x := by
  induction h with
  | char q b a x hq => exact ⟨x, List.mem_singleton_self x, hr x hq⟩
  | look f b a hf => exact hr.elim
  | empty b a => exact hr.elim
  | seq r s b a u v _ _ ihr ihs =>
    rcases hr with hr | hs
    · obtain ⟨x, hx, hp⟩ := ihr hr
      exact ⟨x, List.mem_append_left v hx, hp⟩
    · obtain ⟨x, hx, hp⟩ := ihs hs
      exact ⟨x, List.mem_append_right u hx, hp⟩
  | left r s b a w _ ih => exact ih hr.1
  | right r s b a w _ ih => exact ih hr.2
  | stop r b a => exact hr.elim
  | round r b a u v _ _ _ _ _ => exact hr.elim

/-- Every match begins with a character of the kind `p`, if it has any. -/
def Begins (p : α → Prop) : Regex α → Prop
  | char q => ∀ x, q x = true → p x
  | look _ => True
  | empty => True
  | seq r s => Begins p r ∧ (minLength r = 0 → Begins p s)
  | alt r s => Begins p r ∧ Begins p s
  | star r => Begins p r

theorem Matches.begins {r : Regex α} {b a : Option α} {w : List α} {p : α → Prop}
    (h : Matches r b w a) (hr : Begins p r) : ∀ x ∈ w.head?, p x := by
  induction h with
  | char q b a x hq =>
    rintro y ⟨⟩
    exact hr x hq
  | look f b a hf => exact fun x hx => absurd hx (Option.not_mem_none x)
  | empty b a => exact fun x hx => absurd hx (Option.not_mem_none x)
  | seq r s b a u v hu hv ihr ihs =>
    cases u with
    | nil => exact ihs (hr.2 (Nat.le_zero.mp hu.minLength_le))
    | cons x u => exact ihr hr.1
  | left r s b a w _ ih => exact ih hr.1
  | right r s b a w _ ih => exact ih hr.2
  | stop r b a => exact fun x hx => absurd hx (Option.not_mem_none x)
  | round r b a u v hne hu hv ihr ihs =>
    cases u with
    | nil => exact absurd rfl hne
    | cons x u => exact ihr hr

/-! ## Sets of words -/

/-- Every character of a match is of the kind `p`. -/
def Only (p : α → Prop) : Regex α → Prop
  | char q => ∀ x, q x = true → p x
  | look _ => True
  | empty => True
  | seq r s => Only p r ∧ Only p s
  | alt r s => Only p r ∧ Only p s
  | star r => Only p r

theorem Matches.only {r : Regex α} {b a : Option α} {w : List α} {p : α → Prop}
    (h : Matches r b w a) (hr : Only p r) : ∀ x ∈ w, p x := by
  induction h with
  | char q b a x hq =>
    intro y hy
    rw [List.mem_singleton.mp hy]
    exact hr x hq
  | look f b a hf => exact fun x hx => absurd hx List.not_mem_nil
  | empty b a => exact fun x hx => absurd hx List.not_mem_nil
  | seq r s b a u v _ _ ihr ihs =>
    exact fun x hx => (List.mem_append.mp hx).elim (ihr hr.1 x) (ihs hr.2 x)
  | left r s b a w _ ih => exact ih hr.1
  | right r s b a w _ ih => exact ih hr.2
  | stop r b a => exact fun x hx => absurd hx List.not_mem_nil
  | round r b a u v _ _ _ ihr ihs =>
    exact fun x hx => (List.mem_append.mp hx).elim (ihr hr x) (ihs hr x)

end Regex
