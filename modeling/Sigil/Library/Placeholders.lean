import Sigil.Library.Substitution

/-! # Placeholders

Patterns that are replaced one after the other, each by a placeholder between two brackets that none
of them can consume. The text of a stage is then its kept runs, and each stage cuts the runs by
themselves. `Run` is a run with the characters around it.

At a bracket a pattern may match what it did not match in the text: the run begins or ends there
with a word that was bounded by a character that has been taken. `apply_guarded` says that this is
the only way for a match to be left over, and `apply_blind` that a pattern that looks at nothing but
its own word leaves none.
-/
set_option autoImplicit false

namespace Regex

variable {L α : Type}

structure Placeholders (L α : Type) where
  opening : α
  closing : α
  body : L → List α

def Placeholders.text (P : Placeholders L α) (l : L) : List α :=
  P.opening :: (P.body l ++ [P.closing])

/-! ## Runs -/

structure Run (α : Type) where
  before : Option α
  word : List α
  after : Option α

namespace Run

/-- `r` matches `w` between `x` and `y`. -/
structure Found (r : Regex α) (R : Run α) (x w y : List α) : Prop where
  word : R.word = x ++ (w ++ y)
  isMatch : Matches r (x.getLast?.or R.before) w (y.head?.or R.after)

def Occurs (r : Regex α) (R : Run α) : Prop := ∃ x w y, Found r R x w y

theorem ends_nonempty {r : Regex α} {e b : Option α} {text : List α} :
    (!(ends e r ⟨b, text⟩).isEmpty) = true ↔
      ∃ w y, text = w ++ y ∧ Matches r b w (y.head?.or e) := by
  rw [Bool.not_eq_true', List.isEmpty_eq_false_iff_exists_mem]
  constructor
  · rintro ⟨d, hd⟩
    obtain ⟨w, hw, hm⟩ := (mem_ends e r _ d).mp hd
    exact ⟨w, d.rest, hw.rest, hm⟩
  · rintro ⟨w, y, htext, hm⟩
    exact ⟨⟨w.getLast?.or b, y⟩, (mem_ends e r _ _).mpr ⟨w, ⟨htext, rfl⟩, hm⟩⟩

/-- The engine finds a match where there is one. -/
theorem search_iff {r : Regex α} {e b : Option α} {text : List α} :
    search r e b text = true ↔ Occurs r ⟨b, text, e⟩ := by
  induction text generalizing b with
  | nil =>
    rw [search, ends_nonempty]
    constructor
    · rintro ⟨w, y, hword, hm⟩
      exact ⟨[], w, y, hword, hm⟩
    · rintro ⟨x, w, y, hword, hm⟩
      obtain ⟨rfl, hwy⟩ := List.append_eq_nil_iff.mp (show x ++ (w ++ y) = [] from hword.symm)
      exact ⟨w, y, hwy.symm, hm⟩
  | cons z zs ih =>
    rw [search, Bool.or_eq_true, ends_nonempty, ih]
    constructor
    · rintro (⟨w, y, hword, hm⟩ | ⟨x, w, y, hword, hm⟩)
      · exact ⟨[], w, y, hword, hm⟩
      · refine ⟨z :: x, w, y, congrArg (z :: ·) hword, ?_⟩
        rw [getLast?_cons_or]
        exact hm
    · rintro ⟨x, w, y, hword, hm⟩
      cases x with
      | nil => exact Or.inl ⟨w, y, hword, hm⟩
      | cons c x =>
        obtain ⟨rfl, hzs⟩ := List.cons.inj (show z :: zs = c :: (x ++ (w ++ y)) from hword)
        rw [getLast?_cons_or] at hm
        exact Or.inr ⟨x, w, y, hzs, hm⟩

/-- Between `x` and `y` a word touches a placeholder. -/
def Seam (P : Placeholders L α) (R : Run α) (x y : List α) : Prop :=
  x = [] ∧ R.before = some P.closing ∨ y = [] ∧ R.after = some P.opening

/-- `r` matches a word that touches a placeholder. -/
def Exposed (P : Placeholders L α) (r : Regex α) (R : Run α) : Prop :=
  ∃ x w y, Found r R x w y ∧ Seam P R x y

/-- Whatever `r` matches touches a placeholder. -/
def Guarded (P : Placeholders L α) (r : Regex α) (R : Run α) : Prop :=
  ∀ x w y, Found r R x w y → Seam P R x y

/-- `R'` is the part of `R` between `p` and `q`, bounded by placeholders where `R` is not. -/
structure Part (P : Placeholders L α) (R' R : Run α) (p q : List α) : Prop where
  word : R.word = p ++ (R'.word ++ q)
  before : R'.before = some P.closing ∨ p = [] ∧ R'.before = R.before
  after : R'.after = some P.opening ∨ q = [] ∧ R'.after = R.after

variable {P : Placeholders L α} {r : Regex α} {R R' : Run α} {p q x w y : List α}

theorem Part.before_eq (h : Part P R' R p q) (hs : ¬ Seam P R' x y) :
    (p ++ x).getLast?.or R.before = x.getLast?.or R'.before := by
  rw [getLast?_append_or]
  cases hx : x.getLast? with
  | some z => rfl
  | none =>
    rw [List.getLast?_eq_none_iff.mp hx] at hs
    rcases h.before with hb | ⟨rfl, hb⟩
    · exact absurd (Or.inl ⟨rfl, hb⟩) hs
    · rw [hb]
      rfl

theorem Part.after_eq (h : Part P R' R p q) (hs : ¬ Seam P R' x y) :
    (y ++ q).head?.or R.after = y.head?.or R'.after := by
  rw [head?_append_or]
  cases hy : y.head? with
  | some z => rfl
  | none =>
    rw [List.head?_eq_none_iff.mp hy] at hs
    rcases h.after with ha | ⟨rfl, ha⟩
    · exact absurd (Or.inr ⟨rfl, ha⟩) hs
    · rw [ha]
      rfl

/-- What is found in a part away from placeholders is found in the whole. -/
theorem Part.found (h : Part P R' R p q) (hf : Found r R' x w y) (hs : ¬ Seam P R' x y) :
    Found r R (p ++ x) w (y ++ q) where
  word := by rw [h.word, hf.word]; simp only [List.append_assoc]
  isMatch := by
    rw [h.before_eq hs, h.after_eq hs]
    exact hf.isMatch

theorem Part.seam (h : Part P R' R p q) (hs : Seam P R (p ++ x) (y ++ q)) : Seam P R' x y := by
  rcases hs with ⟨hnil, hb⟩ | ⟨hnil, ha⟩
  · obtain ⟨rfl, rfl⟩ := List.append_eq_nil_iff.mp hnil
    exact Or.inl ⟨rfl, h.before.elim id fun hb' => hb'.2.trans hb⟩
  · obtain ⟨rfl, rfl⟩ := List.append_eq_nil_iff.mp hnil
    exact Or.inr ⟨rfl, h.after.elim id fun ha' => ha'.2.trans ha⟩

theorem Part.guarded (h : Part P R' R p q) (hg : Guarded P r R) : Guarded P r R' := by
  intro x w y hf
  by_contra hs
  exact hs (h.seam (hg _ _ _ (h.found hf hs)))

theorem Part.occurs_of_blind (h : Part P R' R p q) (hr : Blind r) (ho : Occurs r R') :
    Occurs r R := by
  obtain ⟨x, w, y, hf⟩ := ho
  refine ⟨p ++ x, w, y ++ q, ⟨?_, hf.isMatch.anywhere hr _ _⟩⟩
  rw [h.word, hf.word]
  simp only [List.append_assoc]

/-- A match within a stretch of a run, with its neighbours there, is one in the run. -/
theorem Occurs.inside {b e : Option α} {w : List α} (x y : List α)
    (h : Occurs r ⟨x.getLast?.or b, w, y.head?.or e⟩) : Occurs r ⟨b, x ++ (w ++ y), e⟩ := by
  obtain ⟨u, m, v, hword, hm⟩ := h
  refine ⟨x ++ u, m, v ++ y, ?_, ?_⟩
  · simp only at hword ⊢
    rw [hword]
    simp only [List.append_assoc]
  · simp only [getLast?_append_or, head?_append_or] at hm ⊢
    exact hm

/-- A character the pattern has no use for parts what it matches. -/
theorem occurs_barrier {z : α} (hz : Avoids z r) (hr : ∀ b a, ¬ Matches r b [] a)
    (b e : Option α) (u v : List α) :
    Occurs r ⟨b, u ++ z :: v, e⟩ ↔ Occurs r ⟨b, u, some z⟩ ∨ Occurs r ⟨some z, v, e⟩ := by
  constructor
  · rintro ⟨x, w, y, hword, hm⟩
    have hzw : z ∉ w := hm.avoids hz
    have hne : w ≠ [] := by
      rintro rfl
      exact hr _ _ hm
    rcases List.append_eq_append_iff.mp (show u ++ z :: v = x ++ (w ++ y) from hword) with
      ⟨x', rfl, hx'⟩ | ⟨u', rfl, hu'⟩
    · -- the match begins at the barrier or after it
      cases x' with
      | nil =>
        obtain ⟨c, w', rfl⟩ := List.exists_cons_of_ne_nil hne
        rw [List.nil_append, List.cons_append] at hx'
        rw [(List.cons.inj hx').1] at hzw
        exact absurd List.mem_cons_self hzw
      | cons c x' =>
        obtain ⟨rfl, rfl⟩ := List.cons.inj hx'
        refine Or.inr ⟨x', w, y, rfl, ?_⟩
        rw [← getLast?_cons_or z x' (u.getLast?.or b), ← getLast?_append_or]
        exact hm
    · -- it begins before the barrier, so it ends before it
      rcases List.append_eq_append_iff.mp hu' with ⟨y', rfl, hy'⟩ | ⟨w', rfl, hw'⟩
      · refine Or.inl ⟨x, w, y', rfl, ?_⟩
        have hhead : y.head?.or e = y'.head?.or (some z) := by
          cases y' with
          | nil =>
            rw [List.nil_append] at hy'
            rw [hy']
            rfl
          | cons c y' =>
            rw [hy']
            rfl
        rw [hhead] at hm
        exact hm
      · cases w' with
        | nil =>
          refine Or.inl ⟨x, u', [], by simp, ?_⟩
          rw [List.nil_append] at hw'
          rw [List.append_nil] at hm
          have hhead : y.head?.or e = some z := by
            rw [← hw']
            rfl
          rw [hhead] at hm
          exact hm
        | cons c w' =>
          rw [(List.cons.inj hw').1] at hzw
          exact absurd (List.mem_append_right u' List.mem_cons_self) hzw
  · rintro (ho | ho)
    · exact ho.inside [] (z :: v)
    · have hlast : (u ++ [z]).getLast?.or b = some z := by simp
      rw [← hlast] at ho
      have hin := ho.inside (u ++ [z]) []
      simpa using hin

end Run

open Run

/-! ## The runs of a text cut up -/

namespace Cuts

variable (P : Placeholders L α)

def runs (e : Option α) : Option α → Cuts L α → List (Run α)
  | b, last u => [⟨b, u, e⟩]
  | b, cut u _ _ rest => ⟨b, u, some P.opening⟩ :: rest.runs e (some P.closing)

/-- In no run is there a match of `r`, read in the original text. -/
def Clear (r : Regex α) (e : Option α) : Option α → Cuts L α → Prop
  | b, last u => ¬ Occurs r ⟨b, u, e⟩
  | b, cut u _ w rest =>
    (∀ x v y, u = x ++ (v ++ y) → ¬ Matches r (x.getLast?.or b) v
      ((y ++ (w ++ rest.original)).head?.or e)) ∧ rest.Clear r e ((u ++ w).getLast?.or b)

variable {P} {r : Regex α} {e b : Option α} {k : Cuts L α}

theorem runs_part (k : Cuts L α) (b : Option α) (R : Run α) (hR : R ∈ k.runs P e b) :
    ∃ p q, Part P R ⟨b, k.original, e⟩ p q := by
  induction k generalizing b with
  | last u =>
    obtain rfl := List.mem_singleton.mp hR
    exact ⟨[], [], by simp [original], Or.inr ⟨rfl, rfl⟩, Or.inr ⟨rfl, rfl⟩⟩
  | cut u l w rest ih =>
    rcases List.mem_cons.mp hR with rfl | hR
    · exact ⟨[], w ++ rest.original, rfl, Or.inr ⟨rfl, rfl⟩, Or.inl rfl⟩
    · obtain ⟨p, q, hpart⟩ := ih (some P.closing) hR
      refine ⟨u ++ (w ++ p), q, ?_, ?_, hpart.after⟩
      · have hword : rest.original = p ++ (R.word ++ q) := hpart.word
        simp only [original, hword, List.append_assoc]
      · rcases hpart.before with hb | ⟨-, hb⟩ <;> exact Or.inl hb

theorem original_foldr_cons (u : List α) (k : Cuts L α) :
    (u.foldr cons k).original = u ++ k.original := by
  induction u with
  | nil => rfl
  | cons x u ih => rw [List.foldr_cons, original_cons, ih, List.cons_append]

theorem runs_foldr_cons (v : List α) (k : Cuts L α) (b b' : Option α) : ∃ u a Rs,
    (v.foldr cons k).runs P e b = ⟨b, v ++ u, a⟩ :: Rs ∧ k.runs P e b' = ⟨b', u, a⟩ :: Rs := by
  cases k with
  | last u =>
    rw [foldr_cons_last]
    exact ⟨u, _, [], rfl, rfl⟩
  | cut u l w rest =>
    rw [foldr_cons_cut]
    exact ⟨u, _, _, rfl, rfl⟩

theorem runs_followedBy (k k' : Cuts L α) (l : L) (w : List α) (b : Option α) :
    (k.followedBy l w k').runs P e b =
      k.runs P (some P.opening) b ++ k'.runs P e (some P.closing) := by
  induction k generalizing b with
  | last u => rfl
  | cut u l' w' rest ih => rw [followedBy, runs, runs, ih, List.cons_append]

/-- Read between placeholders, the runs of a clear text have matches only at a placeholder. -/
theorem Clear.guarded (hk : k.Clear r e b) (b' : Option α)
    (hb : b' = some P.closing ∨ b' = b) (R : Run α) (hR : R ∈ k.runs P e b') : Guarded P r R := by
  induction k generalizing b b' with
  | last u =>
    obtain rfl := List.mem_singleton.mp hR
    intro x w y hf
    by_contra hs
    refine hk ⟨x, w, y, hf.word, ?_⟩
    have hm := hf.isMatch
    rcases hb with rfl | rfl
    · cases x with
      | nil => exact absurd (Or.inl ⟨rfl, rfl⟩) hs
      | cons c x =>
        simp only [getLast?_cons_or] at hm ⊢
        exact hm
    · exact hm
  | cut u l w rest ih =>
    rcases List.mem_cons.mp hR with rfl | hR
    · intro x v y hf
      by_contra hs
      have hm := hf.isMatch
      cases y with
      | nil => exact hs (Or.inr ⟨rfl, rfl⟩)
      | cons d y =>
        refine hk.1 x v (d :: y) hf.word ?_
        rcases hb with rfl | rfl
        · cases x with
          | nil => exact absurd (Or.inl ⟨rfl, rfl⟩) hs
          | cons c x =>
            simp only [getLast?_cons_or] at hm ⊢
            exact hm
        · exact hm
    · exact ih hk.2 _ (Or.inl rfl) hR

/-- A pattern without tests has no match in the runs of a clear text. -/
theorem Clear.not_occurs (hk : k.Clear r e b) (hr : Blind r) (b' : Option α) (R : Run α)
    (hR : R ∈ k.runs P e b') : ¬ Occurs r R := by
  induction k generalizing b b' with
  | last u =>
    obtain rfl := List.mem_singleton.mp hR
    rintro ⟨x, w, y, hf⟩
    exact hk ⟨x, w, y, hf.word, hf.isMatch.anywhere hr _ _⟩
  | cut u l w rest ih =>
    rcases List.mem_cons.mp hR with rfl | hR
    · rintro ⟨x, v, y, hf⟩
      exact hk.1 x v y hf.word (hf.isMatch.anywhere hr _ _)
    · exact ih hk.2 _ hR

theorem Clear.mono {s : Regex α} (hk : k.Clear r e b)
    (hs : ∀ b a w, Matches s b w a → Matches r b w a) : k.Clear s e b := by
  induction k generalizing b with
  | last u =>
    rintro ⟨x, w, y, hf⟩
    exact hk ⟨x, w, y, hf.word, hs _ _ _ hf.isMatch⟩
  | cut u l w rest ih => exact ⟨fun x v y hu hm => hk.1 x v y hu (hs _ _ _ hm), ih hk.2⟩

end Cuts

/-! ## One substitution -/

theorem hit_eq_none {e : Option α} {r : Regex α} {c : Cursor α}
    (hr : ∀ b a, ¬ Matches r b [] a) (h : hit e r c = none) :
    ∀ w rest, c.rest = w ++ rest → ¬ Matches r c.prev w (rest.head?.or e) := by
  intro w rest hrest hm
  obtain ⟨d, hw, hd⟩ := c.exists_reads w rest hrest
  cases hf : first e r c with
  | none =>
    refine first_eq_none.mp hf w d hw ?_
    rw [Cursor.next, hd]
    exact hm
  | some f =>
    obtain ⟨v, hv, hmv⟩ := first_sound hf
    have hne : v ≠ [] := by
      rintro rfl
      exact hr _ _ hmv
    have hlen := hv.length
    have hpos := List.length_pos_iff.mpr hne
    rw [hit, hf, Option.filter_some, if_pos (by simp; omega)] at h
    cases h

/-- The scan leaves no match of its pattern in what it keeps. -/
theorem cuts_clear {r : Regex α} {l : L} {e : Option α} (hr : ∀ b a, ¬ Matches r b [] a)
    (c : Cursor α) : (cuts r l e c).Clear r e c.prev := by
  induction c using cuts_induction (r := r) (e := e) with
  | nil b =>
    rintro ⟨x, w, y, hword, hm⟩
    obtain ⟨-, hwy⟩ := List.append_eq_nil_iff.mp (show x ++ (w ++ y) = [] from hword.symm)
    rw [(List.append_eq_nil_iff.mp hwy).1] at hm
    exact hr _ _ hm
  | hit c d w hh hw ih =>
    rw [cuts_hit hh hw]
    refine ⟨?_, ?_⟩
    · intro x v y hu hm
      obtain ⟨-, hvy⟩ := List.append_eq_nil_iff.mp hu.symm
      rw [(List.append_eq_nil_iff.mp hvy).1] at hm
      exact hr _ _ hm
    · rw [List.nil_append, ← hw.prev]
      exact ih
  | miss b z zs hh ih =>
    have hmiss := hit_eq_none hr hh
    have horig := cuts_original (r := r) (l := l) (e := e) ⟨some z, zs⟩
    rw [cuts_miss hh]
    cases hk : cuts r l e ⟨some z, zs⟩ with
    | last u =>
      rw [hk] at ih horig
      rintro ⟨x, w, y, hword, hm⟩
      cases x with
      | nil =>
        refine hmiss w y ?_ hm
        have hu : u = zs := horig
        rw [← hu]
        exact hword
      | cons c x =>
        obtain ⟨rfl, hu⟩ := List.cons.inj (show z :: u = c :: (x ++ (w ++ y)) from hword)
        refine ih ⟨x, w, y, hu, ?_⟩
        rw [← getLast?_cons_or z x b]
        exact hm
    | cut u l' w' rest =>
      rw [hk] at ih horig
      refine ⟨?_, ?_⟩
      · intro x v y hu hm
        cases x with
        | nil =>
          refine hmiss v (y ++ (w' ++ rest.original)) ?_ hm
          have hzs : u ++ (w' ++ rest.original) = zs := horig
          rw [← hzs, ← List.cons_append, hu]
          simp only [List.nil_append, List.append_assoc]
        | cons c x =>
          obtain ⟨rfl, htail⟩ := List.cons.inj (show z :: u = c :: (x ++ (v ++ y)) from hu)
          refine ih.1 x v y htail ?_
          rw [← getLast?_cons_or z x b]
          exact hm
      · rw [List.cons_append, getLast?_cons_or]
        exact ih.2

/-- What a pattern must be for its substitution to respect placeholders. -/
structure Fits (P : Placeholders L α) (r : Regex α) : Prop where
  consumes : ∀ b a, ¬ Matches r b [] a
  opening : Avoids P.opening r
  closing : Avoids P.closing r
  /-- No placeholder has a match in it. -/
  bodies : ∀ l, ¬ Occurs r ⟨some P.opening, P.body l, some P.closing⟩

theorem cuts_of_not_occurs {r : Regex α} {l : L} {e : Option α} (c : Cursor α)
    (h : ¬ Occurs r ⟨c.prev, c.rest, e⟩) : cuts r l e c = .last c.rest := by
  induction c using cuts_induction (r := r) (e := e) with
  | nil b => rfl
  | hit c d w hh hw ih =>
    obtain ⟨v, hv, hm⟩ := first_sound (hit_eq_some hh).1
    exact absurd ⟨[], v, d.rest, hv.rest, hm⟩ h
  | miss b x xs hh ih =>
    rw [cuts_miss hh, ih]
    · rfl
    · rintro ⟨y, w, z, hword, hm⟩
      refine h ⟨x :: y, w, z, by rw [show xs = y ++ (w ++ z) from hword]; rfl, ?_⟩
      rw [getLast?_cons_or]
      exact hm

/-- An alternative that matches nowhere makes no difference. -/
theorem cuts_alt_of_not_occurs {r s : Regex α} {l : L} {e : Option α} (c : Cursor α)
    (h : ¬ Occurs s ⟨c.prev, c.rest, e⟩) : cuts (alt r s) l e c = cuts r l e c := by
  have hhit : ∀ c : Cursor α, ¬ Occurs s ⟨c.prev, c.rest, e⟩ → hit e (alt r s) c = hit e r c := by
    intro c h
    have hnone : ends e s c = [] := by
      refine List.head?_eq_none_iff.mp (first_eq_none.mpr fun w d hw hm => h ?_)
      exact ⟨[], w, d.rest, hw.rest, hm⟩
    rw [hit, hit, first, first, ends, hnone, List.append_nil]
  have hrest : ∀ {c d : Cursor α} {w : List α}, c.Reads w d →
      ¬ Occurs s ⟨c.prev, c.rest, e⟩ → ¬ Occurs s ⟨d.prev, d.rest, e⟩ := by
    rintro c d w hw h ⟨x, v, y, hword, hm⟩
    refine h ⟨w ++ x, v, y, ?_, ?_⟩
    · rw [show c.rest = w ++ d.rest from hw.rest, show d.rest = x ++ (v ++ y) from hword,
        List.append_assoc]
    · rw [getLast?_append_or]
      rw [hw.prev] at hm
      exact hm
  induction c using cuts_induction (r := alt r s) (e := e) with
  | nil b => rfl
  | hit c d w hh hw ih =>
    rw [cuts_hit hh hw, ih (hrest hw h)]
    rw [hhit c h] at hh
    rw [cuts_hit hh hw]
  | miss b x xs hh ih =>
    rw [cuts_miss hh, ih (hrest (w := [x]) ⟨rfl, rfl⟩ h)]
    rw [hhit _ h] at hh
    rw [cuts_miss hh]

section Recut

variable (P : Placeholders L α) (r : Regex α) (l : L) (e : Option α)

/-- Every run is cut by itself. -/
def recut : Option α → Cuts L α → Cuts L α
  | b, .last u => cuts r l e ⟨b, u⟩
  | b, .cut u l' w rest =>
    (cuts r l (some P.opening) ⟨b, u⟩).followedBy l' w (recut (some P.closing) rest)

variable {P r l e}

theorem recut_original (b : Option α) (k : Cuts L α) : (recut P r l e b k).original = k.original := by
  induction k generalizing b with
  | last u => exact cuts_original _
  | cut u l' w rest ih =>
    rw [recut, Cuts.original_followedBy, cuts_original, ih]
    rfl

/-- **A substitution works on the runs**: placeholders stay as they are. -/
theorem render_recut (hr : Fits P r) (b : Option α) (k : Cuts L α) :
    (cuts r l e ⟨b, k.render P.text⟩).render P.text = (recut P r l e b k).render P.text := by
  induction k generalizing b with
  | last u => rfl
  | cut u l' w rest ih =>
    have hbody : cuts r l (some P.closing) ⟨some P.opening, P.body l'⟩ = .last (P.body l') :=
      cuts_of_not_occurs ⟨some P.opening, P.body l'⟩ (hr.bodies l')
    have hopening := cuts_barrier (l := l) hr.opening e
      (P.body l' ++ P.closing :: rest.render P.text) ⟨b, u⟩
    have hclosing := cuts_barrier (l := l) hr.closing e (rest.render P.text)
      ⟨some P.opening, P.body l'⟩
    have htext : (Cuts.cut u l' w rest).render P.text =
        u ++ P.opening :: (P.body l' ++ P.closing :: rest.render P.text) := by
      simp [Cuts.render, Placeholders.text]
    rw [htext, recut, Cuts.render_followedBy, ← ih]
    simp only [Cursor.extend] at hopening hclosing
    rw [hopening, hclosing, hbody]
    simp only [Cuts.render_append, Cuts.render_cons, Cuts.render, Placeholders.text,
      List.cons_append, List.append_assoc, List.nil_append]

theorem recut_part (b : Option α) (k : Cuts L α) (R : Run α)
    (hR : R ∈ (recut P r l e b k).runs P e b) : ∃ R' ∈ k.runs P e b, ∃ p q, Part P R R' p q := by
  induction k generalizing b with
  | last u =>
    obtain ⟨p, q, hpart⟩ := Cuts.runs_part _ b R hR
    rw [recut, cuts_original] at hpart
    exact ⟨_, List.mem_singleton_self _, p, q, hpart⟩
  | cut u l' w rest ih =>
    rw [recut, Cuts.runs_followedBy] at hR
    rcases List.mem_append.mp hR with hR | hR
    · obtain ⟨p, q, hpart⟩ := Cuts.runs_part _ b R hR
      rw [cuts_original] at hpart
      exact ⟨_, List.mem_cons_self, p, q, hpart⟩
    · obtain ⟨R', hR', hpart⟩ := ih _ hR
      exact ⟨R', List.mem_cons_of_mem _ hR', hpart⟩

theorem recut_guarded (hr : ∀ b a, ¬ Matches r b [] a) (b : Option α) (k : Cuts L α) (R : Run α)
    (hR : R ∈ (recut P r l e b k).runs P e b) : Guarded P r R := by
  induction k generalizing b with
  | last u => exact (cuts_clear hr ⟨b, u⟩).guarded b (Or.inr rfl) R hR
  | cut u l' w rest ih =>
    rw [recut, Cuts.runs_followedBy] at hR
    rcases List.mem_append.mp hR with hR | hR
    · exact (cuts_clear hr ⟨b, u⟩).guarded b (Or.inr rfl) R hR
    · exact ih _ hR

theorem recut_blind {s : Regex α} (hr : ∀ b a, ¬ Matches r b [] a) (hs : Blind s)
    (hsr : ∀ b a w, Matches s b w a → Matches r b w a) (b : Option α) (k : Cuts L α) (R : Run α)
    (hR : R ∈ (recut P r l e b k).runs P e b) : ¬ Occurs s R := by
  induction k generalizing b with
  | last u => exact ((cuts_clear hr ⟨b, u⟩).mono hsr).not_occurs hs b R hR
  | cut u l' w rest ih =>
    rw [recut, Cuts.runs_followedBy] at hR
    rcases List.mem_append.mp hR with hR | hR
    · exact ((cuts_clear hr ⟨b, u⟩).mono hsr).not_occurs hs b R hR
    · exact ih _ hR

theorem recut_of_not_occurs (b : Option α) (k : Cuts L α)
    (h : ∀ R ∈ k.runs P e b, ¬ Occurs r R) : recut P r l e b k = k := by
  induction k generalizing b with
  | last u => exact cuts_of_not_occurs ⟨b, u⟩ (h _ List.mem_cons_self)
  | cut u l' w rest ih =>
    rw [recut, cuts_of_not_occurs ⟨b, u⟩ (h _ List.mem_cons_self),
      ih _ fun R hR => h R (List.mem_cons_of_mem _ hR)]
    rfl

/-- What no match begins with stays in front. -/
theorem recut_foldr_cons {p : α → Prop} (hr : Begins p r) (b : Option α) (v : List α)
    (hv : ∀ x ∈ v, ¬ p x) (k : Cuts L α) :
    recut P r l e b (v.foldr Cuts.cons k) =
      v.foldr Cuts.cons (recut P r l e (v.getLast?.or b) k) := by
  cases k with
  | last u =>
    rw [Cuts.foldr_cons_last, recut, recut]
    exact cuts_skip hr e b v u hv
  | cut u l' w rest =>
    rw [Cuts.foldr_cons_cut, recut, recut, cuts_skip hr (some P.opening) b v u hv]
    cases cuts r l (some P.opening) ⟨v.getLast?.or b, u⟩ with
    | last x => rw [Cuts.foldr_cons_last, Cuts.followedBy, Cuts.followedBy, Cuts.foldr_cons_cut]
    | cut x l'' w' k =>
      rw [Cuts.foldr_cons_cut, Cuts.followedBy, Cuts.followedBy, Cuts.foldr_cons_cut]

variable (P r l) in
/-- What a substitution makes of one run. -/
def pieces (R : Run α) : List (Run α) :=
  (cuts r l R.after ⟨R.before, R.word⟩).runs P R.after R.before

theorem runs_recut (b : Option α) (k : Cuts L α) :
    (recut P r l e b k).runs P e b = (k.runs P e b).flatMap (pieces P r l) := by
  induction k generalizing b with
  | last u => simp [recut, Cuts.runs, pieces]
  | cut u l' w rest ih =>
    rw [recut, Cuts.runs_followedBy, ih, Cuts.runs, List.flatMap_cons]
    rfl

@[simp] theorem pieces_nil (b a : Option α) : pieces P r l ⟨b, [], a⟩ = [⟨b, [], a⟩] := rfl

theorem pieces_of_not_occurs {R : Run α} (h : ¬ Occurs r R) : pieces P r l R = [R] := by
  rw [pieces, cuts_of_not_occurs ⟨R.before, R.word⟩ h]
  rfl

/-- A pattern matches somewhere in a text exactly if it does in one of its runs. -/
theorem occurs_render (hr : Fits P r) (b : Option α) (k : Cuts L α) :
    Occurs r ⟨b, k.render P.text, e⟩ ↔ ∃ R ∈ k.runs P e b, Occurs r R := by
  induction k generalizing b with
  | last u =>
    simp only [Cuts.render, Cuts.runs, List.mem_singleton, exists_eq_left]
  | cut u l' w rest ih =>
    have htext : (Cuts.cut u l' w rest).render P.text =
        u ++ P.opening :: (P.body l' ++ P.closing :: rest.render P.text) := by
      simp [Cuts.render, Placeholders.text]
    rw [htext, occurs_barrier hr.opening hr.consumes, occurs_barrier hr.closing hr.consumes, ih]
    simp only [hr.bodies l', false_or, Cuts.runs, List.mem_cons, exists_eq_or_imp]

end Recut

/-! ## One substitution after the other -/

structure Classifier (P : Placeholders L α) where
  label : L
  pattern : Regex α
  fits : Fits P pattern

section Apply

variable {P : Placeholders L α}

/-- What every classifier in turn takes out of the runs. -/
def apply (Cs : List (Classifier P)) (k : Cuts L α) : Cuts L α :=
  Cs.foldl (fun k C => recut P C.pattern C.label none none k) k

/-- What every classifier in turn replaces in the text. -/
def subAll (Cs : List (Classifier P)) (text : List α) : List α :=
  Cs.foldl (fun text C => sub C.pattern (P.text C.label) text) text

theorem apply_original (Cs : List (Classifier P)) (k : Cuts L α) :
    (apply Cs k).original = k.original := by
  induction Cs generalizing k with
  | nil => rfl
  | cons C Cs ih => rw [apply, List.foldl_cons, ← apply, ih, recut_original]

/-- **The text of the end is the rendering of the runs of the end.** -/
theorem render_apply (Cs : List (Classifier P)) (k : Cuts L α) :
    subAll Cs (k.render P.text) = (apply Cs k).render P.text := by
  induction Cs generalizing k with
  | nil => rfl
  | cons C Cs ih =>
    have hstep : sub C.pattern (P.text C.label) (k.render P.text) =
        (recut P C.pattern C.label none none k).render P.text := by
      rw [← render_recut C.fits, sub]
      exact cuts_render_const _ P.text rfl _
    rw [subAll, List.foldl_cons, hstep, ← subAll, ih]
    rfl

theorem apply_keeps {good : Run α → Prop}
    (hpart : ∀ R R' p q, Part P R R' p q → good R' → good R) (Cs : List (Classifier P))
    (k : Cuts L α) (hk : ∀ R ∈ k.runs P none none, good R) :
    ∀ R ∈ (apply Cs k).runs P none none, good R := by
  induction Cs generalizing k with
  | nil => exact hk
  | cons C Cs ih =>
    refine ih _ fun R hR => ?_
    obtain ⟨R', hR', p, q, h⟩ := recut_part none k R hR
    exact hpart R R' p q h (hk R' hR')

theorem apply_reaches {good : Run α → Prop}
    (hpart : ∀ R R' p q, Part P R R' p q → good R' → good R) (Cs : List (Classifier P))
    (C : Classifier P) (hC : C ∈ Cs)
    (hgood : ∀ k, ∀ R ∈ (recut P C.pattern C.label none none k).runs P none none, good R)
    (k : Cuts L α) : ∀ R ∈ (apply Cs k).runs P none none, good R := by
  induction Cs generalizing k with
  | nil => cases hC
  | cons D Cs ih =>
    rcases List.mem_cons.mp hC with rfl | hC
    · exact apply_keeps hpart Cs _ (hgood k)
    · exact ih hC _

/-- **Only at a placeholder can a match be left over.** -/
theorem apply_guarded (Cs : List (Classifier P)) (C : Classifier P) (hC : C ∈ Cs) (k : Cuts L α) :
    ∀ R ∈ (apply Cs k).runs P none none, Guarded P C.pattern R :=
  apply_reaches (fun _ _ _ _ h hg => h.guarded hg) Cs C hC
    (fun k R hR => recut_guarded C.fits.consumes none k R hR) k

/-- A pattern without tests, taken out on its own or with others, leaves nothing over. -/
theorem apply_blind (Cs : List (Classifier P)) (C : Classifier P) (hC : C ∈ Cs) (s : Regex α)
    (hs : Blind s) (hsr : ∀ b a w, Matches s b w a → Matches C.pattern b w a) (k : Cuts L α) :
    ∀ R ∈ (apply Cs k).runs P none none, ¬ Occurs s R :=
  apply_reaches (fun _ _ _ _ h hg ho => hg (h.occurs_of_blind hs ho)) Cs C hC
    (fun k R hR => recut_blind C.fits.consumes hs hsr none k R hR) k

theorem sub_of_not_occurs {r : Regex α} {repl text : List α}
    (h : ¬ Occurs r ⟨none, text, none⟩) : sub r repl text = text := by
  rw [sub, cuts_of_not_occurs ⟨none, text⟩ h]
  rfl

/-- A text without matches stays as it is. -/
theorem subAll_of_not_occurs (Cs : List (Classifier P)) (text : List α)
    (h : ∀ C ∈ Cs, ¬ Occurs C.pattern ⟨none, text, none⟩) : subAll Cs text = text := by
  induction Cs with
  | nil => rfl
  | cons C Cs ih =>
    rw [subAll, List.foldl_cons, sub_of_not_occurs (h C List.mem_cons_self), ← subAll]
    exact ih fun D hD => h D (List.mem_cons_of_mem _ hD)

/-- **When nothing is left over**: no pattern matches in the text of the end exactly if none
matches at a placeholder. -/
theorem clean_iff (Cs : List (Classifier P)) (k : Cuts L α) :
    (∀ C ∈ Cs, ¬ Occurs C.pattern ⟨none, subAll Cs (k.render P.text), none⟩) ↔
      ∀ C ∈ Cs, ∀ R ∈ (apply Cs k).runs P none none, ¬ Exposed P C.pattern R := by
  rw [render_apply]
  refine forall₂_congr fun C hC => ?_
  rw [occurs_render C.fits]
  constructor
  · rintro hnone R hR ⟨x, w, y, hf, -⟩
    exact hnone ⟨R, hR, x, w, y, hf⟩
  · rintro hnone ⟨R, hR, x, w, y, hf⟩
    exact hnone R hR ⟨x, w, y, hf, apply_guarded Cs C hC k R hR x w y hf⟩

end Apply

/-! ## Nothing but placeholders -/

section Nothing

variable {P : Placeholders L α} {lit : List α}

/-- The text is the beginning of a literal at most, and placeholders after it. -/
def OnlyPlaceholders (P : Placeholders L α) (lit text : List α) : Prop :=
  ∃ (p : List α) (ls : List L), p <+: lit ∧ text = p ++ ls.flatMap P.text

/-- Nothing is kept but the beginning of a literal, in the first run. -/
def Emptied (lit : List α) (Rs : List (Run α)) : Prop :=
  ∃ R Rs', Rs = R :: Rs' ∧ R.word <+: lit ∧ ∀ Q ∈ Rs', Q.word = []

theorem emptied_append {Rs Qs : List (Run α)} (hne : Rs ≠ []) :
    Emptied lit (Rs ++ Qs) ↔ Emptied lit Rs ∧ ∀ Q ∈ Qs, Q.word = [] := by
  obtain ⟨R, Rs', rfl⟩ := List.exists_cons_of_ne_nil hne
  constructor
  · rintro ⟨S, Ss, heq, hS, hrest⟩
    obtain ⟨rfl, rfl⟩ := List.cons.inj heq
    exact ⟨⟨R, Rs', rfl, hS, fun Q hQ => hrest Q (List.mem_append_left _ hQ)⟩,
      fun Q hQ => hrest Q (List.mem_append_right _ hQ)⟩
  · rintro ⟨⟨S, Ss, heq, hS, hrest⟩, hQs⟩
    obtain ⟨rfl, rfl⟩ := List.cons.inj heq
    refine ⟨R, Rs' ++ Qs, rfl, hS, fun Q hQ => ?_⟩
    exact (List.mem_append.mp hQ).elim (hrest Q) (hQs Q)

theorem emptied_singleton {R : Run α} : Emptied lit [R] ↔ R.word <+: lit := by
  constructor
  · rintro ⟨S, Ss, heq, hS, -⟩
    obtain ⟨rfl, -⟩ := List.cons.inj heq
    exact hS
  · exact fun h => ⟨R, [], rfl, h, fun Q hQ => absurd hQ List.not_mem_nil⟩

theorem emptied_nil {Rs : List (Run α)} (hne : Rs ≠ []) :
    Emptied [] Rs ↔ ∀ Q ∈ Rs, Q.word = [] := by
  obtain ⟨R, Rs', rfl⟩ := List.exists_cons_of_ne_nil hne
  rw [← List.singleton_append, emptied_append (List.cons_ne_nil R []), emptied_singleton,
    List.prefix_nil, List.singleton_append, List.forall_mem_cons]

theorem Cuts.runs_ne_nil (k : Cuts L α) (e b : Option α) : k.runs P e b ≠ [] := by
  cases k <;> exact List.cons_ne_nil _ _

theorem emptied_of_nil {Rs : List (Run α)} (hne : Rs ≠ []) (h : ∀ Q ∈ Rs, Q.word = []) :
    Emptied lit Rs := by
  obtain ⟨R, Rs', rfl⟩ := List.exists_cons_of_ne_nil hne
  refine ⟨R, Rs', rfl, ?_, fun Q hQ => h Q (List.mem_cons_of_mem R hQ)⟩
  rw [h R List.mem_cons_self]
  exact List.nil_prefix

/-- With the literal kept in front, the rest has to go. -/
theorem emptied_foldr_cons (k : Cuts L α) (e b b' : Option α) :
    Emptied lit ((lit.foldr Cuts.cons k).runs P e b) ↔ ∀ Q ∈ k.runs P e b', Q.word = [] := by
  have hprefix : ∀ u : List α, lit ++ u <+: lit ↔ u = [] := by
    intro u
    constructor
    · intro h
      have hlen := h.length_le
      rw [List.length_append] at hlen
      exact List.length_eq_zero_iff.mp (by omega)
    · rintro rfl
      simp
  cases k with
  | last u =>
    rw [Cuts.foldr_cons_last, Cuts.runs, Cuts.runs, emptied_singleton, hprefix]
    simp
  | cut u l w rest =>
    rw [Cuts.foldr_cons_cut, Cuts.runs, Cuts.runs, ← List.singleton_append,
      emptied_append (List.cons_ne_nil _ []), emptied_singleton, hprefix, List.forall_mem_cons]

/-- If nothing is kept, there is a match where the text begins. -/
theorem exists_hit_of_runs_nil {r : Regex α} {l : L} {e b : Option α} {c : Cursor α}
    (hne : c.rest ≠ []) (h : ∀ Q ∈ (cuts r l e c).runs P e b, Q.word = []) :
    ∃ d, hit e r c = some d := by
  obtain ⟨b', rest⟩ := c
  obtain ⟨x, xs, rfl⟩ := List.exists_cons_of_ne_nil hne
  cases hh : hit e r ⟨b', x :: xs⟩ with
  | some d => exact ⟨d, rfl⟩
  | none =>
    rw [cuts_miss hh] at h
    cases hk : cuts r l e ⟨some x, xs⟩ with
    | last u =>
      rw [hk] at h
      exact absurd (h _ List.mem_cons_self) (List.cons_ne_nil x u)
    | cut u l' w rest =>
      rw [hk] at h
      exact absurd (h _ List.mem_cons_self) (List.cons_ne_nil x u)

/-- Where a character stands for the first time. -/
theorem first_place {z : α} {u v x y : List α} (hu : z ∉ u) (hv : z ∉ v)
    (h : u ++ z :: x = v ++ z :: y) : u = v ∧ x = y := by
  induction u generalizing v with
  | nil =>
    cases v with
    | nil => exact ⟨rfl, (List.cons.inj h).2⟩
    | cons c v => exact absurd (List.mem_cons.mpr (Or.inl (List.cons.inj h).1)) hv
  | cons c u ih =>
    cases v with
    | nil => exact absurd (List.mem_cons.mpr (Or.inl (List.cons.inj h).1.symm)) hu
    | cons d v =>
      obtain ⟨rfl, htail⟩ := List.cons.inj h
      obtain ⟨rfl, hxy⟩ := ih (fun hz => hu (List.mem_cons_of_mem c hz))
        (fun hz => hv (List.mem_cons_of_mem c hz)) htail
      exact ⟨rfl, hxy⟩

/-- A text is nothing but placeholders exactly if its runs are empty. -/
theorem onlyPlaceholders_render (hlit : P.opening ∉ lit) (hbody : ∀ l, P.closing ∉ P.body l)
    (k : Cuts L α) (e b : Option α) (hk : ∀ R ∈ k.runs P e b, P.opening ∉ R.word) :
    OnlyPlaceholders P lit (k.render P.text) ↔ Emptied lit (k.runs P e b) := by
  induction k generalizing lit b with
  | last u =>
    constructor
    · rintro ⟨p, ls, hp, heq⟩
      cases ls with
      | nil =>
        rw [List.flatMap_nil, List.append_nil] at heq
        refine emptied_singleton.mpr ?_
        rw [← heq] at hp
        exact hp
      | cons l ls =>
        refine absurd ?_ (hk _ List.mem_cons_self)
        rw [show u = p ++ (l :: ls).flatMap P.text from heq]
        simp [Placeholders.text]
    · rintro ⟨R, Rs', heq, hR, -⟩
      obtain ⟨rfl, -⟩ := List.cons.inj heq
      exact ⟨u, [], hR, (List.append_nil u).symm⟩
  | cut u l w rest ih =>
    have hu : P.opening ∉ u := hk _ List.mem_cons_self
    have hrest := @ih [] List.not_mem_nil (some P.closing)
      fun R hR => hk R (List.mem_cons_of_mem _ hR)
    have hsplit : Emptied lit ((Cuts.cut u l w rest).runs P e b) ↔
        u <+: lit ∧ Emptied [] (rest.runs P e (some P.closing)) := by
      rw [emptied_nil (rest.runs_ne_nil e _), ← emptied_singleton (R := ⟨b, u, some P.opening⟩)]
      exact emptied_append (List.cons_ne_nil _ [])
    rw [hsplit, ← hrest]
    constructor
    · rintro ⟨p, ls, hp, heq⟩
      have hp' : P.opening ∉ p := fun hz => hlit (hp.subset hz)
      cases ls with
      | nil =>
        rw [List.flatMap_nil, List.append_nil] at heq
        refine absurd ?_ hp'
        rw [← heq]
        simp [Cuts.render, Placeholders.text]
      | cons l' ls =>
        have hplace : u ++ P.opening :: (P.body l ++ P.closing :: rest.render P.text) =
            p ++ P.opening :: (P.body l' ++ P.closing :: ls.flatMap P.text) := by
          simpa [Cuts.render, Placeholders.text] using heq
        obtain ⟨rfl, hbodies⟩ := first_place hu hp' hplace
        obtain ⟨-, htail⟩ := first_place (hbody l) (hbody l') hbodies
        exact ⟨hp, [], ls, List.prefix_rfl, htail⟩
    · rintro ⟨hu', p, ls, hp, heq⟩
      obtain rfl := List.prefix_nil.mp hp
      refine ⟨u, l :: ls, hu', ?_⟩
      rw [Cuts.render, heq, List.nil_append, List.flatMap_cons]

end Nothing

end Regex
