import Sigil.Python.Tokens

/-! # Reading back what was written

`asJson` is what is left of a value once it has been written and read: tuples have become lists, keys
strings, and of bindings with the same key the last value stays. `loads_dumps` says that reading
what `dumps` wrote gives exactly that. What it needs of the host is the syntax of `repr(float)`.
-/
set_option autoImplicit false

namespace Sigil.Json

open PyVal (dumps dumpsItems dumpsEntries dumpsStr dumpsKey dumpsBool dumpsFloat)

/-! ## Values -/

/-- The texts `repr` has for floats. -/
def FloatText (text : String) : Prop :=
  text ∈ ["nan", "inf", "-inf"] ∨
    ∃ sign int frac exp, NumberText text.toList sign int frac exp ∧ ¬ (frac = [] ∧ exp = [])

def FloatTexts (h : Host) : Prop := ∀ bits, FloatText (h.reprFloat bits)

/-- The text of a key. -/
def keyText : PyKey → String
  | .str s => s
  | .int i => toString i
  | .bool b => dumpsBool b
  | .none => "null"

mutual

/-- A value as it is read back. -/
def asJson (h : Host) : PyVal → PyVal
  | .none => .none
  | .bool b => .bool b
  | .int i => .int i
  | .float bits => .float (h.floatBits (dumpsFloat h bits))
  | .str s => .str s
  | .list xs => .list (asJsonItems h xs)
  | .tuple xs => .list (asJsonItems h xs)
  | .dict kvs => dictOf (asJsonEntries h kvs)

def asJsonItems (h : Host) : List PyVal → List PyVal
  | [] => []
  | x :: xs => asJson h x :: asJsonItems h xs

def asJsonEntries (h : Host) : List (PyKey × PyVal) → List (PyKey × PyVal)
  | [] => []
  | (k, v) :: kvs => (.str (keyText k), asJson h v) :: asJsonEntries h kvs

end

theorem dumpsKey_eq (a : Bool) (k : PyKey) : dumpsKey a k = dumpsStr a (keyText k) := by
  cases k <;> rfl

theorem parseConstant_number (h : Host) (c : Char) (cs : List Char)
    (hc : c ∉ ['n', 't', 'f', 'N', 'I', '-']) :
    parseConstant h (c :: cs) = parseNumber h (c :: cs) := by
  simp only [List.mem_cons, List.not_mem_nil, or_false, not_or] at hc
  obtain ⟨hn, ht, hf, hN, hI, hm⟩ := hc
  simp [parseConstant, token?, Ne.symm hn, Ne.symm ht, Ne.symm hf, Ne.symm hN, Ne.symm hI,
    Ne.symm hm]

theorem parseConstant_minus (h : Host) (c : Char) (cs : List Char) (hc : c ≠ 'I') :
    parseConstant h ('-' :: c :: cs) = parseNumber h ('-' :: c :: cs) := by
  simp [parseConstant, token?, Ne.symm hc]

theorem parseValue_constant (h : Host) (fuel : ℕ) (c : Char) (cs : List Char)
    (hc : c ∉ [quoteChar, '[', Char.ofNat 0x7b]) :
    parseValue h (fuel + 1) (c :: cs) = parseConstant h (c :: cs) := by
  simp only [List.mem_cons, List.not_mem_nil, or_false, not_or] at hc
  obtain ⟨hq, hb, hd⟩ := hc
  rw [parseValue, if_neg hq, if_neg hb, if_neg hd]

theorem not_mem_of_digit (c : Char) (hc : c.isDigit = true) (cs : List Char)
    (hcs : cs.all (fun d => !d.isDigit) = true) : c ∉ cs := by
  intro hmem
  have hnot := List.all_eq_true.mp hcs c hmem
  rw [hc] at hnot
  cases hnot

theorem parseValue_number (h : Host) (fuel : ℕ) (text sign int frac exp rest : List Char)
    (ht : NumberText text sign int frac exp) :
    parseValue h (fuel + 1) (text ++ rest) = parseNumber h (text ++ rest) := by
  obtain ⟨c, cs, rfl, hc | ⟨rfl, d, ds, rfl, hd⟩⟩ := ht.head
  · rw [List.cons_append, parseValue_constant, parseConstant_number]
    · exact not_mem_of_digit c hc _ rfl
    · exact not_mem_of_digit c hc _ rfl
  · rw [List.cons_append, List.cons_append, parseValue_constant h fuel '-' _ (by decide),
      parseConstant_minus]
    rintro rfl
    revert hd
    decide

theorem parseValue_int (h : Host) (fuel : ℕ) (i : ℤ) (rest : List Char) (hrest : Stops rest) :
    parseValue h (fuel + 1) ((toString i).toList ++ rest) = some (.int i, rest) := by
  obtain ⟨sign, int, ht, hi⟩ := toString_numberText i
  rw [parseValue_number h fuel _ sign int [] [] rest ht,
    parseNumber_text h _ sign int [] [] rest ht hrest, if_pos ⟨rfl, rfl⟩, hi]

theorem dumpsFloat_number (h : Host) (bits : UInt64) (sign int frac exp : List Char)
    (ht : NumberText (h.reprFloat bits).toList sign int frac exp) :
    dumpsFloat h bits = h.reprFloat bits := by
  obtain ⟨c, cs, hc, hcase⟩ := ht.head
  have hnan : h.reprFloat bits ≠ "nan" := by
    intro heq
    rw [heq] at hc
    obtain ⟨rfl, rfl⟩ : c = 'n' ∧ cs = ['a', 'n'] := by simpa [eq_comm] using hc
    simp at hcase
  have hinf : h.reprFloat bits ≠ "inf" := by
    intro heq
    rw [heq] at hc
    obtain ⟨rfl, rfl⟩ : c = 'i' ∧ cs = ['n', 'f'] := by simpa [eq_comm] using hc
    simp at hcase
  have hneg : h.reprFloat bits ≠ "-inf" := by
    intro heq
    rw [heq] at hc
    obtain ⟨rfl, rfl⟩ : c = '-' ∧ cs = ['i', 'n', 'f'] := by simpa [eq_comm] using hc
    simp at hcase
  simp only [dumpsFloat, if_neg hnan, if_neg hinf, if_neg hneg]

theorem parseValue_float (h : Host) (hf : FloatTexts h) (fuel : ℕ) (bits : UInt64)
    (rest : List Char) (hrest : Stops rest) :
    parseValue h (fuel + 1) ((dumpsFloat h bits).toList ++ rest) =
      some (.float (h.floatBits (dumpsFloat h bits)), rest) := by
  rcases hf bits with hspecial | ⟨sign, int, frac, exp, ht, hne⟩
  · simp only [List.mem_cons, List.not_mem_nil, or_false] at hspecial
    rcases hspecial with hr | hr | hr <;>
      simp [dumpsFloat, hr, parseValue_constant, parseConstant, token?, quoteChar]
  · have hplain := dumpsFloat_number h bits sign int frac exp ht
    rw [hplain, parseValue_number h fuel _ sign int frac exp rest ht,
      parseNumber_text h _ sign int frac exp rest ht hrest, if_neg hne, String.ofList_toList]

theorem NumberText.head_plain {text sign int frac exp : List Char}
    (h : NumberText text sign int frac exp) :
    ∃ c cs, text = c :: cs ∧ isWhitespace c = false ∧ c ≠ ']' := by
  obtain ⟨c, cs, rfl, hc | ⟨rfl, -⟩⟩ := h.head
  · refine ⟨c, cs, rfl, ?_, ?_⟩
    · have hmem := not_mem_of_digit c hc [' ', '\t', '\n', '\r'] rfl
      simpa [isWhitespace, and_assoc] using hmem
    · have hmem := not_mem_of_digit c hc [']'] rfl
      simpa using hmem
  · exact ⟨'-', cs, rfl, by decide, by decide⟩

/-- A written value starts with no white space and does not look like the end of a list. -/
theorem dumps_head (h : Host) (hf : FloatTexts h) (a : Bool) (v : PyVal) :
    ∃ c cs, (dumps h a v).toList = c :: cs ∧ isWhitespace c = false ∧ c ≠ ']' := by
  cases v with
  | none => exact ⟨'n', ['u', 'l', 'l'], by simp [dumps], by decide, by decide⟩
  | bool b =>
    cases b with
    | true => exact ⟨'t', ['r', 'u', 'e'], by simp [dumps, dumpsBool], by decide, by decide⟩
    | false => exact ⟨'f', ['a', 'l', 's', 'e'], by simp [dumps, dumpsBool], by decide, by decide⟩
  | int i =>
    obtain ⟨sign, int, ht, -⟩ := toString_numberText i
    rw [dumps]
    exact ht.head_plain
  | float bits =>
    rw [dumps]
    rcases hf bits with hspecial | ⟨sign, int, frac, exp, ht, -⟩
    · simp only [List.mem_cons, List.not_mem_nil, or_false] at hspecial
      rcases hspecial with hr | hr | hr <;> simp [dumpsFloat, hr] <;> decide
    · rw [dumpsFloat_number h bits sign int frac exp ht]
      exact ht.head_plain
  | str s => exact ⟨quoteChar, _, by rw [dumps]; exact dumpsStr_toList a s, by decide, by decide⟩
  | list xs => exact ⟨'[', _, by simp [dumps]; rfl, by decide, by decide⟩
  | tuple xs => exact ⟨'[', _, by simp [dumps]; rfl, by decide, by decide⟩
  | dict kvs => exact ⟨Char.ofNat 0x7b, _, by simp [dumps]; rfl, by decide, by decide⟩

theorem skipWhitespace_cons (c : Char) (cs : List Char) (hc : isWhitespace c = false) :
    skipWhitespace (c :: cs) = c :: cs := by
  simp [skipWhitespace, hc]

theorem skip_dumps (h : Host) (hf : FloatTexts h) (a : Bool) (v : PyVal) (rest : List Char) :
    skipWhitespace ((dumps h a v).toList ++ rest) = (dumps h a v).toList ++ rest := by
  obtain ⟨c, cs, heq, hc, -⟩ := dumps_head h hf a v
  rw [heq, List.cons_append, skipWhitespace_cons c _ hc]

theorem parseValue_str (h : Host) (a : Bool) (fuel : ℕ) (s : String) (rest : List Char) :
    parseValue h (fuel + 1) ((dumpsStr a s).toList ++ rest) = some (.str s, rest) := by
  rw [dumpsStr_toList]
  simp only [List.cons_append, List.append_assoc, List.nil_append, parseValue, if_true,
    parseString_escapes, Option.map_some]

theorem dumpsItems_toList (h : Host) (a : Bool) (x : PyVal) (xs : List PyVal) :
    (dumpsItems h a (x :: xs)).toList = (dumps h a x).toList ++
      (if xs.isEmpty then [] else ',' :: (dumpsItems h a xs).toList) := by
  cases xs <;> simp [dumpsItems]

theorem dumpsEntries_toList (h : Host) (a : Bool) (k : PyKey) (v : PyVal)
    (kvs : List (PyKey × PyVal)) :
    (dumpsEntries h a ((k, v) :: kvs)).toList = (dumpsStr a (keyText k)).toList ++
      ':' :: ((dumps h a v).toList ++
        (if kvs.isEmpty then [] else ',' :: (dumpsEntries h a kvs).toList)) := by
  cases kvs <;> simp [dumpsEntries, dumpsKey_eq]

/-- An array with items, once they have been read. -/
theorem parseValue_items (h : Host) (hf : FloatTexts h) (a : Bool) (fuel : ℕ) (x : PyVal)
    (xs ys : List PyVal) (rest : List Char)
    (hitems : parseItems h fuel ((dumpsItems h a (x :: xs)).toList ++ ']' :: rest) =
      some (ys, rest)) :
    parseValue h (fuel + 1) ('[' :: ((dumpsItems h a (x :: xs)).toList ++ ']' :: rest)) =
      some (.list ys, rest) := by
  obtain ⟨c, cs, heq, hc, hne⟩ := dumps_head h hf a x
  have hbracket : '[' ≠ quoteChar := by decide
  rw [dumpsItems_toList, heq] at hitems ⊢
  simp only [List.cons_append] at hitems ⊢
  rw [parseValue, if_neg hbracket, if_pos rfl, skipWhitespace_cons c _ hc]
  split
  · next h' =>
    cases h'
    exact absurd rfl hne
  · rw [hitems]
    rfl

/-- An object with members, once they have been read. -/
theorem parseValue_members (h : Host) (a : Bool) (fuel : ℕ) (k : PyKey) (v : PyVal)
    (kvs kvs' : List (PyKey × PyVal)) (rest : List Char)
    (hmembers : parseMembers h fuel
      ((dumpsEntries h a ((k, v) :: kvs)).toList ++ Char.ofNat 0x7d :: rest) = some (kvs', rest)) :
    parseValue h (fuel + 1) (Char.ofNat 0x7b ::
      ((dumpsEntries h a ((k, v) :: kvs)).toList ++ Char.ofNat 0x7d :: rest)) =
      some (dictOf kvs', rest) := by
  have hquote : Char.ofNat 0x7b ≠ quoteChar := by decide
  have hbracket : Char.ofNat 0x7b ≠ '[' := by decide
  have hclose : quoteChar ≠ Char.ofNat 0x7d := by decide
  rw [dumpsEntries_toList, dumpsStr_toList] at hmembers ⊢
  simp only [List.cons_append] at hmembers ⊢
  rw [parseValue, if_neg hquote, if_neg hbracket, if_pos rfl,
    skipWhitespace_cons quoteChar _ (by decide)]
  simp only [if_neg hclose, hmembers, Option.map_some]

section Member

variable (h : Host) (hf : FloatTexts h) (a : Bool) (fuel : ℕ) (k : PyKey) (v w : PyVal)
  (rest : List Char)

include hf in
theorem parseMembers_last
    (hv : parseValue h fuel ((dumps h a v).toList ++ Char.ofNat 0x7d :: rest) =
      some (w, Char.ofNat 0x7d :: rest)) :
    parseMembers h (fuel + 1) ((dumpsStr a (keyText k)).toList ++
        ':' :: ((dumps h a v).toList ++ Char.ofNat 0x7d :: rest)) =
      some ([(.str (keyText k), w)], rest) := by
  have hcolon := skipWhitespace_cons ':' ((dumps h a v).toList ++ Char.ofNat 0x7d :: rest)
    (by decide)
  have hclose := skipWhitespace_cons (Char.ofNat 0x7d) rest (by decide)
  rw [dumpsStr_toList]
  simp only [List.cons_append, List.append_assoc, List.nil_append, parseMembers, if_true,
    parseString_escapes, Option.bind_eq_bind, Option.bind_some, hcolon, skip_dumps h hf a v, hv,
    hclose]
  rfl

include hf in
theorem parseMembers_more (kvs : List (PyKey × PyVal)) (more : List Char)
    (hv : parseValue h fuel ((dumps h a v).toList ++ ',' :: more) = some (w, ',' :: more))
    (hskip : skipWhitespace more = more) (hmore : parseMembers h fuel more = some (kvs, rest)) :
    parseMembers h (fuel + 1) ((dumpsStr a (keyText k)).toList ++
        ':' :: ((dumps h a v).toList ++ ',' :: more)) =
      some ((.str (keyText k), w) :: kvs, rest) := by
  have hcolon := skipWhitespace_cons ':' ((dumps h a v).toList ++ ',' :: more) (by decide)
  have hcomma := skipWhitespace_cons ',' more (by decide)
  rw [dumpsStr_toList]
  simp only [List.cons_append, List.append_assoc, List.nil_append, parseMembers, if_true,
    parseString_escapes, Option.bind_eq_bind, Option.bind_some, hcolon, skip_dumps h hf a v, hv,
    hcomma, hskip, hmore]

end Member

theorem skip_members (h : Host) (a : Bool) (k : PyKey) (v : PyVal) (kvs : List (PyKey × PyVal))
    (rest : List Char) : skipWhitespace ((dumpsEntries h a ((k, v) :: kvs)).toList ++ rest) =
      (dumpsEntries h a ((k, v) :: kvs)).toList ++ rest := by
  rw [dumpsEntries_toList, dumpsStr_toList]
  exact skipWhitespace_cons quoteChar _ (by decide)

theorem skip_items (h : Host) (hf : FloatTexts h) (a : Bool) (x : PyVal) (xs : List PyVal)
    (rest : List Char) : skipWhitespace ((dumpsItems h a (x :: xs)).toList ++ rest) =
      (dumpsItems h a (x :: xs)).toList ++ rest := by
  rw [dumpsItems_toList, List.append_assoc]
  exact skip_dumps h hf a x _

mutual

theorem parseValue_dumps (h : Host) (hf : FloatTexts h) (a : Bool) :
    ∀ (v : PyVal) (fuel : ℕ) (rest : List Char), Stops rest → (dumps h a v).toList.length < fuel →
      parseValue h fuel ((dumps h a v).toList ++ rest) = some (asJson h v, rest)
  | v, 0, _, _, hfuel => by omega
  | .none, fuel + 1, rest, _, _ => by
    simp [dumps, asJson, parseValue_constant, parseConstant, token?, quoteChar]
  | .bool b, fuel + 1, rest, _, _ => by
    cases b <;>
      simp [dumps, dumpsBool, asJson, parseValue_constant, parseConstant, token?, quoteChar]
  | .int i, fuel + 1, rest, hrest, _ => by
    rw [dumps, asJson, parseValue_int h fuel i rest hrest]
  | .float bits, fuel + 1, rest, hrest, _ => by
    rw [dumps, asJson, parseValue_float h hf fuel bits rest hrest]
  | .str s, fuel + 1, rest, _, _ => by
    rw [dumps, asJson, parseValue_str]
  | .list [], fuel + 1, rest, _, _ => by
    simp [dumps, dumpsItems, asJson, asJsonItems, parseValue, quoteChar, skipWhitespace_cons,
      isWhitespace]
  | .tuple [], fuel + 1, rest, _, _ => by
    simp [dumps, dumpsItems, asJson, asJsonItems, parseValue, quoteChar, skipWhitespace_cons,
      isWhitespace]
  | .dict [], fuel + 1, rest, _, _ => by
    simp [dumps, dumpsEntries, asJson, asJsonEntries, dictOf, parseValue, quoteChar,
      skipWhitespace_cons, isWhitespace]
  | .list (x :: xs), fuel + 1, rest, _, hfuel => by
    have hitems := parseItems_dumps h hf a x xs fuel rest (by simp [dumps] at hfuel; omega)
    simpa [dumps, asJson] using parseValue_items h hf a fuel x xs _ rest hitems
  | .tuple (x :: xs), fuel + 1, rest, _, hfuel => by
    have hitems := parseItems_dumps h hf a x xs fuel rest (by simp [dumps] at hfuel; omega)
    simpa [dumps, asJson] using parseValue_items h hf a fuel x xs _ rest hitems
  | .dict ((k, v) :: kvs), fuel + 1, rest, _, hfuel => by
    have hmembers := parseMembers_dumps h hf a k v kvs fuel rest (by simp [dumps] at hfuel; omega)
    simpa [dumps, asJson] using parseValue_members h a fuel k v kvs _ rest hmembers

/-- The items of a list that has one, and its closing bracket. -/
theorem parseItems_dumps (h : Host) (hf : FloatTexts h) (a : Bool) :
    ∀ (x : PyVal) (xs : List PyVal) (fuel : ℕ) (rest : List Char),
      (dumpsItems h a (x :: xs)).toList.length + 1 < fuel →
      parseItems h fuel ((dumpsItems h a (x :: xs)).toList ++ ']' :: rest) =
        some (asJsonItems h (x :: xs), rest)
  | _, _, 0, _, hfuel => by omega
  | x, [], fuel + 1, rest, hfuel => by
    rw [dumpsItems_toList] at hfuel ⊢
    have hx := parseValue_dumps h hf a x fuel (']' :: rest) (stops_cons _ (by simp) _)
      (by simp at hfuel; omega)
    simp [parseItems, hx, asJsonItems, skipWhitespace_cons, isWhitespace]
  | x, y :: ys, fuel + 1, rest, hfuel => by
    rw [dumpsItems_toList] at hfuel ⊢
    have hx := parseValue_dumps h hf a x fuel
      (',' :: ((dumpsItems h a (y :: ys)).toList ++ ']' :: rest)) (stops_cons _ (by simp) _)
      (by simp at hfuel; omega)
    have hxs := parseItems_dumps h hf a y ys fuel rest (by simp at hfuel; omega)
    have hcomma := skipWhitespace_cons ',' ((dumpsItems h a (y :: ys)).toList ++ ']' :: rest)
      (by decide)
    have hskip := skip_items h hf a y ys (']' :: rest)
    rw [asJsonItems]
    simp only [List.isEmpty_cons, Bool.false_eq_true, if_false, List.append_assoc,
      List.cons_append, parseItems, hx, Option.bind_eq_bind, Option.bind_some, hcomma, hskip, hxs]

theorem parseMembers_dumps (h : Host) (hf : FloatTexts h) (a : Bool) :
    ∀ (k : PyKey) (v : PyVal) (kvs : List (PyKey × PyVal)) (fuel : ℕ) (rest : List Char),
      (dumpsEntries h a ((k, v) :: kvs)).toList.length + 1 < fuel →
      parseMembers h fuel ((dumpsEntries h a ((k, v) :: kvs)).toList ++ Char.ofNat 0x7d :: rest) =
        some (asJsonEntries h ((k, v) :: kvs), rest)
  | _, _, _, 0, _, hfuel => by omega
  | k, v, [], fuel + 1, rest, hfuel => by
    rw [dumpsEntries_toList] at hfuel ⊢
    have hv := parseValue_dumps h hf a v fuel (Char.ofNat 0x7d :: rest)
      (stops_cons _ (by simp) _) (by simp at hfuel; omega)
    simpa [asJsonEntries] using parseMembers_last h hf a fuel k v _ rest hv
  | k, v, (k', v') :: kvs, fuel + 1, rest, hfuel => by
    rw [dumpsEntries_toList] at hfuel ⊢
    have hv := parseValue_dumps h hf a v fuel
      (',' :: ((dumpsEntries h a ((k', v') :: kvs)).toList ++ Char.ofNat 0x7d :: rest))
      (stops_cons _ (by simp) _) (by simp at hfuel; omega)
    have hkvs := parseMembers_dumps h hf a k' v' kvs fuel rest (by simp at hfuel; omega)
    have hall := parseMembers_more h hf a fuel k v _ rest _ _ hv
      (skip_members h a k' v' kvs (Char.ofNat 0x7d :: rest)) hkvs
    simpa [asJsonEntries] using hall

end

/-- What was written reads back as the same value in JSON's types. -/
theorem loads_dumps (h : Host) (hf : FloatTexts h) (a : Bool) (v : PyVal) :
    loads h (dumps h a v) = some (asJson h v) := by
  have hskip := skip_dumps h hf a v []
  have hlength : (dumps h a v).toList.length < 2 * (dumps h a v).length + 1 := by
    rw [String.length_toList]
    omega
  have hv := parseValue_dumps h hf a v (2 * (dumps h a v).length + 1) [] stops_nil hlength
  rw [List.append_nil] at hskip hv
  rw [loads, hskip, hv]
  rfl

end Sigil.Json
