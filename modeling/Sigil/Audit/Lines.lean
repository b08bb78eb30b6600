import Sigil.Audit.Store
import Sigil.Python.Limits
import Sigil.Python.RoundTrip
import Sigil.Python.Utf8

/-! # The lines of an overflow file

What `_replay_file` reads from the bytes of a file. A written line is printable ASCII, so wherever
it stands in a file of whole lines it is read back, as the event it was written from.
-/
set_option autoImplicit false

namespace Sigil.Audit

open PyVal (dumps dumpsItems dumpsEntries dumpsStr dumpsKey dumpsBool dumpsFloat jsonEscape)
open OverflowWriter (line)

/-! ## Reading -/

def isNewline (c : Char) : Bool := c = '\n' || c = '\r'

/-- `[ln.strip() for ln in fh if ln.strip()]`, with universal newlines. -/
def strippedLines (cs : List Char) : List (List Char) :=
  ((cs.splitOnP isNewline).map strip).filter fun line => !line.isEmpty

/-- The loop over the lines. One that is not JSON is skipped; what `json.loads` raises besides is
not caught. -/
def readLines (h : Host) (L : Json.Limits) : List (List Char) → Except PyError (List PyVal)
  | [] => .ok []
  | line :: lines =>
    match Json.loadsWithin h L (String.ofList line) with
    | .ok v => (readLines h L lines).map (v :: ·)
    | .error .decode => readLines h L lines
    | .error (.raised e) => .error e

/-- The events on the lines that are JSON. -/
def lineEvents (h : Host) (lines : List (List Char)) : List PyVal :=
  lines.filterMap fun line => Json.loads h (String.ofList line)

/-- The events in a file. -/
def eventsOf (h : Host) (bytes : List UInt8) : List PyVal :=
  match decodeUtf8 bytes with
  | some text => lineEvents h (strippedLines text.toList)
  | none => []

/-- What reading a file raises: the file is not UTF-8, or there is a line on which `json.loads`
raises something other than `JSONDecodeError`. -/
def raisedBy (h : Host) (L : Json.Limits) (bytes : List UInt8) : Option PyError :=
  match decodeUtf8 bytes with
  | none => some .valueError
  | some text => match readLines h L (strippedLines text.toList) with
    | .error e => some e
    | .ok _ => none

/-- Nothing is read but what is JSON. -/
theorem readLines_cases (h : Host) (L : Json.Limits) (lines : List (List Char)) :
    readLines h L lines = .ok (lineEvents h lines) ∨
      L ≠ .off ∧ ∃ e, readLines h L lines = .error e := by
  induction lines with
  | nil => exact Or.inl rfl
  | cons line lines ih =>
    rw [readLines, lineEvents, List.filterMap_cons]
    rcases Json.loads_follows h L (String.ofList line) with heq | ⟨hL, e, heq⟩
    · rw [heq]
      rcases ih with hrest | ⟨hL, e, hrest⟩
      · cases Json.loads h (String.ofList line) with
        | none => exact Or.inl hrest
        | some v => exact Or.inl (congrArg (Except.map (v :: ·)) hrest)
      · refine Or.inr ⟨hL, e, ?_⟩
        cases Json.loads h (String.ofList line) with
        | none => exact hrest
        | some v => exact congrArg (Except.map (v :: ·)) hrest
    · rw [heq]
      exact Or.inr ⟨hL, e, rfl⟩

theorem raisedBy_text (h : Host) (L : Json.Limits) (bytes : List UInt8)
    (hnone : raisedBy h L bytes = none) : ∃ text, decodeUtf8 bytes = some text := by
  unfold raisedBy at hnone
  cases htext : decodeUtf8 bytes with
  | none =>
    rw [htext] at hnone
    cases hnone
  | some text => exact ⟨text, rfl⟩

/-- Without limits every text can be read. -/
theorem raisedBy_off (h : Host) (bytes : List UInt8) (text : String)
    (htext : decodeUtf8 bytes = some text) : raisedBy h .off bytes = none := by
  rcases readLines_cases h .off (strippedLines text.toList) with heq | ⟨hoff, -⟩
  · simp only [raisedBy, htext, heq]
  · exact absurd rfl hoff

/-! ## What a line looks like -/

def Printable (cs : List Char) : Prop := ∀ c ∈ cs, 0x20 ≤ c.toNat ∧ c.toNat < 0x7f

/-- Printable, and not a space. -/
def Graphic (cs : List Char) : Prop := ∀ c ∈ cs, 0x20 < c.toNat ∧ c.toNat < 0x7f

theorem Graphic.printable {cs : List Char} (h : Graphic cs) : Printable cs :=
  fun c hc => ⟨Nat.le_of_lt (h c hc).1, (h c hc).2⟩

theorem printable_append {cs ds : List Char} (hc : Printable cs) (hd : Printable ds) :
    Printable (cs ++ ds) :=
  fun c h => (List.mem_append.mp h).elim (hc c) (hd c)

theorem printable_cons {c : Char} {cs : List Char} (hc : 0x20 ≤ c.toNat ∧ c.toNat < 0x7f)
    (h : Printable cs) : Printable (c :: cs) := by
  intro d hd
  rcases List.mem_cons.mp hd with rfl | hd
  · exact hc
  · exact h d hd

theorem isDigit_bounds (c : Char) (hc : c.isDigit = true) : 48 ≤ c.toNat ∧ c.toNat ≤ 57 := by
  simp only [Char.isDigit, Bool.and_eq_true, decide_eq_true_eq] at hc
  exact ⟨hc.1, hc.2⟩

theorem graphic_digits (ds : List Char) (hds : Json.Digits ds) : Graphic ds := by
  intro c hc
  have := isDigit_bounds c (hds.2 c hc)
  omega

theorem graphic_append {cs ds : List Char} (hc : Graphic cs) (hd : Graphic ds) :
    Graphic (cs ++ ds) :=
  fun c h => (List.mem_append.mp h).elim (hc c) (hd c)

theorem graphic_cons {c : Char} {cs : List Char} (hc : 0x20 < c.toNat ∧ c.toNat < 0x7f)
    (h : Graphic cs) : Graphic (c :: cs) := by
  intro d hd
  rcases List.mem_cons.mp hd with rfl | hd
  · exact hc
  · exact h d hd

theorem graphic_nil : Graphic [] := fun _ h => absurd h List.not_mem_nil

theorem numberText_graphic {text sign int frac exp : List Char}
    (h : Json.NumberText text sign int frac exp) : Graphic text := by
  have hsign : Graphic sign := by
    rcases h.sign with rfl | rfl
    · exact graphic_nil
    · exact graphic_cons (by decide) graphic_nil
  have hfrac : Graphic frac := by
    rcases h.frac with rfl | ⟨ds, rfl, hds⟩
    · exact graphic_nil
    · exact graphic_cons (by decide) (graphic_digits ds hds)
  have hexp : Graphic exp := by
    rcases h.exp with rfl | ⟨s, ds, rfl, hs, hds⟩
    · exact graphic_nil
    · refine graphic_cons (by decide) (graphic_cons ?_ (graphic_digits ds hds))
      rcases hs with rfl | rfl <;> decide
  rw [h.eq]
  exact graphic_append hsign
    (graphic_append (graphic_digits int h.int.digits) (graphic_append hfrac hexp))

theorem toString_graphic (i : ℤ) : Graphic (toString i).toList := by
  obtain ⟨sign, int, ht, -⟩ := Json.toString_numberText i
  exact numberText_graphic ht

theorem dumpsBool_graphic (b : Bool) : Graphic (dumpsBool b).toList := by
  cases b <;> simp [dumpsBool, Graphic]

theorem dumpsFloat_graphic (h : Host) (hf : Json.FloatTexts h) (bits : UInt64) :
    Graphic (dumpsFloat h bits).toList := by
  rcases hf bits with hspecial | ⟨sign, int, frac, exp, ht, -⟩
  · simp only [List.mem_cons, List.not_mem_nil, or_false] at hspecial
    rcases hspecial with hr | hr | hr <;> simp [dumpsFloat, hr, Graphic]
  · rw [Json.dumpsFloat_number h bits sign int frac exp ht]
    exact numberText_graphic ht

theorem hexDigit_graphic (n : ℕ) : 0x20 < (hexDigit n).toNat ∧ (hexDigit n).toNat < 0x7f := by
  have hall : ∀ d, d < 16 → 0x20 < (Nat.digitChar d).toNat ∧ (Nat.digitChar d).toNat < 0x7f := by
    decide
  exact hall (n % 16) (Nat.mod_lt n (by decide))

theorem hexPad_graphic (width n : ℕ) : Graphic (hexPad width n) := by
  induction width generalizing n with
  | zero => exact graphic_nil
  | succ width ih => exact graphic_append (ih (n / 16)) (graphic_cons (hexDigit_graphic n) graphic_nil)

theorem jsonEscape_printable (c : Char) : Printable (jsonEscape true c) := by
  have hback : 0x20 ≤ backslash.toNat ∧ backslash.toNat < 0x7f := by decide
  have hshort : ∀ d : Char, 0x20 ≤ d.toNat ∧ d.toNat < 0x7f → Printable [backslash, d] :=
    fun d hd => printable_cons hback (printable_cons hd graphic_nil.printable)
  have hunicode : ∀ n : ℕ, Printable (backslash :: 'u' :: hexPad 4 n) :=
    fun n => printable_cons hback (printable_cons (by decide) (hexPad_graphic 4 n).printable)
  unfold jsonEscape
  split_ifs with h1 h2 h3 h4 h5 h6 h7 h8 h9
  · refine hshort c ?_
    rcases h1 with rfl | rfl <;> decide
  · exact hshort 'n' (by decide)
  · exact hshort 'r' (by decide)
  · exact hshort 't' (by decide)
  · exact hshort 'f' (by decide)
  · exact hshort 'b' (by decide)
  · exact hunicode c.toNat
  · exact hunicode c.toNat
  · exact printable_append (hunicode _) (hunicode _)
  · have hhigh : c.toNat < 0x7f := Nat.lt_of_not_le fun h => h8 ⟨rfl, h⟩
    exact printable_cons ⟨Nat.le_of_not_lt h7, hhigh⟩ graphic_nil.printable

theorem dumpsStr_printable (s : String) : Printable (dumpsStr true s).toList := by
  rw [Json.dumpsStr_toList]
  refine printable_cons (by decide) (printable_append ?_
    (printable_cons (by decide) graphic_nil.printable))
  intro c hc
  obtain ⟨d, -, hd⟩ := List.mem_flatMap.mp hc
  exact jsonEscape_printable d c hd

mutual

theorem dumps_printable (h : Host) (hf : Json.FloatTexts h) :
    ∀ v : PyVal, Printable (dumps h true v).toList
  | .none => by simp [dumps, Printable]
  | .bool b => (dumpsBool_graphic b).printable
  | .int i => (toString_graphic i).printable
  | .float bits => (dumpsFloat_graphic h hf bits).printable
  | .str s => dumpsStr_printable s
  | .list xs => by
    have hxs := dumpsItems_printable h hf xs
    simpa [dumps] using printable_cons (by decide)
      (printable_append hxs (printable_cons (c := ']') (by decide) graphic_nil.printable))
  | .tuple xs => by
    have hxs := dumpsItems_printable h hf xs
    simpa [dumps] using printable_cons (by decide)
      (printable_append hxs (printable_cons (c := ']') (by decide) graphic_nil.printable))
  | .dict kvs => by
    have hkvs := dumpsEntries_printable h hf kvs
    simpa [dumps] using printable_cons (by decide) (printable_append hkvs
      (printable_cons (c := Char.ofNat 0x7d) (by decide) graphic_nil.printable))

theorem dumpsItems_printable (h : Host) (hf : Json.FloatTexts h) :
    ∀ xs : List PyVal, Printable (dumpsItems h true xs).toList
  | [] => by simp [dumpsItems, Printable]
  | x :: xs => by
    rw [Json.dumpsItems_toList]
    refine printable_append (dumps_printable h hf x) ?_
    have hxs := dumpsItems_printable h hf xs
    split
    · exact graphic_nil.printable
    · exact printable_cons (by decide) hxs

theorem dumpsEntries_printable (h : Host) (hf : Json.FloatTexts h) :
    ∀ kvs : List (PyKey × PyVal), Printable (dumpsEntries h true kvs).toList
  | [] => by simp [dumpsEntries, Printable]
  | (k, v) :: kvs => by
    rw [Json.dumpsEntries_toList]
    refine printable_append (dumpsStr_printable _)
      (printable_cons (by decide) (printable_append (dumps_printable h hf v) ?_))
    have hkvs := dumpsEntries_printable h hf kvs
    split
    · exact graphic_nil.printable
    · exact printable_cons (by decide) hkvs

end

/-- A written value does not end in a space. -/
theorem dumps_last (h : Host) (hf : Json.FloatTexts h) (v : PyVal) :
    ∃ cs c, (dumps h true v).toList = cs ++ [c] ∧ 0x20 < c.toNat ∧ c.toNat < 0x7f := by
  have hgraphic : ∀ cs, cs ≠ [] → Graphic cs → ∃ ds c, cs = ds ++ [c] ∧ 0x20 < c.toNat ∧ c.toNat < 0x7f :=
    fun cs hne hcs => ⟨cs.dropLast, cs.getLast hne, (List.dropLast_append_getLast hne).symm,
      hcs _ (List.getLast_mem hne)⟩
  have hne : (dumps h true v).toList ≠ [] := by
    obtain ⟨c, cs, heq, -⟩ := Json.dumps_head h hf true v
    rw [heq]
    exact List.cons_ne_nil c cs
  cases v with
  | none => exact hgraphic _ hne (by simp [dumps, Graphic])
  | bool b => exact hgraphic _ hne (dumpsBool_graphic b)
  | int i => exact hgraphic _ hne (toString_graphic i)
  | float bits => exact hgraphic _ hne (dumpsFloat_graphic h hf bits)
  | str s =>
    refine ⟨quoteChar :: s.toList.flatMap (jsonEscape true), quoteChar, ?_, by decide⟩
    rw [dumps, Json.dumpsStr_toList]
    rfl
  | list xs => exact ⟨'[' :: (dumpsItems h true xs).toList, ']', by simp [dumps], by decide⟩
  | tuple xs => exact ⟨'[' :: (dumpsItems h true xs).toList, ']', by simp [dumps], by decide⟩
  | dict kvs =>
    exact ⟨Char.ofNat 0x7b :: (dumpsEntries h true kvs).toList, Char.ofNat 0x7d, by simp [dumps],
      by decide⟩

/-! ## Reading a line back -/

theorem isSpace_graphic (c : Char) (hc : 0x20 < c.toNat ∧ c.toNat < 0x7f) : isSpace c = false := by
  unfold isSpace
  simp only [List.mem_cons, List.not_mem_nil, or_false, Bool.or_eq_false_iff,
    decide_eq_false_iff_not, Bool.and_eq_false_iff]
  omega

theorem strip_dumps (h : Host) (hf : Json.FloatTexts h) (v : PyVal) :
    strip (dumps h true v).toList = (dumps h true v).toList := by
  obtain ⟨c, cs, hhead, hc, -⟩ := Json.dumps_head h hf true v
  obtain ⟨ds, d, hlast, hd⟩ := dumps_last h hf v
  have hfirst : isSpace c = false := by
    have hp := dumps_printable h hf v c (by rw [hhead]; exact List.mem_cons_self)
    have hne : c.toNat ≠ 0x20 := by
      intro heq
      obtain rfl : c = ' ' := Char.toNat_inj.mp heq
      cases hc
    exact isSpace_graphic c (by omega)
  have hfront : (dumps h true v).toList.dropWhile isSpace = (dumps h true v).toList := by
    rw [hhead, List.dropWhile_cons_of_neg (by simp [hfirst])]
  rw [strip, hfront, hlast, List.reverse_append, List.reverse_singleton, List.singleton_append,
    List.dropWhile_cons_of_neg (by simp [isSpace_graphic d hd]), List.reverse_cons,
    List.reverse_reverse]

theorem printable_noNewline {cs : List Char} (h : Printable cs) (c : Char) (hc : c ∈ cs) :
    isNewline c = false := by
  have hb := h c hc
  have hn : c ≠ '\n' := by
    rintro rfl
    revert hb
    decide
  have hr : c ≠ '\r' := by
    rintro rfl
    revert hb
    decide
  simp [isNewline, hn, hr]

theorem Printable.ascii {cs : List Char} (h : Printable cs) : Ascii cs := by
  intro c hc
  have := h c hc
  omega

/-- Whole lines: nothing, or something that ends in a newline. -/
def Terminated (bytes : List UInt8) : Prop := bytes = [] ∨ ∃ front, bytes = front ++ [10]

theorem line_eq (h : Host) (e : PyVal) :
    line h e = utf8Chars (dumps h true e).toList ++ [10] := by
  have hnl : utf8Chars ['\n'] = [10] := by decide
  rw [line, utf8_eq, String.toList_append, utf8Chars_append]
  exact congrArg _ hnl

theorem terminated_line (h : Host) (bytes : List UInt8) (e : PyVal) :
    Terminated (bytes ++ line h e) := by
  refine Or.inr ⟨bytes ++ utf8Chars (dumps h true e).toList, ?_⟩
  rw [line_eq, List.append_assoc]

/-- The line of an event, as a whole line of a file. -/
def HoldsLine (h : Host) (bytes : List UInt8) (e : PyVal) : Prop :=
  ∃ pre post, bytes = pre ++ (line h e ++ post) ∧ Terminated pre

theorem holdsLine_append (h : Host) (bytes more : List UInt8) (e : PyVal)
    (hb : HoldsLine h bytes e) : HoldsLine h (bytes ++ more) e := by
  obtain ⟨pre, post, rfl, hpre⟩ := hb
  exact ⟨pre, post ++ more, by simp only [List.append_assoc], hpre⟩

theorem holdsLine_line (h : Host) (bytes : List UInt8) (e : PyVal) (hb : Terminated bytes) :
    HoldsLine h (bytes ++ line h e) e :=
  ⟨bytes, [], by rw [List.append_nil], hb⟩

theorem terminated_chars (cs : List Char) (h : Terminated (utf8Chars cs)) :
    cs = [] ∨ ∃ front, cs = front ++ ['\n'] := by
  rcases h with h | ⟨front, h⟩
  · exact Or.inl (utf8Chars_eq_nil cs h)
  · obtain ⟨cs₁, cs₂, rfl, -, hcs₂⟩ := utf8Chars_cut '\n' (by decide) cs front [] h
    rw [utf8Chars_eq_nil cs₂ hcs₂]
    exact Or.inr ⟨cs₁, rfl⟩

/-- Lines are split one by one. -/
theorem strippedLines_cons (cs rest : List Char) (c : Char) (hc : isNewline c = true) :
    strippedLines (cs ++ c :: rest) = strippedLines cs ++ strippedLines rest := by
  rw [strippedLines, List.splitOnP_append_cons cs rest hc, List.map_append, List.filter_append]
  rfl

theorem strippedLines_nil : strippedLines [] = [] := by
  simp [strippedLines, strip]

theorem strippedLines_dumps (h : Host) (hf : Json.FloatTexts h) (e : PyVal) :
    strippedLines (dumps h true e).toList = [(dumps h true e).toList] := by
  obtain ⟨c, cs, hhead, -⟩ := Json.dumps_head h hf true e
  have hone := List.splitOnP_eq_singleton (printable_noNewline (dumps_printable h hf e))
  rw [strippedLines, hone, List.map_singleton, strip_dumps h hf e, hhead]
  rfl

theorem lineEvents_append (h : Host) (ls ms : List (List Char)) :
    lineEvents h (ls ++ ms) = lineEvents h ls ++ lineEvents h ms := List.filterMap_append

theorem lineEvents_dumps (h : Host) (hf : Json.FloatTexts h) (e : PyVal) :
    lineEvents h [(dumps h true e).toList] = [Json.asJson h e] := by
  simp [lineEvents, Json.loads_dumps h hf true e]

/-- **A written line is read back**, wherever it stands. -/
theorem mem_eventsOf (h : Host) (hf : Json.FloatTexts h) (bytes : List UInt8) (e : PyVal)
    (text : String) (htext : decodeUtf8 bytes = some text) (hb : HoldsLine h bytes e) :
    Json.asJson h e ∈ eventsOf h bytes := by
  obtain ⟨pre, post, rfl, hpre⟩ := hb
  have hchars := decodeUtf8_eq_some _ _ htext
  obtain ⟨c, cs, hhead, -⟩ := Json.dumps_head h hf true e
  have hascii := (dumps_printable h hf e).ascii
  rw [line_eq, List.append_assoc] at hchars
  obtain ⟨cs₁, cs₂, hcut, hcs₁, hcs₂⟩ := utf8Chars_cut_text (dumps h true e).toList hascii
    (by rw [hhead]; exact List.cons_ne_nil c cs) text.toList pre _ hchars
  obtain ⟨cs₃, cs₄, rfl, hcs₃, -⟩ := utf8Chars_cut '\n' (by decide) cs₂ [] post hcs₂
  rw [utf8Chars_eq_nil cs₃ hcs₃, List.nil_append] at hcut
  -- the line as one of the lines of the text
  have hlines : ∃ front, strippedLines text.toList =
      front ++ ([(dumps h true e).toList] ++ strippedLines cs₄) := by
    have hrest : strippedLines ((dumps h true e).toList ++ '\n' :: cs₄) =
        [(dumps h true e).toList] ++ strippedLines cs₄ := by
      rw [strippedLines_cons _ _ _ rfl, strippedLines_dumps h hf e]
    rw [← hcs₁] at hpre
    rcases terminated_chars cs₁ hpre with rfl | ⟨front, rfl⟩
    · exact ⟨[], by rw [hcut, List.nil_append, List.nil_append]; exact hrest⟩
    · refine ⟨strippedLines front, ?_⟩
      rw [hcut, List.append_assoc, List.singleton_append, strippedLines_cons _ _ _ rfl, hrest]
  obtain ⟨front, hlines⟩ := hlines
  rw [eventsOf, htext]
  simp only [hlines, lineEvents_append, lineEvents_dumps h hf e]
  simp

/-- Lines are the bytes of a text. -/
theorem lines_utf8 (h : Host) (es : List PyVal) : es.flatMap (line h) =
    utf8 (String.ofList (es.flatMap fun e => (dumps h true e).toList ++ ['\n'])) := by
  rw [utf8_eq, String.toList_ofList]
  induction es with
  | nil => rfl
  | cons e es ih =>
    have hnl : utf8Chars ['\n'] = [10] := by decide
    rw [List.flatMap_cons, List.flatMap_cons, utf8Chars_append, utf8Chars_append, hnl, line_eq, ih]

/-- A file that was written line by line reads back as its events. -/
theorem eventsOf_lines (h : Host) (hf : Json.FloatTexts h) (es : List PyVal) :
    eventsOf h (es.flatMap (line h)) = es.map (Json.asJson h) := by
  rw [eventsOf, lines_utf8, decodeUtf8_utf8]
  simp only [String.toList_ofList]
  induction es with
  | nil =>
    rw [List.flatMap_nil, strippedLines_nil]
    rfl
  | cons e es ih =>
    rw [List.flatMap_cons, List.append_assoc, List.singleton_append,
      strippedLines_cons _ _ _ rfl, lineEvents_append, strippedLines_dumps h hf e,
      lineEvents_dumps h hf e, List.map_cons]
    exact congrArg (Json.asJson h e :: ·) ih

end Sigil.Audit
