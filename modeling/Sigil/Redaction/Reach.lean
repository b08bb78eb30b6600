import Sigil.Redaction
import Sigil.Python.RoundTrip
import Sigil.Redaction.Classifiers

/-! # How far redaction reaches

`redact` goes through dictionaries and lists. A tuple it passes on as it is, and `json.dumps` then
writes it as an array, with the strings in it. And when a classifier raises, `redact_safe` blanks the
strings of the record itself, where there are none: the arguments are one level down.
-/
set_option autoImplicit false

namespace Sigil

/-! ## The strings of a value -/

mutual

/-- The string values of a value, at any depth. -/
def strings : PyVal → List String
  | .str s => [s]
  | .list xs => stringsItems xs
  | .tuple xs => stringsItems xs
  | .dict kvs => stringsEntries kvs
  | .none | .bool _ | .int _ | .float _ => []

def stringsItems : List PyVal → List String
  | [] => []
  | x :: xs => strings x ++ stringsItems xs

def stringsEntries : List (PyKey × PyVal) → List String
  | [] => []
  | (_, v) :: kvs => strings v ++ stringsEntries kvs

end

mutual

/-- The strings that are in no tuple. -/
def openStrings : PyVal → List String
  | .str s => [s]
  | .list xs => openStringsItems xs
  | .dict kvs => openStringsEntries kvs
  | .tuple _ | .none | .bool _ | .int _ | .float _ => []

def openStringsItems : List PyVal → List String
  | [] => []
  | x :: xs => openStrings x ++ openStringsItems xs

def openStringsEntries : List (PyKey × PyVal) → List String
  | [] => []
  | (_, v) :: kvs => openStrings v ++ openStringsEntries kvs

end

mutual

/-- The strings that are in a tuple. -/
def tupleStrings : PyVal → List String
  | .tuple xs => stringsItems xs
  | .list xs => tupleStringsItems xs
  | .dict kvs => tupleStringsEntries kvs
  | .str _ | .none | .bool _ | .int _ | .float _ => []

def tupleStringsItems : List PyVal → List String
  | [] => []
  | x :: xs => tupleStrings x ++ tupleStringsItems xs

def tupleStringsEntries : List (PyKey × PyVal) → List String
  | [] => []
  | (_, v) :: kvs => tupleStrings v ++ tupleStringsEntries kvs

end

section Map

variable (g : String → String)

mutual

/-- A value with another string in the place of every string value. -/
def mapStrings : PyVal → PyVal
  | .str s => .str (g s)
  | .list xs => .list (mapStringsItems xs)
  | .tuple xs => .tuple (mapStringsItems xs)
  | .dict kvs => .dict (mapStringsEntries kvs)
  | .none => .none
  | .bool b => .bool b
  | .int i => .int i
  | .float bits => .float bits

def mapStringsItems : List PyVal → List PyVal
  | [] => []
  | x :: xs => mapStrings x :: mapStringsItems xs

def mapStringsEntries : List (PyKey × PyVal) → List (PyKey × PyVal)
  | [] => []
  | (k, v) :: kvs => (k, mapStrings v) :: mapStringsEntries kvs

end

end Map

/-! ## The JSON document -/

mutual

/-- The document `json.dumps` writes: tuples are arrays and keys are strings in it. -/
def document : PyVal → PyVal
  | .str s => .str s
  | .list xs => .list (documentItems xs)
  | .tuple xs => .list (documentItems xs)
  | .dict kvs => .dict (documentEntries kvs)
  | .none => .none
  | .bool b => .bool b
  | .int i => .int i
  | .float bits => .float bits

def documentItems : List PyVal → List PyVal
  | [] => []
  | x :: xs => document x :: documentItems xs

def documentEntries : List (PyKey × PyVal) → List (PyKey × PyVal)
  | [] => []
  | (k, v) :: kvs => (.str (Json.keyText k), document v) :: documentEntries kvs

end

mutual

/-- What is written of a value is what is written of its document. -/
theorem dumps_document (h : Host) (a : Bool) :
    ∀ v : PyVal, PyVal.dumps h a (document v) = PyVal.dumps h a v
  | .str s => rfl
  | .list xs => by rw [document, PyVal.dumps, PyVal.dumps, dumpsItems_document h a xs]
  | .tuple xs => by rw [document, PyVal.dumps, PyVal.dumps, dumpsItems_document h a xs]
  | .dict kvs => by rw [document, PyVal.dumps, PyVal.dumps, dumpsEntries_document h a kvs]
  | .none => rfl
  | .bool b => rfl
  | .int i => rfl
  | .float bits => rfl

theorem dumpsItems_document (h : Host) (a : Bool) :
    ∀ xs : List PyVal, PyVal.dumpsItems h a (documentItems xs) = PyVal.dumpsItems h a xs
  | [] => rfl
  | x :: xs => by
    have hempty : (documentItems xs).isEmpty = xs.isEmpty := by cases xs <;> rfl
    rw [documentItems, PyVal.dumpsItems, PyVal.dumpsItems, dumps_document h a x,
      dumpsItems_document h a xs, hempty]

theorem dumpsEntries_document (h : Host) (a : Bool) : ∀ kvs : List (PyKey × PyVal),
    PyVal.dumpsEntries h a (documentEntries kvs) = PyVal.dumpsEntries h a kvs
  | [] => rfl
  | (k, v) :: kvs => by
    have hempty : (documentEntries kvs).isEmpty = kvs.isEmpty := by cases kvs <;> rfl
    rw [documentEntries, PyVal.dumpsEntries, PyVal.dumpsEntries, dumps_document h a v,
      dumpsEntries_document h a kvs, hempty, Json.dumpsKey_eq a k]
    rfl

end

/-! ## Redaction of the strings it comes to -/

section Reach

variable (f : String → Option String)

mutual

/-- Redaction raises exactly if the classifiers raise on a string that is in no tuple. -/
theorem redact_eq_none : ∀ v : PyVal, redact f v = none ↔ ∃ s ∈ openStrings v, f s = none
  | .str s => by simp [redact, openStrings]
  | .list xs => by rw [redact, Option.map_eq_none_iff, redactItems_eq_none xs, openStrings]
  | .dict kvs => by rw [redact, Option.map_eq_none_iff, redactEntries_eq_none kvs, openStrings]
  | .tuple xs => by simp [redact, openStrings]
  | .none => by simp [redact, openStrings]
  | .bool b => by simp [redact, openStrings]
  | .int i => by simp [redact, openStrings]
  | .float bits => by simp [redact, openStrings]

theorem redactItems_eq_none : ∀ xs : List PyVal,
    redactItems f xs = none ↔ ∃ s ∈ openStringsItems xs, f s = none
  | [] => by simp [redactItems, openStringsItems]
  | x :: xs => by
    have hx := redact_eq_none x
    have hxs := redactItems_eq_none xs
    cases hr : redact f x with
    | none =>
      rw [hr] at hx
      obtain ⟨s, hs, hf⟩ := hx.mp rfl
      simp only [redactItems, hr, Option.bind_none, true_iff]
      exact ⟨s, List.mem_append_left _ hs, hf⟩
    | some y =>
      rw [hr] at hx
      have hno : ¬ ∃ s ∈ openStrings x, f s = none := fun h => by cases hx.mpr h
      rw [redactItems, hr, Option.bind_some, Option.map_eq_none_iff, hxs, openStringsItems]
      constructor
      · rintro ⟨s, hs, hf⟩
        exact ⟨s, List.mem_append_right _ hs, hf⟩
      · rintro ⟨s, hs, hf⟩
        exact (List.mem_append.mp hs).elim (fun h => absurd ⟨s, h, hf⟩ hno) fun h => ⟨s, h, hf⟩

theorem redactEntries_eq_none : ∀ kvs : List (PyKey × PyVal),
    redactEntries f kvs = none ↔ ∃ s ∈ openStringsEntries kvs, f s = none
  | [] => by simp [redactEntries, openStringsEntries]
  | (k, v) :: kvs => by
    have hv := redact_eq_none v
    have hkvs := redactEntries_eq_none kvs
    cases hr : redact f v with
    | none =>
      rw [hr] at hv
      obtain ⟨s, hs, hf⟩ := hv.mp rfl
      simp only [redactEntries, hr, Option.bind_none, true_iff]
      exact ⟨s, List.mem_append_left _ hs, hf⟩
    | some y =>
      rw [hr] at hv
      have hno : ¬ ∃ s ∈ openStrings v, f s = none := fun h => by cases hv.mpr h
      rw [redactEntries, hr, Option.bind_some, Option.map_eq_none_iff, hkvs, openStringsEntries]
      constructor
      · rintro ⟨s, hs, hf⟩
        exact ⟨s, List.mem_append_right _ hs, hf⟩
      · rintro ⟨s, hs, hf⟩
        exact (List.mem_append.mp hs).elim (fun h => absurd ⟨s, h, hf⟩ hno) fun h => ⟨s, h, hf⟩

end

/-- The items of a call hold no string themselves, so blanking them changes nothing. -/
theorem redactSafe_raw (a : CallArgs) (h : redact f a.raw = none) :
    redactSafe f a.rawItems = a.raw := by
  rw [redactSafe, show redact f (.dict a.rawItems) = none from h]
  rfl

/-- **What the fallback leaks.** After a classifier has raised, no string but the marker is left
exactly if there was none to begin with. -/
theorem redactSafe_fallback_iff (a : CallArgs) :
    (redact f a.raw = none → ∀ s ∈ strings (redactSafe f a.rawItems), s = "<REDACTED>") ↔
      (∀ s ∈ openStrings a.raw, f s ≠ none) ∨ ∀ s ∈ strings a.raw, s = "<REDACTED>" := by
  have hraises := redact_eq_none f a.raw
  constructor
  · intro h
    by_cases hnone : redact f a.raw = none
    · have hleft := h hnone
      rw [redactSafe_raw f a hnone] at hleft
      exact Or.inr hleft
    · exact Or.inl fun s hs hf => hnone (hraises.mpr ⟨s, hs, hf⟩)
  · rintro (hall | hmarked) hnone
    · obtain ⟨s, hs, hf⟩ := hraises.mp hnone
      exact absurd hf (hall s hs)
    · rw [redactSafe_raw f a hnone]
      exact hmarked

/-- One positional argument, and a classifier that raises on it. -/
theorem redactSafe_leaks :
    redact (fun _ => none) (CallArgs.mk [.str "123-45-6789"] []).raw = none ∧
      "123-45-6789" ∈
        strings (redactSafe (fun _ => none) (CallArgs.mk [.str "123-45-6789"] []).rawItems) := by
  constructor
  · rfl
  · rw [redactSafe_raw _ _ rfl]
    exact List.mem_cons_self

end Reach

section Total

variable (g : String → String)

mutual

/-- A document stays as it is exactly if all its strings do. -/
theorem document_fixed : ∀ v : PyVal,
    document v = mapStrings g (document v) ↔ ∀ s ∈ strings v, g s = s
  | .str s => by simp [document, mapStrings, strings, eq_comm]
  | .list xs => by rw [document, mapStrings, PyVal.list.injEq, documentItems_fixed xs, strings]
  | .tuple xs => by rw [document, mapStrings, PyVal.list.injEq, documentItems_fixed xs, strings]
  | .dict kvs => by rw [document, mapStrings, PyVal.dict.injEq, documentEntries_fixed kvs, strings]
  | .none => by simp [document, mapStrings, strings]
  | .bool b => by simp [document, mapStrings, strings]
  | .int i => by simp [document, mapStrings, strings]
  | .float bits => by simp [document, mapStrings, strings]

theorem documentItems_fixed : ∀ xs : List PyVal,
    documentItems xs = mapStringsItems g (documentItems xs) ↔ ∀ s ∈ stringsItems xs, g s = s
  | [] => by simp [documentItems, mapStringsItems, stringsItems]
  | x :: xs => by
    rw [documentItems, mapStringsItems, List.cons.injEq, document_fixed x, documentItems_fixed xs,
      stringsItems, List.forall_mem_append]

theorem documentEntries_fixed : ∀ kvs : List (PyKey × PyVal),
    documentEntries kvs = mapStringsEntries g (documentEntries kvs) ↔
      ∀ s ∈ stringsEntries kvs, g s = s
  | [] => by simp [documentEntries, mapStringsEntries, stringsEntries]
  | (k, v) :: kvs => by
    rw [documentEntries, mapStringsEntries, List.cons.injEq, Prod.mk.injEq, document_fixed v,
      documentEntries_fixed kvs, stringsEntries, List.forall_mem_append]
    simp

end

mutual

/-- The strings of the document are redacted exactly if redaction has nothing to do in a tuple. -/
theorem redact_document : ∀ v : PyVal, ∃ w, redact (fun s => some (g s)) v = some w ∧
    (document w = mapStrings g (document v) ↔ ∀ s ∈ tupleStrings v, g s = s)
  | .str s => ⟨.str (g s), rfl, by simp [document, mapStrings, tupleStrings]⟩
  | .list xs => by
    obtain ⟨ys, hys, hiff⟩ := redactItems_document xs
    exact ⟨.list ys, by rw [redact, hys, Option.map_some], by
      rw [document, document, mapStrings, PyVal.list.injEq, hiff, tupleStrings]⟩
  | .dict kvs => by
    obtain ⟨ys, hys, hiff⟩ := redactEntries_document kvs
    exact ⟨.dict ys, by rw [redact, hys, Option.map_some], by
      rw [document, document, mapStrings, PyVal.dict.injEq, hiff, tupleStrings]⟩
  | .tuple xs => ⟨.tuple xs, rfl, by
      rw [document, mapStrings, PyVal.list.injEq, documentItems_fixed, tupleStrings]⟩
  | .none => ⟨.none, rfl, by simp [document, mapStrings, tupleStrings]⟩
  | .bool b => ⟨.bool b, rfl, by simp [document, mapStrings, tupleStrings]⟩
  | .int i => ⟨.int i, rfl, by simp [document, mapStrings, tupleStrings]⟩
  | .float bits => ⟨.float bits, rfl, by simp [document, mapStrings, tupleStrings]⟩

theorem redactItems_document : ∀ xs : List PyVal, ∃ ys,
    redactItems (fun s => some (g s)) xs = some ys ∧
      (documentItems ys = mapStringsItems g (documentItems xs) ↔
        ∀ s ∈ tupleStringsItems xs, g s = s)
  | [] => ⟨[], rfl, by simp [documentItems, mapStringsItems, tupleStringsItems]⟩
  | x :: xs => by
    obtain ⟨y, hy, hx⟩ := redact_document x
    obtain ⟨ys, hys, hxs⟩ := redactItems_document xs
    refine ⟨y :: ys, by rw [redactItems, hy, hys]; rfl, ?_⟩
    rw [documentItems, documentItems, mapStringsItems, List.cons.injEq, hx, hxs, tupleStringsItems,
      List.forall_mem_append]

theorem redactEntries_document : ∀ kvs : List (PyKey × PyVal), ∃ ys,
    redactEntries (fun s => some (g s)) kvs = some ys ∧
      (documentEntries ys = mapStringsEntries g (documentEntries kvs) ↔
        ∀ s ∈ tupleStringsEntries kvs, g s = s)
  | [] => ⟨[], rfl, by simp [documentEntries, mapStringsEntries, tupleStringsEntries]⟩
  | (k, v) :: kvs => by
    obtain ⟨w, hw, hv⟩ := redact_document v
    obtain ⟨ys, hys, hkvs⟩ := redactEntries_document kvs
    refine ⟨(k, w) :: ys, by rw [redactEntries, hw, hys]; rfl, ?_⟩
    rw [documentEntries, documentEntries, mapStringsEntries, List.cons.injEq, Prod.mk.injEq, hv, hkvs,
      tupleStringsEntries, List.forall_mem_append]
    simp

end

end Total

section Strings

open Redaction

/-- **Where redaction reaches**: every string value of the document is redacted, and nothing else
changed, exactly if redaction would do nothing in the tuples of the value. -/
theorem redact_reaches_iff (U : CharTables) (v : PyVal) :
    (redact (fun s => some (redactStr U s)) v).map document =
        some (mapStrings (redactStr U) (document v)) ↔
      ∀ s ∈ tupleStrings v, redactStr U s = s := by
  obtain ⟨w, hw, hiff⟩ := redact_document (redactStr U) v
  rw [hw, Option.map_some, Option.some.injEq, hiff]

/-- A number in a tuple is written as it is. -/
theorem redact_misses_tuple :
    redact (fun s => some (redactStr asciiTables s)) (.list [.tuple [.str "123-45-6789"]]) =
        some (.list [.tuple [.str "123-45-6789"]]) ∧
      document (.list [.tuple [.str "123-45-6789"]]) ≠
        mapStrings (redactStr asciiTables) (document (.list [.tuple [.str "123-45-6789"]])) := by
  have hredacted : redactStr asciiTables "123-45-6789" = "<PII:SSN>" := by decide +kernel
  constructor
  · rfl
  · simp [document, documentItems, mapStrings, mapStringsItems, hredacted]

end Strings

end Sigil
