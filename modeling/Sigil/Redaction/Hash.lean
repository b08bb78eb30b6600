import Sigil.Redaction
import Sigil.Python.Canonical
import Sigil.Python.Utf8

/-! # What the hash of the arguments identifies

`args_hash` is taken over the record of the original arguments. On JSON data the record is
determined by its canonical text, so two calls have the same hash exactly if their arguments are the
same JSON values, as far as SHA-256 tells texts apart.
-/
set_option autoImplicit false

namespace Sigil

/-- A call whose arguments are JSON data without floats. -/
structure JsonCall where
  call : CallArgs
  data : JsonData (fun _ => False) call.raw

/-- **The hashed form identifies the arguments**: the canonical text of two records is the same
exactly if they are equal as JSON values, and so is their hash if different texts have different
digests. -/
theorem argsHash_identifies (h : Host) (a b : JsonCall) :
    (∃ text, a.call.raw.canonicalJson h = some text) ∧
      (a.call.raw.canonicalJson h = b.call.raw.canonicalJson h ↔
        SameJson a.call.raw b.call.raw) ∧
      ((∀ x y, h.sha256Hex x = h.sha256Hex y → x = y) →
        (a.call.raw.argsHash h = b.call.raw.argsHash h ↔ SameJson a.call.raw b.call.raw)) := by
  have hiff := PyVal.canonicalJson_eq_iff h a.data b.data
  refine ⟨⟨_, PyVal.canonicalJson_data h a.data⟩, hiff, fun hinj => ?_⟩
  rw [← hiff, PyVal.argsHash, PyVal.argsHash, PyVal.canonicalJson_data h a.data,
    PyVal.canonicalJson_data h b.data]
  constructor
  · intro heq
    rw [utf8_injective (hinj _ _ (Option.some.inj heq))]
  · intro heq
    rw [Option.some.inj heq]

/-! ## The same keywords in two orders -/

/-- A call with two keyword arguments that are numbers. -/
def numbersCall (a b : String) (hab : a ≠ b) (i j : ℤ) : JsonCall where
  call := ⟨[], [(a, .int i), (b, .int j)]⟩
  data := by
    have hkwargs : JsonData (fun _ => False) (.dict [(.str a, .int i), (.str b, .int j)]) := by
      refine .dict _ (fun kv hkv => ?_) (by simp [hab]) fun kv hkv => ?_
      · rcases List.mem_pair.mp hkv with rfl | rfl
        · exact ⟨a, rfl⟩
        · exact ⟨b, rfl⟩
      · rcases List.mem_pair.mp hkv with rfl | rfl
        · exact .int i
        · exact .int j
    refine .dict _ (fun kv hkv => ?_) (by simp [CallArgs.rawItems]) fun kv hkv => ?_
    · rcases List.mem_pair.mp hkv with rfl | rfl
      · exact ⟨"args", rfl⟩
      · exact ⟨"kwargs", rfl⟩
    · rcases List.mem_pair.mp hkv with rfl | rfl
      · exact .list [] fun _ hx => absurd hx List.not_mem_nil
      · exact hkwargs

/-- SHA-256 on the one text, and something injective elsewhere. -/
def sampleDigest (bytes : List UInt8) : String :=
  if bytes = utf8 "\x7b\"args\":[],\"kwargs\":\x7b\"a\":1,\"b\":2\x7d\x7d" then
    "a0a08335eba403219bfbdd5e1f4b8e82685337dda5d528c7533864becc189ce3"
  else String.ofList ('-' :: bytes.map Char.ofUInt8)

theorem sampleDigest_injective (x y : List UInt8) (hxy : sampleDigest x = sampleDigest y) :
    x = y := by
  have hdash : ∀ bytes : List UInt8,
      "a0a08335eba403219bfbdd5e1f4b8e82685337dda5d528c7533864becc189ce3" ≠
        String.ofList ('-' :: bytes.map Char.ofUInt8) := by
    intro bytes heq
    have hhead := congrArg (fun s => s.toList.head?) heq
    simp at hhead
  have hbyte : Function.Injective Char.ofUInt8 := fun b b' heq =>
    UInt8.toUInt32_inj.mp (congrArg Char.val heq)
  unfold sampleDigest at hxy
  split_ifs at hxy with hx hy hy
  · rw [hx, hy]
  · exact absurd hxy (hdash y)
  · exact absurd hxy.symm (hdash x)
  · have hlists := (List.cons.inj (String.ofList_inj.mp hxy)).2
    exact List.map_injective_iff.mpr hbyte hlists

def digestHost : Host where
  reprFloat := fun _ => "0.0"
  isPrintable := fun _ => false
  parseFloat := fun _ => none
  entropyOf := fun _ _ => 0
  sha256Hex := sampleDigest
  jsonLoads := fun _ => none
  verifyKey := fun _ _ _ => false
  fromIsoFormat := fun _ => none

theorem keys_ne : ("a" : String) ≠ "b" := by decide

/-- `f(a=1, b=2)` and `f(b=2, a=1)` -/
theorem argsHash_identifies_reordered :
    (numbersCall "a" "b" keys_ne 1 2).call.raw.argsHash digestHost =
        (numbersCall "b" "a" keys_ne.symm 2 1).call.raw.argsHash digestHost ↔
      SameJson (numbersCall "a" "b" keys_ne 1 2).call.raw
        (numbersCall "b" "a" keys_ne.symm 2 1).call.raw :=
  (argsHash_identifies digestHost _ _).2.2 sampleDigest_injective

end Sigil
