import Sigil.Python.Text

/-! # Reading UTF-8

`decodeUtf8` is `bytes.decode("utf-8")`. An ASCII character is one byte that no other encoding
contains, so a text can be cut wherever its bytes have an ASCII one.
-/
set_option autoImplicit false

namespace Sigil

/-- `none` is `UnicodeDecodeError`. -/
def decodeUtf8 (bytes : List UInt8) : Option String := String.fromUTF8? bytes.toByteArray

def utf8Chars (cs : List Char) : List UInt8 := cs.flatMap String.utf8EncodeChar

@[simp] theorem utf8Chars_nil : utf8Chars [] = [] := rfl

@[simp] theorem utf8Chars_cons (c : Char) (cs : List Char) :
    utf8Chars (c :: cs) = String.utf8EncodeChar c ++ utf8Chars cs := rfl

@[simp] theorem utf8Chars_append (cs ds : List Char) :
    utf8Chars (cs ++ ds) = utf8Chars cs ++ utf8Chars ds := List.flatMap_append

/-! ## Bytes of a string -/

theorem byteArray_toList_loop (bytes : ByteArray) (i : ℕ) (acc : List UInt8) :
    ByteArray.toList.loop bytes i acc = acc.reverse ++ bytes.data.toList.drop i := by
  fun_induction ByteArray.toList.loop bytes i acc with
  | case1 i acc hlt ih =>
    have hlen : i < bytes.data.toList.length := by simpa using hlt
    have hget : bytes.get! i = bytes.data.toList[i] := getElem!_pos bytes.data i hlt
    rw [ih, List.drop_eq_getElem_cons hlen, List.reverse_cons, List.append_assoc,
      List.singleton_append, hget]
  | case2 i acc hle =>
    have hlen : bytes.data.toList.length ≤ i := by simpa using hle
    rw [List.drop_eq_nil_of_le hlen, List.append_nil]

theorem byteArray_toList (bytes : ByteArray) : bytes.toList = bytes.data.toList := by
  rw [ByteArray.toList, byteArray_toList_loop]
  rfl

theorem utf8_eq (s : String) : utf8 s = utf8Chars s.toList := by
  have hbytes : s.toByteArray = s.toList.utf8Encode := String.utf8Encode_toList.symm
  rw [utf8, byteArray_toList, String.toUTF8_eq_toByteArray, hbytes, List.utf8Encode,
    List.toList_data_toByteArray]
  rfl

theorem decodeUtf8_eq_some (bytes : List UInt8) (s : String) (h : decodeUtf8 bytes = some s) :
    utf8Chars s.toList = bytes := by
  unfold decodeUtf8 String.fromUTF8? at h
  split at h
  · next hvalid =>
    have hs : s.toByteArray = bytes.toByteArray := by
      rw [← Option.some.inj h]
      rfl
    rw [← utf8_eq, utf8, byteArray_toList, String.toUTF8_eq_toByteArray, hs,
      List.toList_data_toByteArray]
  · cases h

theorem decodeUtf8_utf8 (s : String) : decodeUtf8 (utf8 s) = some s := by
  have hbytes : (utf8 s).toByteArray = s.toByteArray := by
    rw [utf8, byteArray_toList, String.toUTF8_eq_toByteArray]
    exact ByteArray.ext (by rw [← Array.toList_inj, List.toList_data_toByteArray])
  unfold decodeUtf8 String.fromUTF8?
  rw [dif_pos (hbytes ▸ s.isValidUTF8)]
  exact congrArg some (String.toByteArray_inj.mp hbytes)

theorem decodeUtf8_utf8Chars (cs : List Char) :
    decodeUtf8 (utf8Chars cs) = some (String.ofList cs) := by
  have hback := decodeUtf8_utf8 (String.ofList cs)
  rwa [utf8_eq, String.toList_ofList] at hback

theorem utf8_injective {s t : String} (h : utf8 s = utf8 t) : s = t := by
  have hs := decodeUtf8_utf8 s
  rw [h, decodeUtf8_utf8] at hs
  exact (Option.some.inj hs).symm

/-! ## Cutting at an ASCII character -/

def Ascii (cs : List Char) : Prop := ∀ c ∈ cs, c.toNat < 0x80

theorem encode_ascii (c : Char) (hc : c.toNat < 0x80) :
    String.utf8EncodeChar c = [UInt8.ofNat c.toNat] := by
  have hle : c.val.toNat ≤ 0x7f := by
    have : c.toNat = c.val.toNat := rfl
    omega
  simp only [String.utf8EncodeChar, if_pos hle]
  rfl

theorem encode_wide (c : Char) (hc : 0x80 ≤ c.toNat) (b : UInt8)
    (hb : b ∈ String.utf8EncodeChar c) : 0x80 ≤ b.toNat := by
  have hval : c.toNat = c.val.toNat := rfl
  have hlt : c.val.toNat < 0x110000 := by
    have := c.valid
    unfold UInt32.isValidChar Nat.isValidChar at this
    omega
  simp only [String.utf8EncodeChar] at hb
  split at hb
  · omega
  · split at hb
    · simp only [List.mem_cons, List.not_mem_nil, or_false] at hb
      rcases hb with rfl | rfl <;> simp <;> omega
    · split at hb <;>
        simp only [List.mem_cons, List.not_mem_nil, or_false] at hb
      · rcases hb with rfl | rfl | rfl <;> simp <;> omega
      · rcases hb with rfl | rfl | rfl | rfl <;> simp <;> omega

theorem encode_ne_nil (c : Char) : String.utf8EncodeChar c ≠ [] := by
  simp only [String.utf8EncodeChar]
  split
  · exact List.cons_ne_nil _ _
  · split
    · exact List.cons_ne_nil _ _
    · split <;> exact List.cons_ne_nil _ _

theorem utf8Chars_eq_nil (cs : List Char) (h : utf8Chars cs = []) : cs = [] := by
  cases cs with
  | nil => rfl
  | cons c cs => exact absurd (List.append_eq_nil_iff.mp h).1 (encode_ne_nil c)

/-- Whatever stands before an ASCII byte is a text, and so is what stands after it. -/
theorem utf8Chars_cut (c : Char) (hc : c.toNat < 0x80) (cs : List Char) (pre post : List UInt8)
    (h : utf8Chars cs = pre ++ UInt8.ofNat c.toNat :: post) :
    ∃ cs₁ cs₂, cs = cs₁ ++ c :: cs₂ ∧ utf8Chars cs₁ = pre ∧ utf8Chars cs₂ = post := by
  induction cs generalizing pre with
  | nil => simp at h
  | cons d cs ih =>
    rw [utf8Chars_cons, List.append_eq_append_iff] at h
    rcases h with ⟨mid, hpre, hmid⟩ | ⟨mid, hd, hmid⟩
    · -- the byte comes after the first character
      obtain ⟨cs₁, cs₂, rfl, hcs₁, hcs₂⟩ := ih mid hmid
      exact ⟨d :: cs₁, cs₂, rfl, by rw [utf8Chars_cons, hcs₁, hpre], hcs₂⟩
    · cases mid with
      | nil =>
        rw [List.append_nil] at hd
        obtain ⟨cs₁, cs₂, rfl, hcs₁, hcs₂⟩ := ih [] hmid.symm
        rw [utf8Chars_eq_nil cs₁ hcs₁]
        exact ⟨[d], cs₂, rfl, by simpa using hd, hcs₂⟩
      | cons b mid =>
        obtain ⟨rfl, rfl⟩ : UInt8.ofNat c.toNat = b ∧ post = mid ++ utf8Chars cs := by
          simpa using hmid
        have hbyte : (UInt8.ofNat c.toNat).toNat = c.toNat := by
          rw [UInt8.toNat_ofNat']
          omega
        by_cases hwide : 0x80 ≤ d.toNat
        · have hb := encode_wide d hwide (UInt8.ofNat c.toNat) (by rw [hd]; simp)
          omega
        · -- the first character is the byte
          have hone := encode_ascii d (by omega)
          rw [hd] at hone
          cases pre with
          | nil =>
            obtain ⟨hb, rfl⟩ : UInt8.ofNat c.toNat = UInt8.ofNat d.toNat ∧ mid = [] := by
              simpa using hone
            have hcd : c.toNat = d.toNat := by
              have := congrArg UInt8.toNat hb
              rw [hbyte, UInt8.toNat_ofNat'] at this
              omega
            obtain rfl : c = d := Char.toNat_inj.mp hcd
            exact ⟨[], cs, rfl, rfl, rfl⟩
          | cons p pre => simp at hone

theorem utf8Chars_cut_prefix (mid : List Char) (hmid : Ascii mid) (cs : List Char)
    (post : List UInt8) (h : utf8Chars cs = utf8Chars mid ++ post) :
    ∃ cs₂, cs = mid ++ cs₂ ∧ utf8Chars cs₂ = post := by
  induction mid generalizing cs with
  | nil => exact ⟨cs, rfl, h⟩
  | cons c mid ih =>
    have hc := hmid c List.mem_cons_self
    rw [utf8Chars_cons, encode_ascii c hc] at h
    obtain ⟨cs₁, cs₂, rfl, hcs₁, hcs₂⟩ := utf8Chars_cut c hc cs [] _ h
    obtain ⟨cs₃, rfl, hcs₃⟩ := ih (fun d hd => hmid d (List.mem_cons_of_mem _ hd)) cs₂ hcs₂
    rw [utf8Chars_eq_nil cs₁ hcs₁]
    exact ⟨cs₃, rfl, hcs₃⟩

/-- A text whose bytes contain those of an ASCII text contains that text. -/
theorem utf8Chars_cut_text (mid : List Char) (hmid : Ascii mid) (hne : mid ≠ []) (cs : List Char)
    (pre post : List UInt8) (h : utf8Chars cs = pre ++ (utf8Chars mid ++ post)) :
    ∃ cs₁ cs₂, cs = cs₁ ++ (mid ++ cs₂) ∧ utf8Chars cs₁ = pre ∧ utf8Chars cs₂ = post := by
  obtain ⟨c, mid, rfl⟩ := List.exists_cons_of_ne_nil hne
  have hc := hmid c List.mem_cons_self
  rw [utf8Chars_cons, encode_ascii c hc] at h
  obtain ⟨cs₁, cs₂, rfl, hcs₁, hcs₂⟩ := utf8Chars_cut c hc cs pre _ h
  obtain ⟨cs₃, rfl, hcs₃⟩ :=
    utf8Chars_cut_prefix mid (fun d hd => hmid d (List.mem_cons_of_mem _ hd)) cs₂ post hcs₂
  exact ⟨cs₁, cs₃, rfl, hcs₁, hcs₃⟩

end Sigil
