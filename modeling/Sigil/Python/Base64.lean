import Sigil.Library.Sextets
import Sigil.Python.Value
import Mathlib.Data.List.DropRight

/-! # Base64 as Python decodes and encodes it

`a2bBase64` is `binascii.a2b_base64` in its non-strict mode: characters outside the alphabet are
skipped, a pad that completes a quantum ends the input, and anything left over in an unfinished
quantum is an error. `b64decode` and `b64urlDecode` are the two entry points the SDK uses; `none`
stands for the `ValueError` (`binascii.Error` included) they raise.

`b64urlEncode` is what a token is written with. A text over its alphabet is decoded number by number
(`b64urlDecode_map`), so a text that decodes is the encoding of what it decodes to exactly when it
is in the raw-URL variant (`b64urlEncode_eq_iff`).
-/
set_option autoImplicit false

namespace Sigil

/-- The value of a character of the standard alphabet. -/
def sextet (c : Char) : Option ℕ :=
  if 'A' ≤ c ∧ c ≤ 'Z' then some (c.toNat - 65)
  else if 'a' ≤ c ∧ c ≤ 'z' then some (c.toNat - 97 + 26)
  else if '0' ≤ c ∧ c ≤ '9' then some (c.toNat - 48 + 52)
  else if c = '+' then some 62
  else if c = '/' then some 63
  else none

/-- The decoding loop: `quadPos` sextets of the current quantum are read, `left` holds the bits
not yet written, `pads` counts the pads since the last sextet. -/
def a2bLoop (quadPos left pads : ℕ) : List Char → Option (List UInt8)
  | [] => if quadPos = 0 then some [] else none
  | c :: cs =>
    if c = '=' then
      if 2 ≤ quadPos then
        if 4 ≤ quadPos + (pads + 1) then some [] else a2bLoop quadPos left (pads + 1) cs
      else a2bLoop quadPos left pads cs
    else match sextet c with
      | none => a2bLoop quadPos left pads cs
      | some v =>
        if quadPos = 0 then a2bLoop 1 v 0 cs
        else if quadPos = 1 then
          (a2bLoop 2 (v % 16) 0 cs).map (UInt8.ofNat (left * 4 + v / 16) :: ·)
        else if quadPos = 2 then
          (a2bLoop 3 (v % 4) 0 cs).map (UInt8.ofNat (left * 16 + v / 4) :: ·)
        else (a2bLoop 0 0 0 cs).map (UInt8.ofNat (left * 64 + v) :: ·)

def a2bBase64 (cs : List Char) : Option (List UInt8) := a2bLoop 0 0 0 cs

/-- A string must be ASCII before it is looked at. -/
def asciiOnly (cs : List Char) : Bool := cs.all fun c => c.toNat < 128

def b64decode (data : List Char) : Option (List UInt8) :=
  if asciiOnly data then a2bBase64 data else none

/-- The translation `urlsafe_b64decode` makes before decoding. -/
def urlsafeToStd (c : Char) : Char :=
  if c = '-' then '+' else if c = '_' then '/' else c

def urlsafeB64decode (data : List Char) : Option (List UInt8) :=
  if asciiOnly data then a2bBase64 (data.map urlsafeToStd) else none

/-- `_b64url_decode`: restore the padding, then decode. -/
def b64urlDecode (data : List Char) : Option (List UInt8) :=
  let padding := 4 - data.length % 4
  urlsafeB64decode (if padding ≠ 4 then data ++ List.replicate padding '=' else data)

example : b64urlDecode "TWFu".toList = some [77, 97, 110] := by decide

example : b64urlDecode "TWE".toList = some [77, 97] := by decide

/-! ## Encoding -/

def b64Table : List Char :=
  "ABCDEFGHIJKLMNOPQRSTUVWXYZabcdefghijklmnopqrstuvwxyz0123456789+/".toList

def b64Char (v : ℕ) : Char := b64Table.getD v '='

/-- `base64.b64encode`: the last quantum is filled up with pads. -/
def b64encode (data : List UInt8) : List Char :=
  let text := (Sextets.ofOctets data).map b64Char
  text ++ List.replicate ((4 - text.length % 4) % 4) '='

/-- The translation `urlsafe_b64encode` makes after encoding. -/
def stdToUrlsafe (c : Char) : Char :=
  if c = '+' then '-' else if c = '/' then '_' else c

def urlsafeB64encode (data : List UInt8) : List Char := (b64encode data).map stdToUrlsafe

/-- `base64.urlsafe_b64encode(data).rstrip(b"=")` -/
def b64urlEncode (data : List UInt8) : List Char := (urlsafeB64encode data).rdropWhile (· = '=')

example : b64urlEncode [251, 255] = "-_8".toList := by decide

/-! ## Characters -/

/-- A character of the base64url alphabet. -/
def b64urlChar (v : ℕ) : Char := stdToUrlsafe (b64Char v)

/-- The characters a token is written with, the separator aside. -/
def isUrlsafe (c : Char) : Bool :=
  ('A' ≤ c && c ≤ 'Z') || ('a' ≤ c && c ≤ 'z') || ('0' ≤ c && c ≤ '9') || c = '-' || c = '_'

theorem sextet_b64Char (v : ℕ) (hv : v < 64) : sextet (b64Char v) = some v := by
  revert v
  decide +kernel

theorem b64Char_ne_pad (v : ℕ) (hv : v < 64) : b64Char v ≠ '=' := by
  revert v
  decide +kernel

theorem urlsafeToStd_b64urlChar (v : ℕ) (hv : v < 64) : urlsafeToStd (b64urlChar v) = b64Char v := by
  revert v
  decide +kernel

theorem b64urlChar_ascii (v : ℕ) (hv : v < 64) : (b64urlChar v).toNat < 128 := by
  revert v
  decide +kernel

theorem isUrlsafe_b64urlChar (v : ℕ) (hv : v < 64) : isUrlsafe (b64urlChar v) = true := by
  revert v
  decide +kernel

theorem b64urlChar_ne_pad (v : ℕ) (hv : v < 64) : b64urlChar v ≠ '=' := by
  revert v
  decide +kernel

theorem toNat_le_of_le (c d : Char) (h : c ≤ d) : c.toNat ≤ d.toNat :=
  UInt32.le_iff_toNat_le.mp (Char.le_def.mp h)

theorem ascii_of_isUrlsafe (c : Char) (hc : isUrlsafe c = true) : c.toNat < 128 := by
  simp only [isUrlsafe, Bool.or_eq_true, Bool.and_eq_true, decide_eq_true_eq] at hc
  rcases hc with (((h | h) | h) | h) | h
  · exact (toNat_le_of_le c 'Z' h.2).trans_lt (by decide)
  · exact (toNat_le_of_le c 'z' h.2).trans_lt (by decide)
  · exact (toNat_le_of_le c '9' h.2).trans_lt (by decide)
  · rw [h]
    decide
  · rw [h]
    decide

theorem exists_b64urlChar_of_ascii (n : ℕ) (hn : n < 128) (hc : isUrlsafe (Char.ofNat n) = true) :
    ∃ v < 64, b64urlChar v = Char.ofNat n := by
  revert n
  decide +kernel

theorem exists_b64urlChar (c : Char) (hc : isUrlsafe c = true) : ∃ v < 64, b64urlChar v = c := by
  have hn := ascii_of_isUrlsafe c hc
  rw [← Char.ofNat_toNat c] at hc ⊢
  exact exists_b64urlChar_of_ascii c.toNat hn hc

/-- A text over the alphabet spells six-bit numbers. -/
theorem exists_map_b64urlChar (cs : List Char) (hcs : ∀ c ∈ cs, isUrlsafe c = true) :
    ∃ vs : List ℕ, (∀ v ∈ vs, v < 64) ∧ vs.map b64urlChar = cs := by
  induction cs with
  | nil => exact ⟨[], by simp, rfl⟩
  | cons c cs ih =>
    obtain ⟨v, hv, hc⟩ := exists_b64urlChar c (hcs c List.mem_cons_self)
    obtain ⟨vs, hvs, hmap⟩ := ih fun d hd => hcs d (List.mem_cons_of_mem c hd)
    refine ⟨v :: vs, ?_, ?_⟩
    · intro w hw
      rcases List.mem_cons.mp hw with rfl | hw
      · exact hv
      · exact hvs w hw
    · rw [List.map_cons, hc, hmap]

/-! ## Encoding, character by character -/

theorem rdropWhile_append_replicate (cs : List Char) (hcs : ∀ c ∈ cs, c ≠ '=') (n : ℕ) :
    (cs ++ List.replicate n '=').rdropWhile (· = '=') = cs := by
  induction n with
  | zero =>
    rw [List.replicate_zero, List.append_nil, List.rdropWhile_eq_self_iff]
    intro hne
    have hlast := hcs _ (List.getLast_mem hne)
    simpa using hlast
  | succ n ih =>
    rw [List.replicate_succ', ← List.append_assoc, List.rdropWhile_concat_pos _ _ _ (by simp)]
    exact ih

theorem urlsafeB64encode_eq (data : List UInt8) :
    urlsafeB64encode data = (Sextets.ofOctets data).map b64urlChar ++
      List.replicate ((4 - (Sextets.ofOctets data).length % 4) % 4) '=' := by
  unfold urlsafeB64encode b64encode
  rw [List.map_append, List.map_map, List.map_replicate, List.length_map]
  rfl

theorem b64urlEncode_eq (data : List UInt8) :
    b64urlEncode data = (Sextets.ofOctets data).map b64urlChar := by
  unfold b64urlEncode
  rw [urlsafeB64encode_eq]
  apply rdropWhile_append_replicate
  intro c hc
  obtain ⟨v, hv, rfl⟩ := List.mem_map.mp hc
  exact b64urlChar_ne_pad v (Sextets.ofOctets_lt data v hv)

theorem b64urlEncode_ne_nil (data : List UInt8) (h : data ≠ []) : b64urlEncode data ≠ [] := by
  rw [b64urlEncode_eq]
  intro hnil
  exact Sextets.ofOctets_ne_nil data h (List.map_eq_nil_iff.mp hnil)

theorem isUrlsafe_of_mem_b64urlEncode (data : List UInt8) (c : Char)
    (hc : c ∈ b64urlEncode data) : isUrlsafe c = true := by
  rw [b64urlEncode_eq] at hc
  obtain ⟨v, hv, rfl⟩ := List.mem_map.mp hc
  exact isUrlsafe_b64urlChar v (Sextets.ofOctets_lt data v hv)

/-! ## Decoding a text over the alphabet -/

theorem a2bLoop_first (v left pads : ℕ) (hv : v < 64) (cs : List Char) :
    a2bLoop 0 left pads (b64Char v :: cs) = a2bLoop 1 v 0 cs := by
  simp [a2bLoop, b64Char_ne_pad v hv, sextet_b64Char v hv]

theorem a2bLoop_second (v left pads : ℕ) (hv : v < 64) (cs : List Char) :
    a2bLoop 1 left pads (b64Char v :: cs) =
      (a2bLoop 2 (v % 16) 0 cs).map (UInt8.ofNat (left * 4 + v / 16) :: ·) := by
  simp [a2bLoop, b64Char_ne_pad v hv, sextet_b64Char v hv]

theorem a2bLoop_third (v left pads : ℕ) (hv : v < 64) (cs : List Char) :
    a2bLoop 2 left pads (b64Char v :: cs) =
      (a2bLoop 3 (v % 4) 0 cs).map (UInt8.ofNat (left * 16 + v / 4) :: ·) := by
  simp [a2bLoop, b64Char_ne_pad v hv, sextet_b64Char v hv]

theorem a2bLoop_fourth (v left pads : ℕ) (hv : v < 64) (cs : List Char) :
    a2bLoop 3 left pads (b64Char v :: cs) =
      (a2bLoop 0 0 0 cs).map (UInt8.ofNat (left * 64 + v) :: ·) := by
  simp [a2bLoop, b64Char_ne_pad v hv, sextet_b64Char v hv]

/-- The loop reads quantum by quantum, and the pads end the last one. -/
theorem a2bLoop_map (vs : List ℕ) (hvs : ∀ v ∈ vs, v < 64) :
    a2bLoop 0 0 0 (vs.map b64Char ++ List.replicate ((4 - vs.length % 4) % 4) '=') =
      Sextets.toOctets vs := by
  induction vs using Sextets.toOctets.induct with
  | case1 => rfl
  | case2 v =>
    have hv := hvs v (by simp)
    show a2bLoop 0 0 0 (b64Char v :: ['=', '=', '=']) = none
    rw [a2bLoop_first v 0 0 hv]
    rfl
  | case3 v w =>
    have hv := hvs v (by simp)
    have hw := hvs w (by simp)
    show a2bLoop 0 0 0 (b64Char v :: b64Char w :: ['=', '=']) = _
    rw [a2bLoop_first v 0 0 hv, a2bLoop_second w v 0 hw]
    rfl
  | case4 v w x =>
    have hv := hvs v (by simp)
    have hw := hvs w (by simp)
    have hx := hvs x (by simp)
    show a2bLoop 0 0 0 (b64Char v :: b64Char w :: b64Char x :: ['=']) = _
    rw [a2bLoop_first v 0 0 hv, a2bLoop_second w v 0 hw, a2bLoop_third x _ 0 hx]
    rfl
  | case5 v w x y rest ih =>
    have hv := hvs v (by simp)
    have hw := hvs w (by simp)
    have hx := hvs x (by simp)
    have hy := hvs y (by simp)
    have hrest := ih fun v hv => hvs v (by simp [hv])
    have hlen : (4 - (v :: w :: x :: y :: rest).length % 4) % 4 = (4 - rest.length % 4) % 4 := by
      simp only [List.length_cons]
      omega
    rw [hlen]
    simp only [List.map_cons, List.cons_append]
    rw [a2bLoop_first v 0 0 hv, a2bLoop_second w v 0 hw, a2bLoop_third x _ 0 hx,
      a2bLoop_fourth y _ 0 hy, hrest]
    cases h : Sextets.toOctets rest <;> simp [Sextets.toOctets, h]

/-- `data`, with the padding `_b64url_decode` puts at its end. -/
def padded (data : List Char) : List Char :=
  let padding := 4 - data.length % 4
  if padding ≠ 4 then data ++ List.replicate padding '=' else data

theorem b64urlDecode_padded (data : List Char) :
    b64urlDecode data = urlsafeB64decode (padded data) := rfl

theorem padded_eq (data : List Char) :
    padded data = data ++ List.replicate ((4 - data.length % 4) % 4) '=' := by
  unfold padded
  have hlt := Nat.mod_lt data.length (show 4 > 0 by decide)
  by_cases hz : data.length % 4 = 0
  · simp [hz]
  · have hmod : (4 - data.length % 4) % 4 = 4 - data.length % 4 := Nat.mod_eq_of_lt (by omega)
    rw [if_pos (by omega), hmod]

theorem b64urlDecode_map (vs : List ℕ) (hvs : ∀ v ∈ vs, v < 64) :
    b64urlDecode (vs.map b64urlChar) = Sextets.toOctets vs := by
  have hascii : asciiOnly (padded (vs.map b64urlChar)) = true := by
    rw [padded_eq, asciiOnly, List.all_append, Bool.and_eq_true, List.all_eq_true, List.all_eq_true]
    constructor
    · intro c hc
      obtain ⟨v, hv, rfl⟩ := List.mem_map.mp hc
      exact decide_eq_true (b64urlChar_ascii v (hvs v hv))
    · intro c hc
      rw [List.eq_of_mem_replicate hc]
      decide
  have hstd : (vs.map b64urlChar).map urlsafeToStd = vs.map b64Char := by
    rw [List.map_map]
    apply List.map_congr_left
    intro v hv
    exact urlsafeToStd_b64urlChar v (hvs v hv)
  rw [b64urlDecode_padded, urlsafeB64decode, if_pos hascii, padded_eq, List.map_append, hstd,
    List.map_replicate, List.length_map]
  exact a2bLoop_map vs hvs

/-- Decoding undoes encoding. -/
theorem b64urlDecode_b64urlEncode (data : List UInt8) :
    b64urlDecode (b64urlEncode data) = some data := by
  rw [b64urlEncode_eq, b64urlDecode_map _ (Sextets.ofOctets_lt data)]
  exact Sextets.toOctets_ofOctets data

/-- The padding that is put back is the padding that was stripped. -/
theorem padded_b64urlEncode (data : List UInt8) :
    padded (b64urlEncode data) = urlsafeB64encode data := by
  rw [padded_eq, b64urlEncode_eq, urlsafeB64encode_eq, List.length_map]

/-! ## The raw-URL variant -/

/-- The number a character of either alphabet stands for. -/
def urlSextet (c : Char) : ℕ := (sextet (urlsafeToStd c)).getD 0

/-- The bits of a text that reach no byte when it is decoded. -/
def spareBits (cs : List Char) : ℕ := Sextets.spareBits (cs.map urlSextet)

/-- The raw-URL variant: characters of its alphabet alone, and no spare bits set. -/
def RawUrl (cs : List Char) : Prop := (∀ c ∈ cs, isUrlsafe c = true) ∧ spareBits cs = 0

theorem map_urlSextet (vs : List ℕ) (hvs : ∀ v ∈ vs, v < 64) :
    (vs.map b64urlChar).map urlSextet = vs := by
  have hid : ∀ v ∈ vs, (urlSextet ∘ b64urlChar) v = id v := by
    intro v hv
    show (sextet (urlsafeToStd (b64urlChar v))).getD 0 = v
    rw [urlsafeToStd_b64urlChar v (hvs v hv), sextet_b64Char v (hvs v hv)]
    rfl
  rw [List.map_map, List.map_congr_left hid, List.map_id]

/-- A text that decodes is what its bytes are encoded as exactly when it is raw-URL. -/
theorem b64urlEncode_eq_iff (cs : List Char) (data : List UInt8) (h : b64urlDecode cs = some data) :
    b64urlEncode data = cs ↔ RawUrl cs := by
  constructor
  · rintro rfl
    refine ⟨isUrlsafe_of_mem_b64urlEncode data, ?_⟩
    rw [spareBits, b64urlEncode_eq, map_urlSextet _ (Sextets.ofOctets_lt data)]
    exact Sextets.spareBits_ofOctets data
  · rintro ⟨hurl, hspare⟩
    obtain ⟨vs, hvs, rfl⟩ := exists_map_b64urlChar cs hurl
    rw [b64urlDecode_map vs hvs] at h
    rw [spareBits, map_urlSextet vs hvs] at hspare
    rw [b64urlEncode_eq, Sextets.ofOctets_toOctets vs hvs data h hspare]

end Sigil
