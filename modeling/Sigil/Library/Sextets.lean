import Mathlib.Data.List.Basic
import Mathlib.Data.UInt

/-! # Octets in groups of six bits

`ofOctets` cuts a list of octets into numbers of six bits: three octets are four of them, and one or
two octets at the end are two or three, of which the last is filled up with zero bits. `toOctets`
reads such numbers back and drops the bits that fill no octet; a single number left over fills none,
and there is no reading. The two are inverse to each other except for the spare bits.
-/
set_option autoImplicit false

namespace Sextets

def ofOctets : List UInt8 → List ℕ
  | [] => []
  | [a] => [a.toNat / 4, a.toNat % 4 * 16]
  | [a, b] => [a.toNat / 4, a.toNat % 4 * 16 + b.toNat / 16, b.toNat % 16 * 4]
  | a :: b :: c :: rest =>
    a.toNat / 4 :: (a.toNat % 4 * 16 + b.toNat / 16) :: (b.toNat % 16 * 4 + c.toNat / 64) ::
      c.toNat % 64 :: ofOctets rest

def toOctets : List ℕ → Option (List UInt8)
  | [] => some []
  | [_] => none
  | [v, w] => some [UInt8.ofNat (v * 4 + w / 16)]
  | [v, w, x] => some [UInt8.ofNat (v * 4 + w / 16), UInt8.ofNat (w % 16 * 16 + x / 4)]
  | v :: w :: x :: y :: rest => (toOctets rest).map fun bs =>
      UInt8.ofNat (v * 4 + w / 16) :: UInt8.ofNat (w % 16 * 16 + x / 4) ::
        UInt8.ofNat (x % 4 * 64 + y) :: bs

/-- What `toOctets` drops: the low bits of the last number, if it does not end an octet. -/
def spareBits : List ℕ → ℕ
  | [_, w] => w % 16
  | [_, _, x] => x % 4
  | _ :: _ :: _ :: _ :: rest => spareBits rest
  | _ => 0

/-! ## One octet -/

theorem ofNat_eq (n : ℕ) (b : UInt8) (h : n = b.toNat) : UInt8.ofNat n = b := by
  rw [h]
  exact UInt8.ofNat_toNat

theorem toNat_ofNat (n : ℕ) (h : n < 256) : (UInt8.ofNat n).toNat = n :=
  UInt8.toNat_ofNat_of_lt' h

/-! ## Cutting -/

theorem ofOctets_lt (bs : List UInt8) : ∀ v ∈ ofOctets bs, v < 64 := by
  induction bs using ofOctets.induct with
  | case1 => simp [ofOctets]
  | case2 a =>
    have ha := a.toNat_lt
    intro v hv
    simp only [ofOctets, List.mem_cons, List.not_mem_nil, or_false] at hv
    omega
  | case3 a b =>
    have ha := a.toNat_lt
    have hb := b.toNat_lt
    intro v hv
    simp only [ofOctets, List.mem_cons, List.not_mem_nil, or_false] at hv
    omega
  | case4 a b c rest ih =>
    have ha := a.toNat_lt
    have hb := b.toNat_lt
    have hc := c.toNat_lt
    intro v hv
    simp only [ofOctets, List.mem_cons] at hv
    rcases hv with h | h | h | h | h
    · omega
    · omega
    · omega
    · omega
    · exact ih v h

theorem spareBits_ofOctets (bs : List UInt8) : spareBits (ofOctets bs) = 0 := by
  induction bs using ofOctets.induct with
  | case1 => rfl
  | case2 a =>
    show a.toNat % 4 * 16 % 16 = 0
    omega
  | case3 a b =>
    show b.toNat % 16 * 4 % 4 = 0
    omega
  | case4 a b c rest ih => exact ih

theorem toOctets_ofOctets (bs : List UInt8) : toOctets (ofOctets bs) = some bs := by
  induction bs using ofOctets.induct with
  | case1 => rfl
  | case2 a =>
    have ha := a.toNat_lt
    simp only [ofOctets, toOctets]
    rw [ofNat_eq _ a (by omega)]
  | case3 a b =>
    have ha := a.toNat_lt
    have hb := b.toNat_lt
    simp only [ofOctets, toOctets]
    rw [ofNat_eq _ a (by omega), ofNat_eq _ b (by omega)]
  | case4 a b c rest ih =>
    have ha := a.toNat_lt
    have hb := b.toNat_lt
    have hc := c.toNat_lt
    simp only [ofOctets, toOctets, ih, Option.map_some]
    rw [ofNat_eq _ a (by omega), ofNat_eq _ b (by omega), ofNat_eq _ c (by omega)]

theorem ofOctets_ne_nil (bs : List UInt8) (h : bs ≠ []) : ofOctets bs ≠ [] := by
  intro hnil
  have hread := toOctets_ofOctets bs
  rw [hnil] at hread
  exact h (Option.some.inj hread).symm

/-! ## Reading back -/

theorem ofOctets_toOctets (vs : List ℕ) (hvs : ∀ v ∈ vs, v < 64) (bs : List UInt8)
    (h : toOctets vs = some bs) (hspare : spareBits vs = 0) : ofOctets bs = vs := by
  induction vs using toOctets.induct generalizing bs with
  | case1 =>
    cases h
    rfl
  | case2 v => cases h
  | case3 v w =>
    have hv := hvs v (by simp)
    have hw := hvs w (by simp)
    cases h
    have hz : w % 16 = 0 := hspare
    simp only [ofOctets]
    rw [toNat_ofNat _ (by omega)]
    congr 1
    · omega
    · congr 1
      omega
  | case4 v w x =>
    have hv := hvs v (by simp)
    have hw := hvs w (by simp)
    have hx := hvs x (by simp)
    cases h
    have hz : x % 4 = 0 := hspare
    simp only [ofOctets]
    rw [toNat_ofNat (v * 4 + w / 16) (by omega), toNat_ofNat (w % 16 * 16 + x / 4) (by omega)]
    congr 1
    · omega
    · congr 1
      · omega
      · congr 1
        omega
  | case5 v w x y rest ih =>
    have hv := hvs v (by simp)
    have hw := hvs w (by simp)
    have hx := hvs x (by simp)
    have hy := hvs y (by simp)
    simp only [toOctets, Option.map_eq_some_iff] at h
    obtain ⟨cs, hcs, rfl⟩ := h
    have hrest := ih (fun v hv => hvs v (by simp [hv])) cs hcs hspare
    simp only [ofOctets]
    rw [hrest, toNat_ofNat (v * 4 + w / 16) (by omega),
      toNat_ofNat (w % 16 * 16 + x / 4) (by omega), toNat_ofNat (x % 4 * 64 + y) (by omega)]
    have h1 : (v * 4 + w / 16) / 4 = v := by omega
    have h2 : (v * 4 + w / 16) % 4 * 16 + (w % 16 * 16 + x / 4) / 16 = w := by omega
    have h3 : (w % 16 * 16 + x / 4) % 16 * 4 + (x % 4 * 64 + y) / 64 = x := by omega
    have h4 : (x % 4 * 64 + y) % 64 = y := by omega
    rw [h1, h2, h3, h4]

end Sextets
