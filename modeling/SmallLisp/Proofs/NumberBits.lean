import Mathlib
import SmallLisp.Number.Parts

/-! # The bits of finite numbers

Floating-point numbers are said in terms of their bits: sign, exponent and significand are
unpacked, an operation works on them, and its result is packed again.  A finite number is the same
thing as its bits (`toBits_ofBits`, `Float.ofBits_toBits`), negation sets the sign bit and nothing
else (`toNat_toBits_neg`), and so a finite number is its magnitude with its sign (`eq_signed`).
-/
namespace SmallLisp.Number

open Float.Model (Format UnpackedFloat)
open Float.Model.UnpackedFloat

/-- Whether the bits below the sign are those of a finite magnitude. -/
def IsFinite (x : Float) : Prop :=
  x.toBits.toNat % 2 ^ 63 < infinityBits

instance (x : Float) : Decidable (IsFinite x) :=
  inferInstanceAs (Decidable (_ < _))

/-! ## Packing and unpacking -/

theorem toNat_packComponents (s : Sign) (e : BitVec 11) (m : BitVec 52) :
    (packComponents Format.binary64 s e m).toNat =
      s.toBitVec.toNat * 2 ^ 63 + e.toNat * 2 ^ 52 + m.toNat := by
  have he := e.isLt
  have hm := m.isLt
  unfold packComponents
  rw [BitVec.toNat_append, BitVec.toNat_append, ← Nat.shiftLeft_add_eq_or_of_lt hm,
    ← Nat.shiftLeft_add_eq_or_of_lt he, Nat.shiftLeft_eq, Nat.shiftLeft_eq]
  simp only [Nat.reducePow]
  omega

/-- Bits with the opposite sign unpack to the opposite. -/
theorem unpack_packComponents_neg (s : Sign) (e : BitVec 11) (m : BitVec 52) :
    unpack Format.binary64 (packComponents Format.binary64 (-s) e m) =
      (unpack Format.binary64 (packComponents Format.binary64 s e m)).neg := by
  simp only [unpack, unpackSign_packComponents, unpackExponent_packComponents,
    unpackMantissa_packComponents, Sign.ofBitVec_toBitVec]
  split_ifs <;> rfl

/-- What the bits of a finite number unpack to is packed to the same bits. -/
theorem pack_unpack_of_finite {b : BitVec Format.binary64.numBits}
    (h : b.toNat % 2 ^ 63 < infinityBits) :
    pack Format.binary64 (unpack Format.binary64 b) = b := by
  have hexp : (unpackExponent b).toNat = b.toNat / 2 ^ 52 % 2 ^ 11 := by
    simp [unpackExponent, Nat.shiftRight_eq_div_pow]
  have hnan : ¬ isNaNBits b = true := by
    rw [isNaNBits, decide_eq_true_eq]
    rintro ⟨he, -⟩
    have hones : (unpackExponent b).toNat = 2047 := by
      rw [he]
      rfl
    simp only [infinityBits, Nat.reducePow] at *
    omega
  rw [pack_unpack, if_neg hnan]

/-- Bits without a sign get one by negation. -/
theorem toNat_pack_neg {b : BitVec Format.binary64.numBits} (h : b.toNat < infinityBits) :
    (pack Format.binary64 (unpack Format.binary64 b).neg).toNat = 2 ^ 63 + b.toNat := by
  obtain ⟨s, e, m, rfl⟩ : ∃ (s : Sign) (e : BitVec 11) (m : BitVec 52),
      packComponents Format.binary64 s e m = b :=
    ⟨_, _, _, packComponents_unpackSign_unpackExponent_unpackMantissa b⟩
  have hnegative : Sign.negative.toBitVec.toNat = 1 := rfl
  have hpositive : Sign.positive.toBitVec.toNat = 0 := rfl
  have he := e.isLt
  have hm := m.isLt
  cases s with
  | negative =>
    rw [toNat_packComponents, hnegative] at h
    simp only [infinityBits, Nat.reducePow] at h
    omega
  | positive =>
    rw [toNat_packComponents, hpositive] at h
    have hneg : (unpack Format.binary64 (packComponents Format.binary64 .positive e m)).neg =
        unpack Format.binary64 (packComponents Format.binary64 .negative e m) :=
      (unpack_packComponents_neg .positive e m).symm
    rw [hneg, pack_unpack_of_finite, toNat_packComponents, toNat_packComponents, hnegative,
      hpositive]
    · omega
    · rw [toNat_packComponents, hnegative]
      omega

/-! ## Numbers and their bits -/

theorem toBits_ofBits {u : UInt64} (h : u.toNat % 2 ^ 63 < infinityBits) :
    (Float.ofBits u).toBits = u :=
  UInt64.eq_of_toBitVec_eq (pack_unpack_of_finite h)

theorem beq_self {x : Float} (h : IsFinite x) : (x == x) = true := by
  have hnumber : x ≠ Float.nan := by
    rintro rfl
    exact absurd h (by decide +kernel)
  exact Float.beq_self_iff.2 hnumber

/-- Negation sets the sign of a finite number that has none. -/
theorem toNat_toBits_neg {x : Float} (h : x.toBits.toNat < infinityBits) :
    (-x).toBits.toNat = 2 ^ 63 + x.toBits.toNat := by
  have hneg : (-x).toBits.toNat =
      (pack Format.binary64 (unpack Format.binary64 x.toBits.toBitVec).neg).toNat := rfl
  rw [hneg]
  exact toNat_pack_neg h

/-! ## Signs -/

theorem toNat_toBits_ofNat {n : Nat} (h : n < infinityBits) :
    (Float.ofBits (UInt64.ofNat n)).toBits.toNat = n := by
  have hlt : n < 2 ^ 63 := Nat.lt_trans h (by decide)
  have hnat : (UInt64.ofNat n).toNat = n :=
    UInt64.toNat_ofNat_of_lt' (Nat.lt_trans hlt (by decide))
  rw [toBits_ofBits (by rwa [hnat, Nat.mod_eq_of_lt hlt]), hnat]

/-- A finite number is its magnitude with its sign. -/
theorem eq_signed {x : Float} (h : IsFinite x) :
    (if isNegative x then -Float.ofBits (UInt64.ofNat (x.toBits.toNat % 2 ^ 63))
      else Float.ofBits (UInt64.ofNat (x.toBits.toNat % 2 ^ 63))) = x := by
  have hlt := x.toBits.toNat_lt
  have hmagnitude := toNat_toBits_ofNat h
  apply Float.toBits_inj.1
  apply UInt64.toNat_inj.1
  by_cases hneg : isNegative x = true
  · have hsign : 2 ^ 63 ≤ x.toBits.toNat := by
      rwa [isNegative, decide_eq_true_eq, Nat.pow_eq] at hneg
    rw [if_pos hneg, toNat_toBits_neg (by rwa [hmagnitude]), hmagnitude]
    omega
  · have hsign : x.toBits.toNat < 2 ^ 63 := by
      rwa [isNegative, decide_eq_true_eq, Nat.pow_eq, Nat.not_le] at hneg
    rw [if_neg hneg, hmagnitude, Nat.mod_eq_of_lt hsign]

/-- There are two zeros. -/
theorem eq_zero_or {x : Float} (h : x.toBits.toNat % 2 ^ 63 = 0) :
    x = Float.ofBits 0 ∨ x = -Float.ofBits 0 := by
  have hx := eq_signed (x := x) (by rw [IsFinite, h]; decide)
  rw [h] at hx
  by_cases hneg : isNegative x = true
  · rw [if_pos hneg] at hx
    exact .inr hx.symm
  · rw [if_neg hneg] at hx
    exact .inl hx.symm

/-- The two zeros equal each other. -/
theorem zero_beq {x : Float} (h : x.toBits.toNat % 2 ^ 63 = 0) : (Float.ofBits 0 == x) = true := by
  rcases eq_zero_or h with rfl | rfl
  · decide +kernel
  · decide +kernel

end SmallLisp.Number
