import SmallLisp.Number.Numeral
import SmallLisp.Proofs.NearestNumbers

/-! # Correct rounding

A value is rounded to the number nearest to it, of two equally near to the one whose significand is
even; from halfway between the largest number and the next power of two on it is rounded to infinity
(`Number.RoundsTo`).  With the sign this leaves one number only (`Number.RoundsTo.unique`), and it
is the one that a numeral with this value is read as (`Number.Numeral.roundsTo_toFloat`).
-/
namespace SmallLisp.Number

/-- The factor that a sign is. -/
def signFactor (negative : Bool) : ℚ :=
  if negative then -1 else 1

/-- The value of a finite number. -/
def value? (x : Float) : Option ℚ :=
  match magnitude x with
  | .finite significand exponent => some (signFactor (isNegative x) * (significand * 2 ^ exponent))
  | _ => none

/-- Whether the last binary digit of a finite number's significand is zero. -/
def IsEven (x : Float) : Prop := x.toBits.toNat % 2 = 0

/-- A number is what a value is rounded to. -/
structure RoundsTo (q : ℚ) (x : Float) : Prop where
  /-- No finite number is nearer, and if another is equally near, this one is even. -/
  finite : |q| < infinityLimit → ∃ v, value? x = some v ∧ ∀ y w, value? y = some w →
    |v - q| ≤ |w - q| ∧ (w ≠ v → |w - q| = |v - q| → IsEven x)
  infinite : infinityLimit ≤ |q| → magnitude x = .infinite

/-! ## Signs -/

/-- The number with a sign and certain bits below it. -/
def signed (negative : Bool) (bits : Nat) : Float :=
  if negative then -Float.ofBits (UInt64.ofNat bits) else Float.ofBits (UInt64.ofNat bits)

theorem abs_signFactor (negative : Bool) : |signFactor negative| = 1 := by
  cases negative
  · exact abs_one
  · exact (abs_neg 1).trans abs_one

theorem signFactor_of_ne {negative negative' : Bool} (h : negative ≠ negative') :
    signFactor negative = -signFactor negative' := by
  cases negative <;> cases negative' <;> simp [signFactor] at h ⊢

/-- The bits below the sign of a number. -/
def sizeBits (x : Float) : Nat :=
  x.toBits.toNat % 2 ^ 63

section Signs
variable {q v : ℚ} {x y : Float} {negative : Bool} {bits : Nat}

theorem toNat_toBits_signed (h : bits ≤ infinityBits) :
    (signed negative bits).toBits.toNat = (if negative then 2 ^ 63 else 0) + bits := by
  rcases h.lt_or_eq with hlt | rfl
  · have hbits := toNat_toBits_ofNat hlt
    cases negative with
    | false => exact hbits.trans (Nat.zero_add bits).symm
    | true =>
      rw [signed, if_pos rfl, if_pos rfl, toNat_toBits_neg (by rwa [hbits]), hbits]
  · cases negative <;> decide +kernel

theorem sizeBits_signed (negative : Bool) (h : bits ≤ infinityBits) :
    sizeBits (signed negative bits) = bits := by
  have hlt : bits < 2 ^ 63 := h.trans_lt (by decide)
  rw [sizeBits, toNat_toBits_signed h]
  cases negative
  · rw [if_neg (by decide), Nat.zero_add, Nat.mod_eq_of_lt hlt]
  · rw [if_pos rfl, Nat.add_mod_left, Nat.mod_eq_of_lt hlt]

theorem isNegative_signed (h : bits ≤ infinityBits) :
    isNegative (signed negative bits) = negative := by
  have hlt : bits < 2 ^ 63 := h.trans_lt (by decide)
  rw [isNegative, toNat_toBits_signed h, Nat.pow_eq]
  cases negative
  · rw [if_neg (by decide), Nat.zero_add]
    exact decide_eq_false hlt.not_ge
  · rw [if_pos rfl]
    exact decide_eq_true (Nat.le_add_right _ _)

/-- The sign and the bits below it make up a number. -/
theorem eq_of_sizeBits (hsign : isNegative x = isNegative y) (hsize : sizeBits x = sizeBits y) :
    x = y := by
  have hx := x.toBits.toNat_lt
  have hy := y.toBits.toNat_lt
  rw [isNegative, isNegative, decide_eq_decide, Nat.pow_eq] at hsign
  rw [sizeBits, sizeBits] at hsize
  refine Float.toBits_inj.1 (UInt64.toNat_inj.1 ?_)
  omega

theorem value?_eq_some_iff :
    value? x = some v ↔
      sizeBits x < infinityBits ∧ v = signFactor (isNegative x) * bitsValue (sizeBits x) := by
  have hmagnitude : magnitude x = .ofBits (sizeBits x) := rfl
  rw [value?, hmagnitude]
  rcases Nat.lt_or_ge (sizeBits x) infinityBits with hlt | hge
  · obtain ⟨s, e, hbits, hr⟩ := exists_represents hlt
    rw [hbits, bitsValue_of_represents hr, Option.some_inj, eq_comm]
    exact (and_iff_right hlt).symm
  · refine iff_of_false ?_ fun h => hge.not_gt h.1
    have hnone : ∀ s e, Magnitude.ofBits (sizeBits x) ≠ .finite s e := by
      intro s e
      unfold Magnitude.ofBits
      rcases hge.lt_or_eq with hlt | heq
      · simp only [if_pos hlt]
        nofun
      · simp only [if_neg heq.not_lt, if_pos heq.symm]
        nofun
    split
    next s e heq => exact absurd heq (hnone s e)
    next => nofun

theorem magnitude_eq_infinite_iff : magnitude x = .infinite ↔ sizeBits x = infinityBits := by
  have hmagnitude : magnitude x = .ofBits (sizeBits x) := rfl
  rw [hmagnitude, Magnitude.ofBits]
  split_ifs with h1 h2 h3
  · exact iff_of_false nofun h1.ne'
  · exact iff_of_true rfl h2
  · exact iff_of_false nofun h2
  · exact iff_of_false nofun h2

theorem isEven_iff : IsEven x ↔ sizeBits x % 2 = 0 := by
  rw [IsEven, sizeBits]
  omega

theorem value?_signed (negative : Bool) (h : bits < infinityBits) :
    value? (signed negative bits) = some (signFactor negative * bitsValue bits) := by
  rw [value?_eq_some_iff, sizeBits_signed negative h.le, isNegative_signed h.le]
  exact ⟨h, rfl⟩

/-! The distance of two values is that of their sizes, if they have the same sign, and not less
otherwise. -/

theorem eq_signFactor_mul_abs (q : ℚ) : q = signFactor (decide (q < 0)) * |q| := by
  by_cases h : q < 0
  · rw [decide_eq_true h, abs_of_neg h]
    exact ((neg_one_mul (-q)).trans (neg_neg q)).symm
  · rw [decide_eq_false h, abs_of_nonneg (not_lt.1 h)]
    exact (one_mul q).symm

theorem distance_of_sign (hsign : q = signFactor negative * |q|) (b : ℚ) :
    |signFactor negative * b - q| = |b - abs q| := by
  conv_lhs => rw [hsign]
  rw [← mul_sub, abs_mul, abs_signFactor, one_mul]

theorem distance_le (negative : Bool) (q : ℚ) {b : ℚ} (hb : 0 ≤ b) :
    |b - abs q| ≤ |signFactor negative * b - q| := by
  have h := abs_abs_sub_abs_le (signFactor negative * b) q
  rwa [abs_mul, abs_signFactor, one_mul, abs_of_nonneg hb] at h

end Signs

/-- The size of the number that a value is rounded to is what its size is rounded to. -/
theorem RoundsTo.isNearestSize {q : ℚ} {x : Float} (h : RoundsTo q x) :
    IsNearestSize |q| (sizeBits x) := by
  refine ⟨fun hlimit => ?_, fun hlimit => magnitude_eq_infinite_iff.1 (h.infinite hlimit)⟩
  obtain ⟨v, hv, hnearest⟩ := h.finite hlimit
  obtain ⟨hfinite, rfl⟩ := value?_eq_some_iff.1 hv
  have hsize := distance_le (isNegative x) q (bitsValue_nonneg (sizeBits x))
  refine ⟨hfinite, fun other hother => ?_⟩
  -- the number of the other size that has the sign of the value
  obtain ⟨hnear, htie⟩ := hnearest _ _ (value?_signed (decide (q < 0)) hother)
  rw [distance_of_sign (eq_signFactor_mul_abs q)] at hnear htie
  refine ⟨hsize.trans hnear, fun hne hequal => isEven_iff.1 (htie ?_ ?_)⟩
  · intro heq
    have habs := congrArg abs heq
    rw [abs_mul, abs_mul, abs_signFactor, abs_signFactor, one_mul, one_mul,
      abs_of_nonneg (bitsValue_nonneg _), abs_of_nonneg (bitsValue_nonneg _)] at habs
    exact hne (bitsValue_inj hother hfinite habs)
  · exact le_antisymm (hequal.le.trans hsize) hnear

/-- With the right sign this is enough. -/
theorem IsNearestSize.roundsTo {q : ℚ} {x : Float} (h : IsNearestSize |q| (sizeBits x))
    (hsign : q = signFactor (isNegative x) * |q|) : RoundsTo q x := by
  refine ⟨fun hlimit => ?_, fun hlimit => magnitude_eq_infinite_iff.2 (h.infinite hlimit)⟩
  obtain ⟨hfinite, hnearest⟩ := h.finite hlimit
  refine ⟨_, value?_eq_some_iff.2 ⟨hfinite, rfl⟩, fun y w hw => ?_⟩
  obtain ⟨hfinite', rfl⟩ := value?_eq_some_iff.1 hw
  obtain ⟨hnear, htie⟩ := hnearest _ hfinite'
  have hsize := distance_le (isNegative y) q (bitsValue_nonneg (sizeBits y))
  rw [distance_of_sign hsign]
  refine ⟨hnear.trans hsize, fun hne hequal => isEven_iff.2 ?_⟩
  by_cases hsame : sizeBits y = sizeBits x
  · -- opposite numbers that are equally near, and not farther than zero, are zero
    rw [hsame] at hne hequal
    have hopposite : signFactor (isNegative y) = -signFactor (isNegative x) := by
      refine signFactor_of_ne fun heq => hne ?_
      rw [heq]
    have hzero := (hnearest 0 (by decide)).1
    have hb := bitsValue_nonneg (sizeBits x)
    have hq := abs_nonneg q
    rw [bitsValue_zero, zero_sub, abs_neg, abs_abs] at hzero
    rw [hopposite, neg_mul, ← mul_neg, distance_of_sign hsign,
      abs_of_nonpos (by linarith)] at hequal
    have hbzero : bitsValue (sizeBits x) = 0 := by linarith
    rw [hbzero, mul_zero, mul_zero] at hne
    exact absurd rfl hne
  · exact htie hsame (le_antisymm (hsize.trans hequal.le) hnear)

/-- **There is only one number with a certain sign that a value is rounded to.** -/
theorem RoundsTo.unique {q : ℚ} {x y : Float} (hx : RoundsTo q x) (hy : RoundsTo q y)
    (hsign : isNegative x = isNegative y) : x = y :=
  eq_of_sizeBits hsign (hx.isNearestSize.unique hy.isNearestSize)

/-! ## Rounding what digits and an exponent denote -/

namespace Numeral

/-- The length of the digits of a natural number tells its size. -/
theorem length_toDigits_bounds {n : Nat} (hn : 0 < n) :
    (10 : ℚ) ^ (((Nat.toDigits 10 n).length : Int) - 1) ≤ n ∧
      (n : ℚ) < 10 ^ ((Nat.toDigits 10 n).length : Int) := by
  have hlength : 0 < (Nat.toDigits 10 n).length := Nat.length_toDigits_pos
  generalize hL : (Nat.toDigits 10 n).length = length at hlength
  have hless : n < 10 ^ length := (Nat.length_toDigits_le_iff (by decide) hlength).1 hL.le
  have hmore : 10 ^ (length - 1) ≤ n := by
    rcases Nat.eq_or_lt_of_le (Nat.succ_le_of_lt hlength) with h1 | h1
    · rw [← h1]
      exact hn
    · by_contra hlt
      have := (Nat.length_toDigits_le_iff (n := n) (k := length - 1) (b := 10) (by decide)
        (by omega)).2 (by omega)
      omega
  rw [← Nat.cast_pred hlength, zpow_natCast, zpow_natCast]
  exact ⟨by exact_mod_cast hmore, by exact_mod_cast hless⟩

/-- The powers of ten beyond which a numeral's length decides are beyond all numbers. -/
theorem power_bounds :
    infinityLimit ≤ 10 ^ (310 : Int) ∧ 2 * (10 : ℚ) ^ (-330 : Int) < 2 ^ (-1074 : Int) := by
  have hlarge : 2 ^ 1024 ≤ 10 ^ 310 := by decide +kernel
  have hsmall : 2 * 2 ^ 1074 < 10 ^ 330 := by decide +kernel
  constructor
  · calc infinityLimit ≤ 2 ^ 1024 := sub_le_self _ (by positivity)
      _ ≤ 10 ^ (310 : Int) := by exact_mod_cast hlarge
  · have hsmall' : (2 : ℚ) * 2 ^ (1074 : Int) < 10 ^ (330 : Int) := by exact_mod_cast hsmall
    rw [zpow_neg, zpow_neg, ← div_eq_mul_inv, div_lt_iff₀ (by positivity), inv_mul_eq_div,
      lt_div_iff₀ (by positivity)]
    exact hsmall'

/-- **What digits and an exponent denote is rounded to the nearest number.** -/
theorem magnitudeOf_nearest (digits : Nat) (e : Int) :
    ∃ bits, magnitudeOf digits e = Float.ofBits (UInt64.ofNat bits) ∧
      IsNearestSize (digits * 10 ^ e) bits := by
  have hten : (1 : ℚ) < 10 := by norm_num
  unfold magnitudeOf
  simp only
  split_ifs with hzero hlarge hsmall
  · rw [hzero, Nat.cast_zero, zero_mul]
    refine ⟨_, rfl, isNearestSize_zero (le_refl _) ?_⟩
    rw [mul_zero]
    positivity
  · obtain ⟨hmore, -⟩ := length_toDigits_bounds (Nat.pos_of_ne_zero hzero)
    refine ⟨_, rfl, isNearestSize_infinityBits (power_bounds.1.trans ?_)⟩
    calc (10 : ℚ) ^ (310 : Int) ≤ 10 ^ (((Nat.toDigits 10 digits).length : Int) - 1 + e) := by
          gcongr
          · exact hten.le
          · omega
      _ = 10 ^ (((Nat.toDigits 10 digits).length : Int) - 1) * 10 ^ e :=
          zpow_add₀ (by norm_num) _ _
      _ ≤ digits * 10 ^ e := by gcongr
  · obtain ⟨-, hless⟩ := length_toDigits_bounds (Nat.pos_of_ne_zero hzero)
    refine ⟨_, rfl, isNearestSize_zero (by positivity) (lt_trans ?_ power_bounds.2)⟩
    have hvalue : (digits : ℚ) * 10 ^ e < 10 ^ (-330 : Int) := by
      calc (digits : ℚ) * 10 ^ e
          < 10 ^ ((Nat.toDigits 10 digits).length : Int) * 10 ^ e := by gcongr
        _ = 10 ^ (((Nat.toDigits 10 digits).length : Int) + e) :=
            (zpow_add₀ (by norm_num) _ _).symm
        _ ≤ 10 ^ (-330 : Int) := by
            gcongr
            exact hten.le
    linarith
  · obtain ⟨hd, hvalue⟩ := unscale_value (n := digits) (show 0 < 10 by decide) (-e) Nat.one_pos
    rw [Nat.cast_one, div_one, zpow_neg, div_inv_eq_mul, Nat.cast_ofNat] at hvalue
    have hn : 0 < (unscale 10 (-e) digits 1).1 := by
      refine Nat.pos_of_ne_zero fun h0 => ?_
      rw [h0, Nat.cast_zero, zero_div] at hvalue
      have hpos : (0 : ℚ) < digits := by exact_mod_cast Nat.pos_of_ne_zero hzero
      have : (0 : ℚ) < digits * 10 ^ e := by positivity
      linarith
    refine ⟨_, rfl, ?_⟩
    rw [← hvalue]
    exact isNearestSize_nearestBits hn hd

/-- The exact value of a numeral. -/
def value (n : Numeral) : ℚ :=
  signFactor n.negative *
    (ofDigits (n.whole ++ n.fraction) * 10 ^ (n.exponent - n.fraction.length))

/-- A numeral is read as a number with its sign and the size nearest to that of its value. -/
theorem toFloat_nearest (n : Numeral) :
    ∃ bits, n.toFloat = signed n.negative bits ∧ IsNearestSize |n.value| bits := by
  obtain ⟨bits, hread, hnearest⟩ := magnitudeOf_nearest (ofDigits (n.whole ++ n.fraction))
    (n.exponent - n.fraction.length)
  refine ⟨bits, by rw [toFloat, hread, signed], ?_⟩
  rwa [value, abs_mul, abs_signFactor, one_mul, abs_of_nonneg (by positivity)]

theorem value_eq_signFactor_mul_abs (n : Numeral) :
    n.value = signFactor n.negative * |n.value| := by
  rw [value, abs_mul, abs_signFactor, one_mul, abs_of_nonneg (by positivity)]

/-- **A numeral's exact value is rounded to the number that it is read as**, which has the numeral's
sign also if it is zero. -/
theorem roundsTo_toFloat (n : Numeral) :
    RoundsTo n.value n.toFloat ∧ isNegative n.toFloat = n.negative := by
  obtain ⟨bits, hsigned, hnearest⟩ := n.toFloat_nearest
  have hle := hnearest.le_infinityBits
  have hsign : isNegative n.toFloat = n.negative := by rw [hsigned, isNegative_signed hle]
  refine ⟨IsNearestSize.roundsTo ?_ ?_, hsign⟩
  · rwa [hsigned, sizeBits_signed n.negative hle]
  · rw [hsign]
    exact n.value_eq_signFactor_mul_abs

/-- A numeral without a minus whose value a finite number has is read as this number. -/
theorem toFloat_of_value {n : Numeral} {significand bits : Nat} {exponent : Int}
    (hn : n.negative = false) (hr : Represents significand exponent bits)
    (hv : n.value = significand * 2 ^ exponent) :
    n.toFloat = Float.ofBits (UInt64.ofNat bits) := by
  obtain ⟨nearest, hsigned, hnearest⟩ := n.toFloat_nearest
  rw [hv, abs_of_nonneg (by positivity)] at hnearest
  rw [hsigned, hn, hnearest.unique hr.isNearestSize]
  rfl

end Numeral

end SmallLisp.Number
