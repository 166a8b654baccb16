import SmallLisp.Number.Rounding
import SmallLisp.Proofs.NumberBits

/-! # The nearest size

Numbers of one sign are in the order of their bits (`bitsValue_lt`), so where a value without a sign
is rounded to can be said of the bits below the sign: no number of finite bits is nearer, and of two
that are equally near, the one whose last bit is zero is taken (`IsNearestSize`).  From halfway
between the largest number and the next power of two on, it is infinity.  This leaves one size only
(`IsNearestSize.unique`), and `nearestBits` is this size (`isNearestSize_nearestBits`).

A fraction is rounded to a multiple of a power of two that suits its size (`Rounded`).  Numbers that
are no multiples of that power are smaller than the fraction and than all of the multiples in
question, so none of them is nearer.
-/
namespace SmallLisp.Number

/-- Halfway between the largest number and the next power of two. -/
def infinityLimit : ℚ := 2 ^ 1024 - 2 ^ 970

/-! ## Scaling and logarithms -/

section Scaling

variable {n d : Nat}

/-- Dividing a fraction by a power divides its value. -/
theorem unscale_value {base : Nat} (hbase : 0 < base) (exponent : Int) (hd : 0 < d) :
    0 < (unscale base exponent n d).2 ∧
    ((unscale base exponent n d).1 : ℚ) / (unscale base exponent n d).2 =
      (n : ℚ) / d / (base : ℚ) ^ exponent := by
  have hbase' : (base : ℚ) ≠ 0 := Nat.cast_ne_zero.2 hbase.ne'
  unfold unscale
  by_cases he : 0 ≤ exponent
  · obtain ⟨k, rfl⟩ := Int.eq_ofNat_of_zero_le he
    rw [if_pos he]
    refine ⟨Nat.mul_pos hd (Nat.pow_pos hbase), ?_⟩
    simp only [Int.toNat_natCast, Nat.pow_eq, Nat.cast_mul, Nat.cast_pow, zpow_natCast]
    rw [div_div]
  · obtain ⟨k, hk⟩ := Int.eq_ofNat_of_zero_le (show 0 ≤ -exponent by omega)
    obtain rfl : exponent = -(k : Int) := by omega
    rw [if_neg he]
    refine ⟨hd, ?_⟩
    simp only [neg_neg, Int.toNat_natCast, Nat.pow_eq, Nat.cast_mul, Nat.cast_pow, zpow_neg,
      zpow_natCast, div_inv_eq_mul]
    rw [mul_div_right_comm]

/-- A natural number lies between two powers of two. -/
theorem log2_bounds (hn : 0 < n) :
    (2 : ℚ) ^ (Nat.log2 n : Int) ≤ n ∧ (n : ℚ) < 2 ^ ((Nat.log2 n : Int) + 1) := by
  rw [← Nat.cast_succ, zpow_natCast, zpow_natCast]
  exact ⟨by exact_mod_cast Nat.log2_self_le hn.ne', by exact_mod_cast Nat.lt_log2_self⟩

/-- The logarithm of a fraction, rounded down. -/
theorem floorLog2_spec (hn : 0 < n) (hd : 0 < d) :
    (2 : ℚ) ^ floorLog2 n d ≤ (n : ℚ) / d ∧ (n : ℚ) / d < 2 ^ (floorLog2 n d + 1) := by
  have hdq : (0 : ℚ) < d := Nat.cast_pos.2 hd
  obtain ⟨hn1, hn2⟩ := log2_bounds hn
  obtain ⟨hd1, hd2⟩ := log2_bounds hd
  -- the lengths alone leave two exponents open
  have hlow : (2 : ℚ) ^ ((Nat.log2 n : Int) - Nat.log2 d - 1) ≤ (n : ℚ) / d := by
    rw [le_div_iff₀ hdq]
    calc (2 : ℚ) ^ ((Nat.log2 n : Int) - Nat.log2 d - 1) * d
        ≤ 2 ^ ((Nat.log2 n : Int) - Nat.log2 d - 1) * 2 ^ ((Nat.log2 d : Int) + 1) := by gcongr
      _ = 2 ^ (Nat.log2 n : Int) := by rw [← zpow_add₀ two_ne_zero]; congr 1; omega
      _ ≤ n := hn1
  have hhigh : (n : ℚ) / d < 2 ^ ((Nat.log2 n : Int) - Nat.log2 d + 1) := by
    rw [div_lt_iff₀ hdq]
    calc (n : ℚ) < 2 ^ ((Nat.log2 n : Int) + 1) := hn2
      _ = 2 ^ ((Nat.log2 n : Int) - Nat.log2 d + 1) * 2 ^ (Nat.log2 d : Int) := by
        rw [← zpow_add₀ two_ne_zero]; congr 1; omega
      _ ≤ 2 ^ ((Nat.log2 n : Int) - Nat.log2 d + 1) * d := by gcongr
  obtain ⟨hb, hv⟩ := unscale_value (n := n) Nat.two_pos
    ((Nat.log2 n : Int) - Nat.log2 d) hd
  have hbq : (0 : ℚ) < (unscale 2 ((Nat.log2 n : Int) - Nat.log2 d) n d).2 := Nat.cast_pos.2 hb
  have hpow : (0 : ℚ) < ((2 : ℕ) : ℚ) ^ ((Nat.log2 n : Int) - Nat.log2 d) := by positivity
  -- the scaled fraction is compared with one to tell them apart
  have htest : (unscale 2 ((Nat.log2 n : Int) - Nat.log2 d) n d).2 ≤
      (unscale 2 ((Nat.log2 n : Int) - Nat.log2 d) n d).1 ↔
      (2 : ℚ) ^ ((Nat.log2 n : Int) - Nat.log2 d) ≤ (n : ℚ) / d := by
    rw [← Nat.cast_le (α := ℚ), ← one_le_div₀ hbq, hv, one_le_div₀ hpow, Nat.cast_ofNat]
  unfold floorLog2
  simp only
  split
  next h => exact ⟨htest.1 h, hhigh⟩
  next h =>
    refine ⟨hlow, ?_⟩
    rw [sub_add_cancel]
    exact lt_of_not_ge fun hle => h (htest.2 hle)

end Scaling

/-! ## Finite magnitudes in the order of their bits -/

/-- The exponent and the significand of a finite magnitude, and the bits that they make up. -/
structure Represents (significand : Nat) (exponent : Int) (bits : Nat) : Prop where
  significand_lt : significand < 2 ^ 53
  lowest : -1074 ≤ exponent
  /-- Only with the lowest exponent the leading one may be missing. -/
  leading : 2 ^ 52 ≤ significand ∨ exponent = -1074
  bits_eq : bits = (exponent + 1074).toNat * 2 ^ 52 + significand
  bits_lt : bits < infinityBits

/-- The magnitude of finite bits. -/
theorem exists_represents {bits : Nat} (h : bits < infinityBits) :
    ∃ significand exponent, Magnitude.ofBits bits = .finite significand exponent ∧
      Represents significand exponent bits := by
  have hmod := Nat.mod_lt bits (Nat.two_pow_pos 52)
  have hdiv := Nat.div_add_mod bits (2 ^ 52)
  unfold Magnitude.ofBits
  rw [if_neg (by omega), if_neg (by omega)]
  simp only [Nat.pow_eq]
  by_cases hf : bits / 2 ^ 52 = 0
  · rw [if_pos hf]
    refine ⟨_, _, rfl, ?_, le_refl _, .inr rfl, ?_, h⟩
    · omega
    · rw [hf] at hdiv
      simp only [Int.reduceNeg, neg_add_cancel, Int.toNat_zero]
      omega
  · rw [if_neg hf]
    refine ⟨_, _, rfl, ?_, ?_, .inl (Nat.le_add_left _ _), ?_, h⟩
    · omega
    · omega
    · have hexp : ((bits / 2 ^ 52 : Nat) - 1075 + 1074 : Int).toNat = bits / 2 ^ 52 - 1 := by omega
      rw [hexp]
      omega

/-- The value of the finite magnitude with certain bits. -/
def bitsValue (bits : Nat) : ℚ :=
  match Magnitude.ofBits bits with
  | .finite significand exponent => significand * 2 ^ exponent
  | _ => 0

section Magnitudes
variable {bits other significand significand' : Nat} {exponent exponent' : Int}

theorem Represents.unique (hr : Represents significand exponent bits)
    (hr' : Represents significand' exponent' bits) :
    significand = significand' ∧ exponent = exponent' := by
  obtain ⟨h1, h2, h3, h4, -⟩ := hr
  obtain ⟨h1', h2', h3', h4', -⟩ := hr'
  omega

theorem bitsValue_of_represents (hr : Represents significand exponent bits) :
    bitsValue bits = significand * 2 ^ exponent := by
  obtain ⟨s, e, hbits, hr'⟩ := exists_represents hr.bits_lt
  obtain ⟨rfl, rfl⟩ := hr.unique hr'
  rw [bitsValue, hbits]

/-- A number that is not zero has a significand that is not zero. -/
theorem Represents.significand_pos (hr : Represents significand exponent bits) (h : bits ≠ 0) :
    0 < significand := by
  rcases Nat.eq_zero_or_pos significand with rfl | hpos
  · have hbits := hr.bits_eq
    rcases hr.leading with hlead | rfl
    · exact absurd hlead (by decide)
    · exact absurd hbits h
  · exact hpos

theorem bitsValue_nonneg (bits : Nat) : 0 ≤ bitsValue bits := by
  unfold bitsValue
  split
  · positivity
  · exact le_refl 0

theorem bitsValue_zero : bitsValue 0 = 0 := by
  have hr : Represents 0 (-1074) 0 := ⟨by decide, le_refl _, .inr rfl, rfl, by decide⟩
  rw [bitsValue_of_represents hr, Nat.cast_zero, zero_mul]

/-- Larger bits, larger numbers. -/
theorem bitsValue_lt (hlt : bits < other) (hother : other < infinityBits) :
    bitsValue bits < bitsValue other := by
  obtain ⟨s, e, -, hr⟩ := exists_represents (hlt.trans hother)
  obtain ⟨s', e', -, hr'⟩ := exists_represents hother
  rw [bitsValue_of_represents hr, bitsValue_of_represents hr']
  obtain ⟨h1, h2, h3, h4, -⟩ := hr
  obtain ⟨h1', h2', h3', h4', -⟩ := hr'
  rcases lt_trichotomy e e' with hless | rfl | hmore
  · have hsig : (s : ℚ) < 2 ^ 53 := by exact_mod_cast h1
    have hsig' : (2 : ℚ) ^ 52 ≤ s' := by
      have : 2 ^ 52 ≤ s' := by omega
      exact_mod_cast this
    calc (s : ℚ) * 2 ^ e < 2 ^ 53 * 2 ^ e := by gcongr
      _ = 2 ^ 52 * 2 ^ (e + 1) := by rw [zpow_add₀ two_ne_zero]; ring
      _ ≤ 2 ^ 52 * 2 ^ e' := by gcongr; exacts [one_le_two, hless]
      _ ≤ s' * 2 ^ e' := by gcongr
  · have hsig : (s : ℚ) < s' := by
      have : s < s' := by omega
      exact_mod_cast this
    gcongr
  · omega

theorem bitsValue_inj (hbits : bits < infinityBits) (hother : other < infinityBits)
    (h : bitsValue bits = bitsValue other) : bits = other := by
  rcases lt_trichotomy bits other with hlt | heq | hgt
  · exact absurd h (bitsValue_lt hlt hother).ne
  · exact heq
  · exact absurd h (bitsValue_lt hgt hbits).ne'

/-- No number but zero is below `2 ^ (-1074)`. -/
theorem le_bitsValue (hne : bits ≠ 0) (hbits : bits < infinityBits) :
    (2 : ℚ) ^ (-1074 : Int) ≤ bitsValue bits := by
  obtain ⟨s, e, -, hr⟩ := exists_represents hbits
  have hpos := hr.significand_pos hne
  rw [bitsValue_of_represents hr]
  calc (2 : ℚ) ^ (-1074 : Int) ≤ 2 ^ e := zpow_le_zpow_right₀ one_le_two hr.lowest
    _ ≤ s * 2 ^ e := le_mul_of_one_le_left (by positivity) (by exact_mod_cast hpos)

end Magnitudes

/-! ## Rounding quotients -/

theorem even_of_tie {a b : Nat} (hb : 0 < b)
    (h : 2 * a = 2 * (roundHalfEven a b * b) + b ∨ 2 * (roundHalfEven a b * b) = 2 * a + b) :
    roundHalfEven a b % 2 = 0 := by
  have hdiv := Nat.div_add_mod a b
  have hmod := Nat.mod_lt a hb
  have hdown : a / b * b = b * (a / b) := Nat.mul_comm _ _
  have hup : (a / b + 1) * b = b * (a / b) + b := by rw [Nat.add_mul, hdown, Nat.one_mul]
  unfold roundHalfEven at h ⊢
  simp only at h ⊢
  split_ifs at h ⊢ with hless hmore heven
  · rw [hdown] at h
    omega
  · rw [hup] at h
    omega
  · exact heven
  · omega

/-- A rounded quotient is at most half a unit away, and even if it is that far. -/
theorem roundHalfEven_spec {a b : Nat} (hb : 0 < b) :
    |(roundHalfEven a b : ℚ) - a / b| ≤ 1 / 2 ∧
      (|(roundHalfEven a b : ℚ) - a / b| = 1 / 2 → roundHalfEven a b % 2 = 0) := by
  have hbq : (0 : ℚ) < b := Nat.cast_pos.2 hb
  obtain ⟨hlow, hhigh⟩ := roundHalfEven_near (n := a) hb
  have hlow' : (2 * a : ℚ) ≤ 2 * (roundHalfEven a b * b) + b := by exact_mod_cast hlow
  have hhigh' : (2 * (roundHalfEven a b * b) : ℚ) ≤ 2 * a + b := by exact_mod_cast hhigh
  have hdistance : (roundHalfEven a b : ℚ) - a / b = (roundHalfEven a b * b - a) / b := by
    field_simp
  rw [hdistance, abs_div, abs_of_pos hbq]
  constructor
  · rw [div_le_iff₀ hbq, abs_le]
    constructor <;> linarith
  · intro htie
    rw [div_eq_iff hbq.ne'] at htie
    refine even_of_tie hb ?_
    rcases abs_eq (by positivity) |>.1 htie with h | h
    · refine .inr ?_
      have : (2 * (roundHalfEven a b * b) : ℚ) = 2 * a + b := by linarith
      exact_mod_cast this
    · refine .inl ?_
      have : (2 * a : ℚ) = 2 * (roundHalfEven a b * b) + b := by linarith
      exact_mod_cast this

/-- A value is rounded to a multiple `r · 2 ^ e` of a power of two, one that suits its size: the
value has 53 binary digits before the point when counted in this unit, or fewer if the unit is the
smallest there is. -/
structure Rounded (q : ℚ) (r : Nat) (e : Int) : Prop where
  lowest : -1074 ≤ e
  below : q < 2 ^ 53 * 2 ^ e
  above : e = -1074 ∨ 2 ^ 52 * 2 ^ e ≤ q
  near : |r * 2 ^ e - q| ≤ 2 ^ e / 2
  even : |r * 2 ^ e - q| = 2 ^ e / 2 → r % 2 = 0

/-- Fractions are rounded like this. -/
theorem exists_rounded {n d : Nat} (hn : 0 < n) (hd : 0 < d) :
    ∃ r e, Rounded ((n : ℚ) / d) r e ∧
      nearestBits n d = min ((e + 1074).toNat * 2 ^ 52 + r) infinityBits := by
  obtain ⟨hlow, hhigh⟩ := floorLog2_spec hn hd
  obtain ⟨e, he⟩ : ∃ e, e = max (floorLog2 n d - 52) (-1074) := ⟨_, rfl⟩
  obtain ⟨hb, hscaled⟩ := unscale_value (n := n) Nat.two_pos e hd
  obtain ⟨hnear, heven⟩ := roundHalfEven_spec (a := (unscale 2 e n d).1) hb
  have hunit : (0 : ℚ) < 2 ^ e := by positivity
  rw [hscaled, Nat.cast_ofNat] at hnear heven
  -- counted in units the distance is that of the rounded quotient
  have hdistance : |(roundHalfEven (unscale 2 e n d).1 (unscale 2 e n d).2 : ℚ) * 2 ^ e - n / d| =
      |(roundHalfEven (unscale 2 e n d).1 (unscale 2 e n d).2 : ℚ) - n / d / 2 ^ e| * 2 ^ e := by
    rw [← abs_of_pos hunit, ← abs_mul, abs_of_pos hunit, sub_mul, div_mul_cancel₀ _ hunit.ne']
  refine ⟨roundHalfEven (unscale 2 e n d).1 (unscale 2 e n d).2, e, ?_, ?_⟩
  · refine ⟨by omega, ?_, ?_, ?_, ?_⟩
    · calc (n : ℚ) / d < 2 ^ (floorLog2 n d + 1) := hhigh
        _ ≤ 2 ^ (53 + e) := zpow_le_zpow_right₀ one_le_two (by omega)
        _ = 2 ^ 53 * 2 ^ e := by rw [zpow_add₀ two_ne_zero]; norm_cast
    · by_cases hlowest : e = -1074
      · exact .inl hlowest
      · refine .inr ?_
        calc (2 : ℚ) ^ 52 * 2 ^ e = 2 ^ (52 + e) := by rw [zpow_add₀ two_ne_zero]; norm_cast
          _ ≤ 2 ^ floorLog2 n d := zpow_le_zpow_right₀ one_le_two (by omega)
          _ ≤ n / d := hlow
    · rw [hdistance]
      calc _ ≤ 1 / 2 * (2 : ℚ) ^ e := by gcongr
        _ = 2 ^ e / 2 := by ring
    · intro htie
      rw [hdistance] at htie
      refine heven (mul_right_cancel₀ hunit.ne' (htie.trans ?_))
      ring
  · unfold nearestBits
    rw [if_neg hn.ne']
    simp only [← he, Nat.pow_eq]

namespace Rounded
variable {q : ℚ} {r m significand bits : Nat} {e exponent : Int}

/-- No other multiple of the unit is nearer. -/
theorem nearest (hr : Rounded q r e) (m : Nat) :
    |r * 2 ^ e - q| ≤ |m * 2 ^ e - q| ∧
      (m ≠ r → |m * 2 ^ e - q| = |r * 2 ^ e - q| → r % 2 = 0) := by
  by_cases hm : m = r
  · exact ⟨by rw [hm], fun hne => absurd hm hne⟩
  have hunit : (0 : ℚ) < 2 ^ e := by positivity
  -- two multiples are at least a unit apart
  have hapart : (1 : ℚ) ≤ |(m : ℚ) - r| := by
    have hint : (1 : Int) ≤ |(m : Int) - r| := Int.one_le_abs (by omega)
    exact_mod_cast hint
  have hunits : (2 : ℚ) ^ e ≤ |(m : ℚ) * 2 ^ e - r * 2 ^ e| := by
    rw [← sub_mul, abs_mul, abs_of_pos hunit]
    exact le_mul_of_one_le_left hunit.le hapart
  have htriangle : |(m : ℚ) * 2 ^ e - r * 2 ^ e| ≤ |m * 2 ^ e - q| + |r * 2 ^ e - q| := by
    rw [abs_sub_comm (r * 2 ^ e : ℚ) q]
    exact abs_sub_le _ _ _
  have hnear := hr.near
  constructor
  · linarith
  · intro _ htie
    exact hr.even (by linarith)

/-- The multiple is not more than 53 binary digits long, and not less unless the unit is the
smallest. -/
theorem bounds (hr : Rounded q r e) : r ≤ 2 ^ 53 ∧ (2 ^ 52 ≤ r ∨ e = -1074) := by
  have hunit : (0 : ℚ) < 2 ^ e := by positivity
  obtain ⟨hlow, hhigh⟩ := abs_le.1 hr.near
  have hbelow := hr.below
  constructor
  · have hlt : (r : ℚ) * 2 ^ e < (2 ^ 53 + 1) * 2 ^ e := by linarith
    have hr' : (r : ℚ) < 2 ^ 53 + 1 := lt_of_mul_lt_mul_right hlt hunit.le
    exact Nat.lt_succ_iff.1 (by exact_mod_cast hr')
  · rcases hr.above with hlowest | habove
    · exact .inr hlowest
    · refine .inl ?_
      have hlt : (2 ^ 52 : ℚ) * 2 ^ e < (r + 1) * 2 ^ e := by linarith
      have hr' : (2 ^ 52 : ℚ) < r + 1 := lt_of_mul_lt_mul_right hlt hunit.le
      exact Nat.lt_succ_iff.1 (by exact_mod_cast hr')

/-- **No finite number is nearer than the rounded multiple.** -/
theorem nearest_represents (hr : Rounded q r e) (hs : Represents significand exponent bits) :
    |r * 2 ^ e - q| ≤ |significand * 2 ^ exponent - q| ∧
      ((significand : ℚ) * 2 ^ exponent ≠ r * 2 ^ e →
        |significand * 2 ^ exponent - q| = |r * 2 ^ e - q| → r % 2 = 0) := by
  rcases le_or_gt e exponent with hle | hlt
  · -- the number is a multiple of the unit itself
    have hmultiple : (significand : ℚ) * 2 ^ exponent =
        (significand * 2 ^ (exponent - e).toNat : Nat) * 2 ^ e := by
      obtain ⟨k, hk⟩ := Int.eq_ofNat_of_zero_le (show 0 ≤ exponent - e by omega)
      have hexponent : exponent = k + e := by omega
      rw [hk, Int.toNat_natCast, hexponent, zpow_add₀ two_ne_zero, zpow_natCast]
      push_cast
      ring
    rw [hmultiple]
    obtain ⟨hnear, htie⟩ := hr.nearest (significand * 2 ^ (exponent - e).toNat)
    exact ⟨hnear, fun hne => htie fun heq => hne (by rw [heq])⟩
  · -- it is so small that the least multiple with 53 digits is nearer
    have hlowest : e ≠ -1074 := by
      have := hs.lowest
      omega
    have habove : (2 : ℚ) ^ 52 * 2 ^ e ≤ q := hr.above.resolve_left hlowest
    have hsmall : (significand : ℚ) * 2 ^ exponent < 2 ^ 52 * 2 ^ e := by
      have hsig : (significand : ℚ) < 2 ^ 53 := by exact_mod_cast hs.significand_lt
      calc (significand : ℚ) * 2 ^ exponent < 2 ^ 53 * 2 ^ exponent := by gcongr
        _ = 2 ^ 52 * 2 ^ (exponent + 1) := by rw [zpow_add₀ two_ne_zero]; ring
        _ ≤ 2 ^ 52 * 2 ^ e := by gcongr; exacts [one_le_two, hlt]
    have hleast := (hr.nearest (2 ^ 52)).1
    rw [Nat.cast_pow, Nat.cast_ofNat, abs_of_nonpos (sub_nonpos.2 habove)] at hleast
    have hfar : |r * 2 ^ e - q| < |significand * 2 ^ exponent - q| := by
      rw [abs_of_nonpos (by linarith : (significand : ℚ) * 2 ^ exponent - q ≤ 0)]
      linarith
    exact ⟨hfar.le, fun _ htie => absurd htie hfar.ne'⟩

/-- The rounded multiple is a number, unless its bits are too large. -/
theorem exists_represents (hr : Rounded q r e)
    (hlt : (e + 1074).toNat * 2 ^ 52 + r < infinityBits) :
    ∃ significand exponent, Represents significand exponent ((e + 1074).toNat * 2 ^ 52 + r) ∧
      (significand : ℚ) * 2 ^ exponent = r * 2 ^ e := by
  obtain ⟨hmany, hfew⟩ := hr.bounds
  have hlowest := hr.lowest
  rcases hmany.lt_or_eq with hless | rfl
  · exact ⟨r, e, ⟨hless, hlowest, hfew, rfl, hlt⟩, rfl⟩
  · -- a digit more was carried
    refine ⟨2 ^ 52, e + 1, ⟨by decide, by omega, .inl (le_refl _), by omega, hlt⟩, ?_⟩
    rw [zpow_add₀ two_ne_zero]
    push_cast
    ring

end Rounded

/-- The limit is half a unit less than 53 binary digits hold, counted in the largest unit. -/
theorem infinityLimit_eq {e : Int} (he : e = 971) : infinityLimit = (2 ^ 53 - 1 / 2) * 2 ^ e := by
  have hunit : (2 : ℚ) ^ e = 2 ^ 970 * 2 := by
    obtain rfl : e = (970 : ℕ) + 1 := he
    rw [zpow_add_one₀ two_ne_zero, zpow_natCast]
  have hlarge : (2 : ℚ) ^ 1024 = 2 ^ 970 * 2 ^ 54 := pow_add 2 970 54
  rw [infinityLimit, hunit, hlarge]
  generalize (2 : ℚ) ^ 970 = u
  ring

theorem one_lt_infinityLimit : 1 < infinityLimit := by
  obtain ⟨largest, hlargest⟩ : ∃ largest : Int, largest = 971 := ⟨_, rfl⟩
  have hunit : (1 : ℚ) ≤ 2 ^ largest := one_le_zpow₀ one_le_two (by omega)
  rw [infinityLimit_eq hlargest]
  linarith

/-- **The rounded multiple is a number exactly below the limit.** -/
theorem Rounded.lt_infinityBits_iff {q : ℚ} {r : Nat} {e : Int} (hr : Rounded q r e) :
    (e + 1074).toNat * 2 ^ 52 + r < infinityBits ↔ q < infinityLimit := by
  have hunit : (0 : ℚ) < 2 ^ e := by positivity
  obtain ⟨hmany, hfew⟩ := hr.bounds
  obtain ⟨hlow, hhigh⟩ := abs_le.1 hr.near
  have hbelow := hr.below
  obtain ⟨largest, hlargest⟩ : ∃ largest : Int, largest = 971 := ⟨_, rfl⟩
  rw [infinityLimit_eq hlargest]
  rcases lt_trichotomy e largest with hsmall | rfl | hlarge
  · refine iff_of_true (by simp only [infinityBits]; omega) ?_
    have hdouble : (2 : ℚ) ^ e * 2 ≤ 2 ^ largest := by
      rw [← zpow_add_one₀ two_ne_zero]
      exact zpow_le_zpow_right₀ one_le_two hsmall
    linarith
  · have hbits : (e + 1074).toNat * 2 ^ 52 + r < infinityBits ↔ r < 2 ^ 53 := by
      simp only [infinityBits]
      omega
    rw [hbits]
    constructor
    · intro hless
      by_contra hge
      rw [not_lt] at hge
      -- the largest odd multiple would be as near as the next one, and that is even
      have hless' : (r : ℚ) + 1 ≤ 2 ^ 53 := by exact_mod_cast hless
      have hscaled : ((r : ℚ) + 1) * 2 ^ e ≤ 2 ^ 53 * 2 ^ e := by gcongr
      have htie : (r : ℚ) * 2 ^ e - q = -(2 ^ e / 2) := by linarith
      have hlast : ((r : ℚ) + 1) * 2 ^ e = 2 ^ 53 * 2 ^ e := by linarith
      have hodd : r + 1 = 2 ^ 53 := by exact_mod_cast mul_right_cancel₀ hunit.ne' hlast
      have heven := hr.even (by rw [htie, abs_neg, abs_of_pos (by positivity)])
      omega
    · intro hless
      have hlt : (r : ℚ) * 2 ^ e < 2 ^ 53 * 2 ^ e := by linarith
      exact_mod_cast lt_of_mul_lt_mul_right hlt hunit.le
  · refine iff_of_false (by simp only [infinityBits]; omega) (not_lt.2 ?_)
    have habove : (2 : ℚ) ^ 52 * 2 ^ e ≤ q := hr.above.resolve_left (by omega)
    have hdouble : (2 : ℚ) ^ largest * 2 ≤ 2 ^ e := by
      rw [← zpow_add_one₀ two_ne_zero]
      exact zpow_le_zpow_right₀ one_le_two hlarge
    have hpositive : (0 : ℚ) < 2 ^ largest := by positivity
    linarith

/-! ## The nearest size -/

section Sizes
variable {bits other significand : Nat} {exponent : Int} {q : ℚ}

/-- Between two that are equally near lies one that is nearer. -/
theorem nearer_of_between {a b c q : ℚ} (hab : a < b) (hbc : b < c) (h : |a - q| = |c - q|) :
    |b - q| < |a - q| := by
  rcases abs_eq_abs.1 h with heq | heq
  · linarith
  · rw [abs_of_neg (by linarith : a - q < 0), abs_lt]
    constructor <;> linarith

/-- The bits below the sign of the number that a value without a sign is rounded to. -/
structure IsNearestSize (q : ℚ) (bits : Nat) : Prop where
  finite : q < infinityLimit → bits < infinityBits ∧ ∀ other < infinityBits,
    |bitsValue bits - q| ≤ |bitsValue other - q| ∧
      (other ≠ bits → |bitsValue other - q| = |bitsValue bits - q| → bits % 2 = 0)
  infinite : infinityLimit ≤ q → bits = infinityBits

theorem IsNearestSize.le_infinityBits (h : IsNearestSize q bits) : bits ≤ infinityBits := by
  rcases le_or_gt infinityLimit q with hlimit | hlimit
  · exact (h.infinite hlimit).le
  · exact (h.finite hlimit).1.le

/-- **There is one such size only**: between two that are equally near there would be a nearer one,
unless one is the other's neighbour, and then they are not both even. -/
theorem IsNearestSize.unique (hb : IsNearestSize q bits) (ho : IsNearestSize q other) :
    bits = other := by
  wlog hle : bits ≤ other generalizing bits other
  · exact (this ho hb (Nat.le_of_not_le hle)).symm
  rcases le_or_gt infinityLimit q with hlimit | hlimit
  · rw [hb.infinite hlimit, ho.infinite hlimit]
  · obtain ⟨hbits, hnear⟩ := hb.finite hlimit
    obtain ⟨hother, hnear'⟩ := ho.finite hlimit
    by_contra hne
    have hlt : bits < other := Nat.lt_of_le_of_ne hle hne
    have hequal := le_antisymm (hnear other hother).1 (hnear' bits hbits).1
    have heven := (hnear other hother).2 (Ne.symm hne) hequal.symm
    have heven' := (hnear' bits hbits).2 hne hequal
    have hbetween : bits + 1 < other := by omega
    have hvalue := bitsValue_lt (Nat.lt_succ_self bits) (hbetween.trans hother)
    have hvalue' := bitsValue_lt hbetween hother
    have hnearest := (hnear (bits + 1) (hbetween.trans hother)).1
    exact absurd hnearest (nearer_of_between hvalue hvalue' hequal).not_ge

/-- **Fractions are rounded to this size.** -/
theorem isNearestSize_nearestBits {n d : Nat} (hn : 0 < n) (hd : 0 < d) :
    IsNearestSize (n / d) (nearestBits n d) := by
  obtain ⟨r, e, hr, hbits⟩ := exists_rounded hn hd
  rw [hbits]
  refine ⟨fun hlimit => ?_, fun hlimit => ?_⟩
  · have hlt := hr.lt_infinityBits_iff.2 hlimit
    rw [Nat.min_eq_left hlt.le]
    refine ⟨hlt, fun other hother => ?_⟩
    obtain ⟨s, x, hrep, hvalue⟩ := hr.exists_represents hlt
    obtain ⟨s', x', -, hrep'⟩ := exists_represents hother
    obtain ⟨hnear, heven⟩ := hr.nearest_represents hrep'
    rw [bitsValue_of_represents hrep, bitsValue_of_represents hrep', hvalue]
    refine ⟨hnear, fun hne htie => ?_⟩
    have hdiffer : (s' : ℚ) * 2 ^ x' ≠ r * 2 ^ e := by
      rw [← hvalue, ← bitsValue_of_represents hrep, ← bitsValue_of_represents hrep']
      exact fun heq => hne (bitsValue_inj hother hlt heq)
    have := heven hdiffer htie
    omega
  · exact Nat.min_eq_right (Nat.le_of_not_lt fun hlt =>
      hlimit.not_gt (hr.lt_infinityBits_iff.1 hlt))

/-- Finite numbers are below the limit. -/
theorem Represents.lt_infinityLimit (hr : Represents significand exponent bits) :
    (significand : ℚ) * 2 ^ exponent < infinityLimit := by
  obtain ⟨largest, hlargest⟩ : ∃ largest : Int, largest = 971 := ⟨_, rfl⟩
  have hexponent : exponent ≤ largest := by
    have hb := hr.bits_eq
    have hlt := hr.bits_lt
    rcases hr.leading with h | h
    · simp only [infinityBits, Nat.reducePow] at *
      omega
    · omega
  have hsig : (significand : ℚ) < 2 ^ 53 - 1 / 2 := by
    have hsucc : (significand : ℚ) + 1 ≤ 2 ^ 53 := by exact_mod_cast hr.significand_lt
    linarith
  rw [infinityLimit_eq hlargest]
  calc (significand : ℚ) * 2 ^ exponent ≤ significand * 2 ^ largest := by
        gcongr
        exact one_le_two
    _ < (2 ^ 53 - 1 / 2) * 2 ^ largest := by gcongr

/-- A finite number is rounded to itself. -/
theorem Represents.isNearestSize (hr : Represents significand exponent bits) :
    IsNearestSize (significand * 2 ^ exponent) bits := by
  refine ⟨fun _ => ⟨hr.bits_lt, fun other hother => ?_⟩,
    fun hlimit => absurd hr.lt_infinityLimit hlimit.not_gt⟩
  rw [← bitsValue_of_represents hr, sub_self, abs_zero]
  refine ⟨abs_nonneg _, fun hne htie => absurd ?_ hne⟩
  exact bitsValue_inj hother hr.bits_lt (sub_eq_zero.1 (abs_eq_zero.1 htie))

theorem isNearestSize_infinityBits (h : infinityLimit ≤ q) : IsNearestSize q infinityBits :=
  ⟨fun hlt => absurd hlt h.not_gt, fun _ => rfl⟩

/-- What is less than half of the least number is rounded to zero. -/
theorem isNearestSize_zero (hq : 0 ≤ q) (hlt : 2 * q < 2 ^ (-1074 : Int)) : IsNearestSize q 0 := by
  refine ⟨fun _ => ⟨by decide, fun other hother => ?_⟩, fun hlimit => ?_⟩
  · by_cases hne : other = 0
    · rw [hne]
      exact ⟨le_refl _, fun h => absurd rfl h⟩
    · have hleast := le_bitsValue hne hother
      have hnearer : |bitsValue 0 - q| ≤ |bitsValue other - q| := by
        rw [bitsValue_zero, zero_sub, abs_neg, abs_of_nonneg hq, abs_of_nonneg (by linarith)]
        linarith
      exact ⟨hnearer, fun _ _ => rfl⟩
  · have hone : (2 : ℚ) ^ (-1074 : Int) ≤ 1 := zpow_le_one_of_nonpos₀ one_le_two (by decide)
    linarith [one_lt_infinityLimit]

end Sizes

end SmallLisp.Number
