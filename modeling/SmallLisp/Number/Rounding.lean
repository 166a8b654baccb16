import SmallLisp.Number.Parts

/-! # Rounding to the nearest number

`nearest` gives the non-negative number that lies nearest to a fraction, computed with natural
numbers alone.  The exponent is chosen so that the rounded significand has 53 binary digits, or
fewer for the smallest numbers; of two numbers equally near, the one with the even significand
is taken; from halfway beyond the largest number on, the result is infinity.
-/
namespace SmallLisp.Number

/-- A quotient rounded to the nearest natural number, a half to the even neighbour. -/
def roundHalfEven (n d : Nat) : Nat :=
  let quotient := n / d
  let remainder := n % d
  if 2 * remainder < d then quotient
  else if d < 2 * remainder then quotient + 1
  else if quotient % 2 = 0 then quotient
  else quotient + 1

/-- The fraction `n / d` divided by `base ^ exponent`, as a fraction. -/
def unscale (base : Nat) (exponent : Int) (n d : Nat) : Nat × Nat :=
  if 0 ≤ exponent then (n, d * Nat.pow base exponent.toNat)
  else (n * Nat.pow base (-exponent).toNat, d)

/-- The greatest exponent `e` with `2 ^ e ≤ n / d`, for positive `n` and `d`.  The difference of
the lengths of `n` and `d` is that exponent or one more. -/
def floorLog2 (n d : Nat) : Int :=
  let e : Int := (Nat.log2 n : Int) - Nat.log2 d
  let (a, b) := unscale 2 e n d
  if b ≤ a then e else e - 1

/-- The bits of the number nearest to `n / d`.  A significand that is rounded up to `2 ^ 53`
carries into the exponent field by itself. -/
def nearestBits (n d : Nat) : Nat :=
  if n = 0 then 0
  else
    -- no number has an exponent below -1074
    let exponent := max (floorLog2 n d - 52) (-1074)
    let (a, b) := unscale 2 exponent n d
    min ((exponent + 1074).toNat * Nat.pow 2 52 + roundHalfEven a b) infinityBits

/-- The non-negative number nearest to the fraction `n / d`. -/
def nearest (n d : Nat) : Float :=
  Float.ofBits (UInt64.ofNat (nearestBits n d))

/-- A rounded quotient is at most half a unit away. -/
theorem roundHalfEven_near {n d : Nat} (hd : 0 < d) :
    2 * n ≤ 2 * (roundHalfEven n d * d) + d ∧ 2 * (roundHalfEven n d * d) ≤ 2 * n + d := by
  have h := Nat.div_add_mod n d
  have hm := Nat.mod_lt n hd
  have e : n / d * d = d * (n / d) := Nat.mul_comm _ _
  have s : (n / d + 1) * d = d * (n / d) + d := by rw [Nat.add_mul, e, Nat.one_mul]
  unfold roundHalfEven
  simp only
  split
  · rw [e]; omega
  split
  · rw [s]; omega
  split
  · rw [e]; omega
  · rw [s]; omega

end SmallLisp.Number
