import SmallLisp.Number.Numeral

/-! # How numbers are written

A number is written with the fewest decimal digits that read back to it, and of the texts with
that many digits the nearest to its value.  From one ten-thousandth up to, but not including,
ten quadrillions the digits stand around a point; beyond, they are followed by an exponent.

`literal` always shows a point, an exponent or a word; `display` writes integers below ten
quadrillions without a point, so that `-0.0` is shown as `0`.
-/
namespace SmallLisp.Number

/-- The first and one past the last decimal exponent that is written without `e`. -/
def positionalExponents : Int × Int := (-4, 16)

/-- A row of `n` zeros. -/
def zeros (n : Nat) : List Char :=
  List.replicate n '0'

/-- An exponent as it is written: a sign and at least two digits. -/
def exponentText (e : Int) : List Char :=
  let digits := Nat.toDigits 10 e.natAbs
  'e' :: (if e < 0 then '-' else '+') :: zeros (2 - digits.length) ++ digits

/-- The text of `0.d₁d₂d₃… · 10 ^ (e + 1)`, where `d₁` is not zero unless it stands alone. -/
def layout (digits : List Char) (e : Int) : List Char :=
  if e < positionalExponents.1 ∨ positionalExponents.2 ≤ e then
    match digits with
    | [] => []
    | [d] => d :: exponentText e
    | d :: rest => d :: '.' :: rest ++ exponentText e
  else if e < 0 then '0' :: '.' :: zeros (-e - 1).toNat ++ digits
  else
    let whole := e.toNat + 1
    if digits.length ≤ whole then digits ++ zeros (whole - digits.length) ++ ['.', '0']
    else digits.take whole ++ '.' :: digits.drop whole

/-- The text of `digits · 10 ^ exponent`, for a positive natural number `digits`. -/
def decimalText (digits : Nat) (exponent : Int) : List Char :=
  let all := Nat.toDigits 10 digits
  layout (all.reverse.dropWhile (· == '0')).reverse (exponent + all.length - 1)

/-- The exact value of a positive fraction whose denominator is `2 ^ power`. -/
def exactText (numerator power : Nat) : List Char :=
  decimalText (numerator * Nat.pow 5 power) (-power)

/-- The greatest exponent `e` with `10 ^ e ≤ n / d`, for positive `n` and `d`. -/
def floorLog10 (n d : Nat) : Int :=
  if d ≤ n then (Nat.toDigits 10 (n / d)).length - 1
  else
    let length := (Nat.toDigits 10 (d / n)).length
    if n * Nat.pow 10 (length - 1) = d then 1 - length else -length

/-- The two neighbours of `n / d` with `count` decimal digits, as texts, the nearer first and of
two equally near the even one. -/
def neighbours (n d count : Nat) : List (List Char) :=
  let exponent := floorLog10 n d - count + 1
  let (a, b) := unscale 10 exponent n d
  let below := a / b
  let nearer := roundHalfEven a b
  -- one neighbour is the rounded quotient, the other lies on the far side of it
  let farther := if nearer = below then below + 1 else below
  [decimalText nearer exponent, decimalText farther exponent]

/-- Whether a text is a numeral for exactly the number `x`. -/
def readsBack (x : Float) (text : List Char) : Bool :=
  (Numeral.read? text).map Float.toBits == some x.toBits

/-- The shortest text that reads back to the positive number `x`, whose value is `n / d`.
Seventeen digits are always enough; were they not, the exact value would be written. -/
def shortestText (x : Float) (n d : Nat) : List Char :=
  ((List.range 17).findSome? fun i => (neighbours n d (i + 1)).find? (readsBack x)).getD
    (exactText n (Nat.log2 d))

/-- A text found with few digits reads back. -/
theorem readsBack_of_find {x : Float} {n d : Nat} {text : List Char}
    (h : ((List.range 17).findSome? fun i => (neighbours n d (i + 1)).find? (readsBack x)) =
      some text) :
    readsBack x text = true ∧ shortestText x n d = text := by
  obtain ⟨i, _, hi⟩ := List.exists_of_findSome?_eq_some h
  exact ⟨List.find?_some hi, by simp [shortestText, h]⟩

/-- The text of the magnitude of a number. -/
def magnitudeText (x : Float) : List Char :=
  match magnitude x with
  | .notANumber => ['n', 'a', 'n']
  | .infinite => ['i', 'n', 'f']
  | .finite significand exponent =>
    if significand = 0 then ['0', '.', '0']
    else
      match (Magnitude.finite significand exponent).fraction? with
      | some (n, d) => shortestText (Float.ofBits (UInt64.ofNat (x.toBits.toNat % Nat.pow 2 63))) n d
      | none => []

/-- A number as it is written where it must not be taken for an integer. -/
def literal (x : Float) : List Char :=
  match magnitude x with
  | .notANumber => magnitudeText x
  | _ => if isNegative x then '-' :: magnitudeText x else magnitudeText x

/-- Integers of at least this size are not written as integers. -/
def integerLimit : Nat := Nat.pow 10 16

/-- An integer in decimal digits. -/
def integerText (n : Int) : List Char :=
  if n < 0 then '-' :: Nat.toDigits 10 n.natAbs else Nat.toDigits 10 n.natAbs

/-- A number as it is shown and as it is written in source text. -/
def display (x : Float) : List Char :=
  match integer? x with
  | some n => if n.natAbs < integerLimit then integerText n else literal x
  | none => literal x

end SmallLisp.Number
