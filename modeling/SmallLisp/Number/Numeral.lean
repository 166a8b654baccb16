import SmallLisp.Number.Rounding
import SmallLisp.Text.DecimalDigit

/-! # Numerals

A numeral is an optional sign, decimal digits with at most one point among them, and an optional
exponent: `12`, `-.5`, `7.`, `6.02e+23`.  There is at least one digit besides those of the
exponent.  Digits of any script may be used, even mixed.  `Numeral.parse?` takes a whole text
apart or refuses it; `Numeral.toFloat` is the number nearest to the exact value.
-/
namespace SmallLisp.Number

/-- The parts of a numeral, with the digits given by their values. -/
structure Numeral where
  negative : Bool
  whole : List Nat
  fraction : List Nat
  exponent : Int
  deriving DecidableEq, Repr

namespace Numeral

/-- The natural number that a row of decimal digits denotes. -/
def ofDigits (digits : List Nat) : Nat :=
  digits.foldl (fun n d => 10 * n + d) 0

/-- The digits at the start of a text, by value, and what follows them. -/
def takeDigits : List Char → List Nat × List Char
  | [] => ([], [])
  | c :: rest =>
    match Text.digitValue? c with
    | some d => (d :: (takeDigits rest).1, (takeDigits rest).2)
    | none => ([], c :: rest)

/-- An optional sign at the start of a text, told as whether it is a minus, and what follows. -/
def takeSign : List Char → Bool × List Char
  | '-' :: rest => (true, rest)
  | '+' :: rest => (false, rest)
  | s => (false, s)

/-- An optional point and the digits behind it, and what follows. -/
def takeFraction : List Char → List Nat × List Char
  | '.' :: rest => takeDigits rest
  | s => ([], s)

/-- The exponent that makes up a whole text; no text at all is the exponent zero. -/
def exponent? : List Char → Option Int
  | [] => some 0
  | c :: rest =>
    if c = 'e' ∨ c = 'E' then
      let (negative, digits) := takeSign rest
      match takeDigits digits with
      | ([], _) => none
      | (ds, []) => some (if negative then -(ofDigits ds : Int) else ofDigits ds)
      | (_, _ :: _) => none
    else none

/-- The numeral that a whole text is, if it is one. -/
def parse? (s : List Char) : Option Numeral :=
  let (negative, unsigned) := takeSign s
  let (whole, afterWhole) := takeDigits unsigned
  let (fraction, afterFraction) := takeFraction afterWhole
  if whole = [] ∧ fraction = [] then none
  else (exponent? afterFraction).map fun exponent => ⟨negative, whole, fraction, exponent⟩

/-- The number nearest to `digits · 10 ^ exponent`.  A value of at least `10 ^ 310` is infinite
and one below `10 ^ (-330)` is zero, which is seen from its length without computing the
power. -/
def magnitudeOf (digits : Nat) (exponent : Int) : Float :=
  let length : Int := (Nat.toDigits 10 digits).length
  if digits = 0 then nearest 0 1
  else if 310 < length + exponent then Float.ofBits (UInt64.ofNat infinityBits)
  else if length + exponent < -330 then nearest 0 1
  else
    let (n, d) := unscale 10 (-exponent) digits 1
    nearest n d

/-- The number nearest to a numeral's exact value. -/
def toFloat (n : Numeral) : Float :=
  let size := magnitudeOf (ofDigits (n.whole ++ n.fraction)) (n.exponent - n.fraction.length)
  if n.negative then -size else size

/-- The number that a whole text denotes, if it is a numeral. -/
def read? (s : List Char) : Option Float :=
  (parse? s).map toFloat

/-- Taking the digits at the start of a text leaves a text that starts with none. -/
theorem takeDigits_rest (s : List Char) :
    (takeDigits s).2 = s.dropWhile Text.isDecimalDigit := by
  induction s with
  | nil => rfl
  | cons c s ih =>
    cases h : Text.digitValue? c <;> simp [takeDigits, Text.isDecimalDigit, h, ih]

/-- As many digits are taken as the text starts with. -/
theorem takeDigits_digits (s : List Char) :
    (takeDigits s).1 = (s.takeWhile Text.isDecimalDigit).filterMap Text.digitValue? := by
  induction s with
  | nil => rfl
  | cons c s ih =>
    cases h : Text.digitValue? c <;> simp [takeDigits, Text.isDecimalDigit, h, ih]

end Numeral

end SmallLisp.Number
