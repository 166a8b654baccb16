/-! # The parts of a number

Numbers are binary floating-point numbers of 64 bits.  A finite one is a sign and a natural
number times a power of two, `significand · 2 ^ exponent`; this module takes a number apart and
puts a magnitude together again.
-/
namespace SmallLisp.Number

/-- The size of a number, its sign left aside. -/
inductive Magnitude where
  /-- The value `significand · 2 ^ exponent`. -/
  | finite (significand : Nat) (exponent : Int)
  | infinite
  | notANumber
  deriving DecidableEq, Repr

/-- The bits of infinity, which are more than those of every finite magnitude. -/
def infinityBits : Nat := 0x7FF0000000000000

/-- The magnitude that the low 63 bits of a number stand for.  Bits 52 to 62 hold the exponent;
where they are zero the significand has no leading one. -/
def Magnitude.ofBits (bits : Nat) : Magnitude :=
  let exponentField : Nat := bits / Nat.pow 2 52
  let fractionField : Nat := bits % Nat.pow 2 52
  if infinityBits < bits then .notANumber
  else if bits = infinityBits then .infinite
  else if exponentField = 0 then .finite fractionField (-1074)
  else .finite (fractionField + Nat.pow 2 52) (exponentField - 1075)

/-- The magnitude of a number. -/
def magnitude (x : Float) : Magnitude :=
  .ofBits (x.toBits.toNat % Nat.pow 2 63)

/-- Whether a number's sign bit is set. -/
def isNegative (x : Float) : Bool :=
  Nat.pow 2 63 ≤ x.toBits.toNat

/-- A magnitude as a fraction of natural numbers, if it is finite. -/
def Magnitude.fraction? : Magnitude → Option (Nat × Nat)
  | .finite significand exponent =>
    some (if 0 ≤ exponent then (significand * Nat.pow 2 exponent.toNat, 1)
      else (significand, Nat.pow 2 (-exponent).toNat))
  | _ => none

/-- The integer that a number is, if it is one. -/
def integer? (x : Float) : Option Int :=
  match (magnitude x).fraction? with
  | some (numerator, denominator) =>
    if numerator % denominator = 0 then
      let size : Int := (numerator / denominator : Nat)
      some (if isNegative x then -size else size)
    else none
  | none => none

end SmallLisp.Number
