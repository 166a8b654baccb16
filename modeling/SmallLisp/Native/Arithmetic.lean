import SmallLisp.Value.Written

/-! # Arithmetic and comparison

The arguments are taken from the left.  Each is checked to be a number when its turn comes; truth
values are not numbers.  A division stops at the first zero divisor and a comparison for equality
at the first number that differs, so what stands further right is not looked at.  To say that an
argument is no number its text is wanted, so there is a limit on lists inside one another.
-/
namespace SmallLisp.Arithmetic

variable (limit : Nat)

/-- The number that an argument is. -/
def number : Value → Except Fault Float
  | .num x => .ok x
  | v => .error (.wrongType limit .number v)

/-- The numbers that all arguments are. -/
def numbers : List Value → Except Fault (List Float)
  | [] => .ok []
  | v :: rest => do
    let x ← number limit v
    let xs ← numbers rest
    return x :: xs

/-- Divides by the arguments one after the other, the first of them being at `place`. -/
def divideBy (x : Float) (place : Nat) : List Value → Except Fault Float
  | [] => .ok x
  | v :: rest => do
    let divisor ← number limit v
    if divisor == 0 then throw (.lisp (.zeroDivisor place))
    divideBy (x / divisor) (place + 1) rest

/-- Whether the arguments are all equal to a number, looked at up to the first that is not. -/
def allEqual (x : Float) : List Value → Except Fault Bool
  | [] => .ok true
  | v :: rest => do
    let y ← number limit v
    if y == x then allEqual x rest else return false

/-- Compares exactly two numbers. -/
def compare (f : Arithmetic) (holds : Float → Float → Bool) : List Value → Except Fault Value
  | [v, w] => do
    let x ← number limit v
    let y ← number limit w
    return .bool (holds x y)
  | args => .error (.lisp (.wrongArity (.native (.arithmetic f)) args.length))

/-- The value of an arithmetic function. -/
def apply : Arithmetic → List Value → Except Fault Value
  | add, args => do return .num ((← numbers limit args).foldl (· + ·) 0)
  | multiply, args => do return .num ((← numbers limit args).foldl (· * ·) 1)
  | subtract, [] => .error (.lisp (.wrongArity (.native (.arithmetic subtract)) 0))
  | subtract, [v] => do return .num (-(← number limit v))
  | subtract, v :: rest => do
    let x ← number limit v
    return .num ((← numbers limit rest).foldl (· - ·) x)
  | divide, [] => .error (.lisp (.wrongArity (.native (.arithmetic divide)) 0))
  | divide, [v] => do
    let x ← number limit v
    if x == 0 then throw (.lisp .zeroReciprocal)
    return .num (1 / x)
  | divide, v :: rest => do
    let x ← number limit v
    return .num (← divideBy limit x 2 rest)
  | equal, v :: w :: rest => do
    let x ← number limit v
    return .bool (← allEqual limit x (w :: rest))
  | equal, args => .error (.lisp (.wrongArity (.native (.arithmetic equal)) args.length))
  | less, args => compare limit less (fun x y => x < y) args
  | greater, args => compare limit greater (fun x y => y < x) args
  | atMost, args => compare limit atMost (fun x y => x ≤ y) args
  | atLeast, args => compare limit atLeast (fun x y => y ≤ x) args

end SmallLisp.Arithmetic
