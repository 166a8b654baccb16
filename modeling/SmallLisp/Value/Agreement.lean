import SmallLisp.Value

/-! # When two values agree

Agreement compares what values show, not where they came from.  Truth values agree with the
numbers one and zero, the two zeros agree, and a number that is not a number agrees with none.
Functions agree by parameters and body, whatever their scopes; native functions and modules by
name.
-/
namespace SmallLisp.Value

/-- A truth value as a number. -/
def bit (b : Bool) : Float :=
  if b then 1 else 0

mutual

/-- Whether two values agree. -/
def agrees : Value → Value → Bool
  | nil, nil => true
  | bool a, bool b => a == b
  | bool a, num y => bit a == y
  | num x, bool b => x == bit b
  | num x, num y => x == y
  | str a, str b => a == b
  | sym a, sym b => a == b
  | list as, list bs => agreeAll as bs
  | fn ps a _, fn qs b _ => ps == qs && agrees a b
  | native f, native g => f.name == g.name
  | module m, module n => m.name == n.name
  | _, _ => false

/-- Whether two lists agree place by place. -/
def agreeAll : List Value → List Value → Bool
  | [], [] => true
  | a :: as, b :: bs => agrees a b && agreeAll as bs
  | _, _ => false

end

end SmallLisp.Value
