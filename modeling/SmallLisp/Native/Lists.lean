import SmallLisp.Value.Written

/-! # Functions on lists

A list is never changed, only made anew.  Where a list is wanted, `nil` stands for the empty one.
-/
namespace SmallLisp.ListFunction

variable (limit : Nat)

/-- The list that an argument is. -/
def items : Value → Except Fault (List Value)
  | .nil => .ok []
  | .list vs => .ok vs
  | v => .error (.wrongType limit .list v)

/-- The only argument, which must be a list. -/
def single (f : ListFunction) : List Value → Except Fault (List Value)
  | [v] => items limit v
  | args => .error (.lisp (.wrongArity (.native (.list f)) args.length))

/-- The value of a list function. -/
def apply : ListFunction → List Value → Except Fault Value
  | list, args => .ok (.list args)
  | cons, [v, w] => do return .list (v :: (← items limit w))
  | cons, args => .error (.lisp (.wrongArity (.native (.list cons)) args.length))
  | car, args => do
    match ← single limit car args with
    | [] => throw (.lisp (.emptyList car))
    | v :: _ => return v
  | cdr, args => do
    match ← single limit cdr args with
    | [] => throw (.lisp (.emptyList cdr))
    | _ :: rest => return .list rest
  | length, args => do return .num (Number.nearest (← single limit length args).length 1)
  | isEmpty, args => do return .bool (← single limit isEmpty args).isEmpty

end SmallLisp.ListFunction
