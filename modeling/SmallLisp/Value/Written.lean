import SmallLisp.Error
import SmallLisp.Value.Printer

/-! # Values that can be written

Only so many lists inside one another can be written: writing a list takes room, and how much room
there is depends on where the text is wanted.  So the limit is an argument of everything that makes
a text of a value.  A value that is nested more deeply can be kept and passed around, but nothing
that needs its text can be done with it, not even to complain about it.
-/
namespace SmallLisp

namespace Value

mutual

/-- How many lists inside one another a value's text shows. -/
def nesting : Value → Nat
  | list items => nestingOfAll items + 1
  | _ => 0

/-- The greatest nesting of the values of a list. -/
def nestingOfAll : List Value → Nat
  | [] => 0
  | v :: rest => max (nesting v) (nestingOfAll rest)

end

variable (limit : Nat)

/-- Whether a value has a text where so many lists inside one another can be written. -/
def isWritable (v : Value) : Bool :=
  v.nesting ≤ limit

/-- The readable text of a value that has a text. -/
def writeReadable (v : Value) : Except Fault String :=
  if v.isWritable limit then .ok v.readable else .error .tooDeep

/-- The display text of a value that has a text. -/
def writeDisplay (v : Value) : Except Fault String :=
  if v.isWritable limit then .ok v.display else .error .tooDeep

variable {limit}

theorem writeReadable_eq_ok_iff {v : Value} {text : String} :
    v.writeReadable limit = .ok text ↔ v.nesting ≤ limit ∧ text = v.readable := by
  simp only [writeReadable, isWritable, decide_eq_true_eq]
  split
  · next h => simp [h, eq_comm]
  · next h => simp [h]

theorem writeReadable_of_too_deep {v : Value} (h : limit < v.nesting) :
    v.writeReadable limit = .error .tooDeep := by
  have hw : ¬ v.isWritable limit = true := by
    rw [isWritable, decide_eq_true_eq]
    omega
  rw [writeReadable, if_neg hw]

end Value

namespace Fault

variable (limit : Nat)

/-- The fault that a value is of another kind than expected. -/
def wrongType (expected : Expectation) (found : Value) : Fault :=
  match found.writeReadable limit with
  | .ok text => .lisp (.wrongType expected text)
  | .error fault => fault

/-- The fault that a value is called which is no function. -/
def notAFunction (found : Value) : Fault :=
  match found.writeReadable limit with
  | .ok text => .lisp (.notAFunction text)
  | .error fault => fault

end Fault

end SmallLisp
