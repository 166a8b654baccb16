/-! # Native functions

The functions that a prelude provides, as data: which function is meant, and the name it goes by.
What they compute is in the modules below `SmallLisp.Native`.
-/
namespace SmallLisp

/-- Arithmetic and comparison of numbers. -/
inductive Arithmetic where
  | add
  | subtract
  | multiply
  | divide
  | equal
  | less
  | greater
  | atMost
  | atLeast
  deriving DecidableEq, Repr

/-- Functions on strings. -/
inductive StringFunction where
  | concat
  | reverse
  | length
  | upper
  | lower
  | trim
  | format
  deriving DecidableEq, Repr

/-- Functions on lists. -/
inductive ListFunction where
  | list
  | cons
  | car
  | cdr
  | length
  | isEmpty
  deriving DecidableEq, Repr

/-- Functions that print a line. -/
inductive LogFunction where
  | info
  | error
  deriving DecidableEq, Repr

/-- The native functions. -/
inductive Native where
  | arithmetic (f : Arithmetic)
  | string (f : StringFunction)
  | list (f : ListFunction)
  | log (f : LogFunction)
  /-- A function of the surrounding program that answers `nil` to everything. -/
  | idle (name : String)
  deriving DecidableEq, Repr

/-- The symbol of an arithmetic function. -/
def Arithmetic.name : Arithmetic → String
  | add => "+"
  | subtract => "-"
  | multiply => "*"
  | divide => "/"
  | equal => "="
  | less => "<"
  | greater => ">"
  | atMost => "<="
  | atLeast => ">="

/-- The name of a string function in its module. -/
def StringFunction.name : StringFunction → String
  | concat => "concat"
  | reverse => "reverse"
  | length => "len"
  | upper => "to-upper"
  | lower => "to-lower"
  | trim => "trim"
  | format => "format"

/-- The name of a list function in its module. -/
def ListFunction.name : ListFunction → String
  | list => "list"
  | cons => "cons"
  | car => "car"
  | cdr => "cdr"
  | length => "len"
  | isEmpty => "empty?"

/-- The name of a log function in its module. -/
def LogFunction.name : LogFunction → String
  | info => "info"
  | error => "error"

namespace Native

/-- The name under which a native function shows itself: that of its module and its own, but an
arithmetic function goes by its symbol alone. -/
def name : Native → String
  | arithmetic f => f.name
  | string f => "string/" ++ f.name
  | list f => "list/" ++ f.name
  | log f => "log/" ++ f.name
  | idle name => name

end Native

end SmallLisp
