import SmallLisp.Value
import SmallLisp.Number.Notation
import SmallLisp.Text.Pieces

/-! # Values as text

Values have two texts that differ in their strings alone: in the readable one strings stand
between double quotes with escapes, so that they read back; in the display one they stand as
they are.
-/
namespace SmallLisp

/-- The escapes inside a readable string: the letter behind the backslash and the character
meant. -/
def stringEscapes : List (Char × Char) :=
  [('"', '"'), ('\\', '\\'), ('n', '\n'), ('r', '\r'), ('t', '\t')]

/-- A character of a string as it is written between double quotes. -/
def escapeChar (c : Char) : List Char :=
  match stringEscapes.find? fun e => e.2 == c with
  | some e => ['\\', e.1]
  | none => [c]

/-- A string between double quotes. -/
def stringLiteral (s : List Char) : List Char :=
  '"' :: s.flatMap escapeChar ++ ['"']

namespace Value

mutual

/-- The text of a value, with `writeString` for the strings in it. -/
def write (writeString : List Char → List Char) : Value → List Char
  | nil => "nil".toList
  | bool b => (if b then "true" else "false").toList
  | num x => Number.display x
  | str s => writeString s.toList
  | sym name => name.toList
  | list items => '(' :: Text.join [' '] (writeAll writeString items) ++ [')']
  | fn params _ _ => "<fn (".toList ++ Text.join [' '] (params.map String.toList) ++ ")>".toList
  | native f => "<native fn ".toList ++ f.name.toList ++ ">".toList
  | module m => "<module ".toList ++ m.name.toList ++ ">".toList

/-- The texts of the values of a list. -/
def writeAll (writeString : List Char → List Char) : List Value → List (List Char)
  | [] => []
  | v :: rest => write writeString v :: writeAll writeString rest

end

/-- The text of a value with its strings as they are. -/
def display (v : Value) : String :=
  String.ofList (write id v)

/-- The text of a value with its strings as literals. -/
def readable (v : Value) : String :=
  String.ofList (write stringLiteral v)

theorem write_list (writeString : List Char → List Char) (items : List Value) :
    write writeString (list items) = '(' :: Text.join [' '] (writeAll writeString items) ++ [')'] :=
  rfl

theorem writeAll_eq_map (writeString : List Char → List Char) (vs : List Value) :
    writeAll writeString vs = vs.map (write writeString) := by
  induction vs with
  | nil => rfl
  | cons v vs ih => simp [writeAll, ih]

end Value

end SmallLisp
