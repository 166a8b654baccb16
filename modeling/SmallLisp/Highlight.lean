import SmallLisp.Reader.Atom
import SmallLisp.Token

/-! # Highlighting

Highlighting puts terminal colours around the tokens of a text and changes nothing else.  It
colours what stands there, whether or not the text can be read.
-/
namespace SmallLisp

/-- What a colour stands for. -/
inductive Color where
  | form
  | number
  | string
  | literal
  | comment
  | error
  deriving DecidableEq, Repr

namespace Color

/-- The attributes that a terminal is asked for. -/
def attributes : Color → String
  | form => "1;35"
  | number => "94"
  | string => "92"
  | literal => "96"
  | comment => "90"
  | error => "91"

/-- The sequence that sets terminal attributes. -/
def sequence (attributes : String) : List Char :=
  '\x1b' :: '[' :: attributes.toList ++ ['m']

/-- The sequence that begins a colour. -/
def start (color : Color) : List Char := sequence color.attributes

/-- The sequence that ends every colour. -/
def reset : List Char := sequence "0"

/-- A text in a colour. -/
def paint (color : Color) (text : List Char) : List Char :=
  color.start ++ text ++ reset

end Color

namespace Highlight

/-- The colour of an atom: special forms first, then literals and numbers; other symbols have
none. -/
def atomColor? (text : List Char) : Option Color :=
  if SpecialForm.isKeyword (String.ofList text) then some .form
  else if (Reader.literal? text).isSome then some .literal
  else if (Number.Numeral.parse? text).isSome then some .number
  else none

/-- The colour of a token. -/
def color? (t : Token) : Option Color :=
  match t.kind with
  | .comment => some .comment
  | .string => some .string
  | .unterminated => some .error
  | .atom => atomColor? t.text
  | .blank | .quote | .openBracket | .closeBracket => none

/-- A token in its colour. -/
def token (t : Token) : List Char :=
  match color? t with
  | some color => color.paint t.text
  | none => t.text

/-- A text in colours. -/
def text (s : List Char) : List Char :=
  (Token.row 0 s).flatMap token

end Highlight

end SmallLisp
