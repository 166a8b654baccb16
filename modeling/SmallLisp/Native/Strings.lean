import SmallLisp.Text.Blank
import SmallLisp.Text.LetterCase
import SmallLisp.Value.Written

/-! # Functions on strings

Lengths count characters.  Formatting cuts the format string at its placeholders `%s` and fills
the gaps with the display texts of the arguments as long as there are any; what is filled in is
not looked at again.
-/
namespace SmallLisp.StringFunction

variable (limit : Nat)

/-- The string that an argument is. -/
def string : Value → Except Fault (List Char)
  | .str s => .ok s.toList
  | v => .error (.wrongType limit .string v)

/-- The strings of all arguments, put together. -/
def concatAll : List Value → Except Fault (List Char)
  | [] => .ok []
  | v :: rest => do
    let s ← string limit v
    let t ← concatAll rest
    return s ++ t

/-- The only argument, which must be a string. -/
def single (f : StringFunction) : List Value → Except Fault (List Char)
  | [v] => string limit v
  | args => .error (.lisp (.wrongArity (.native (.string f)) args.length))

/-- What is replaced in a format string. -/
def placeholder : List Char := ['%', 's']

/-- The pieces of a format string around its placeholders, found from the left. -/
def formatPieces : List Char → List (List Char)
  | [] => [[]]
  | '%' :: 's' :: rest => [] :: formatPieces rest
  | c :: rest =>
    match formatPieces rest with
    | [] => [[c]]
    | piece :: more => (c :: piece) :: more

/-- The pieces after the first, each behind the text that fills the gap before it: the display
text of the next argument, or the placeholder if there is none. -/
def fillGaps : List (List Char) → List Value → List Char
  | [], _ => []
  | piece :: more, [] => placeholder ++ piece ++ fillGaps more []
  | piece :: more, v :: args => v.write id ++ piece ++ fillGaps more args

/-- A format string with its placeholders replaced by arguments. -/
def fill (format : List Char) (args : List Value) : List Char :=
  match formatPieces format with
  | [] => []
  | piece :: more => piece ++ fillGaps more args

/-- The string that a format makes of arguments.  Only those that fill a gap need to have a text
where it is made. -/
def formatted (format : List Char) (args : List Value) : Except Fault Value :=
  let gaps := (formatPieces format).length - 1
  if (args.take gaps).all (Value.isWritable limit) then
    .ok (.str (String.ofList (fill format args)))
  else .error .tooDeep

/-- The value of a string function. -/
def apply : StringFunction → List Value → Except Fault Value
  | concat, args => do return .str (String.ofList (← concatAll limit args))
  | reverse, args => do return .str (String.ofList (← single limit reverse args).reverse)
  | length, args => do return .num (Number.nearest (← single limit length args).length 1)
  | upper, args => do return .str (String.ofList (Text.upper (← single limit upper args)))
  | lower, args => do return .str (String.ofList (Text.lower (← single limit lower args)))
  | trim, args => do return .str (String.ofList (Text.trim (← single limit trim args)))
  | format, [] => .error (.lisp (.wrongArity (.native (.string format)) 0))
  | format, .str s :: args => formatted limit s.toList args
  | format, v :: _ => .error (.wrongType limit .formatString v)

theorem formatPieces_ne_nil (s : List Char) : formatPieces s ≠ [] := by
  fun_cases formatPieces s <;> simp_all

end SmallLisp.StringFunction
