import SmallLisp.Text.Printable

/-! # Quoted texts

The way texts are written in listings of names and in messages about files: between single
quotes, or between double quotes if the text holds single quotes and no double ones; with
backslash escapes for the enclosing quote, the backslash, the usual control characters, and every
other character that cannot be shown.
-/
namespace SmallLisp.Text

/-- The last `digits` hexadecimal digits of a number, in lower case. -/
def hexDigits (digits n : Nat) : List Char :=
  (List.range digits).reverse.map fun i => Nat.digitChar (n / Nat.pow 16 i % 16)

/-- One character of a quoted text. -/
def escapeQuoted (enclosing c : Char) : List Char :=
  if c = enclosing ∨ c = '\\' then ['\\', c]
  else if c = '\n' then ['\\', 'n']
  else if c = '\r' then ['\\', 'r']
  else if c = '\t' then ['\\', 't']
  else if isPrintable c then [c]
  else if c.toNat ≤ 0xFF then '\\' :: 'x' :: hexDigits 2 c.toNat
  else if c.toNat ≤ 0xFFFF then '\\' :: 'u' :: hexDigits 4 c.toNat
  else '\\' :: 'U' :: hexDigits 8 c.toNat

/-- The quote that encloses a text. -/
def enclosingQuote (s : List Char) : Char :=
  if s.contains '\'' && !s.contains '"' then '"' else '\''

/-- A text between quotes. -/
def quoted (s : String) : String :=
  let enclosing := enclosingQuote s.toList
  String.ofList (enclosing :: s.toList.flatMap (escapeQuoted enclosing) ++ [enclosing])

end SmallLisp.Text
