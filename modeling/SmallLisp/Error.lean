import SmallLisp.Native
import SmallLisp.Path
import SmallLisp.SpecialForm
import SmallLisp.Text.Quoted
import SmallLisp.Text.Utf8

/-! # Errors

An error is its cause; the words for it are given by `message`.  Three groups build on one
another: what the reader finds wrong with a text, why a file cannot be read, and what goes wrong
in evaluation, where the failure of a module wraps the error that stopped it.

A `Fault` ends an evaluation.  Besides the errors of the language these are exhaustion (too many
evaluations inside one another) and two faults of paths that are not errors of the language:
they are not wrapped when they pass through a module, and the console does not survive them.
-/
namespace SmallLisp

/-! ## Errors of the reader -/

/-- What is wrong with a text. -/
inductive SyntaxFlaw where
  /-- A bracket that is not closed before the text ends. -/
  | unclosedBracket
  /-- A closing bracket where an expression is wanted or nothing is open. -/
  | strayBracket
  /-- A quote at the end of the text. -/
  | nothingQuoted
  /-- A string that does not end. -/
  | unclosedString
  /-- A backslash in a string before a character that has no escape. -/
  | unknownEscape (c : Char)
  deriving DecidableEq, Repr

/-- A flaw and the number of characters before it. -/
structure SyntaxError where
  flaw : SyntaxFlaw
  position : Nat
  deriving DecidableEq, Repr

/-- Whether more text could mend a flaw. -/
def SyntaxFlaw.isIncomplete : SyntaxFlaw → Bool
  | unclosedBracket | nothingQuoted | unclosedString => true
  | strayBracket | unknownEscape _ => false

/-- What is told about a flaw. -/
def SyntaxFlaw.text : SyntaxFlaw → String
  | unclosedBracket => "Unmatched '('"
  | strayBracket => "Unexpected ')'"
  | nothingQuoted => "Expected an expression after quote"
  | unclosedString => "Unterminated string literal"
  | unknownEscape c => "Unknown escape sequence '\\" ++ c.toString ++ "' in string"

/-- Whether more text could mend an error. -/
def SyntaxError.isIncomplete (e : SyntaxError) : Bool :=
  e.flaw.isIncomplete

/-- What is told about an error of the reader. -/
def SyntaxError.message (e : SyntaxError) : String :=
  "Syntax error at position " ++ toString e.position ++ ": " ++ e.flaw.text

/-- The same error in a text with `n` more characters before it. -/
def SyntaxError.shift (n : Nat) (e : SyntaxError) : SyntaxError :=
  ⟨e.flaw, n + e.position⟩

/-! ## Errors of files -/

/-- Why a file cannot be reached or read. -/
inductive FileError where
  | missing
  | notADirectory
  | isADirectory
  | alreadyExists
  | nameTooLong
  | tooManyLinks
  | undecodable (fault : Text.DecodingFault)
  deriving DecidableEq, Repr

/-- The kind of a file error. -/
def FileError.kind : FileError → String
  | missing => "FileNotFoundError"
  | notADirectory => "NotADirectoryError"
  | isADirectory => "IsADirectoryError"
  | alreadyExists => "FileExistsError"
  | nameTooLong | tooManyLinks => "OSError"
  | undecodable _ => "InvalidData"

/-- What is told about a file error. -/
def FileError.text : FileError → String
  | missing => "No such file or directory"
  | notADirectory => "Not a directory"
  | isADirectory => "Is a directory"
  | alreadyExists => "File exists"
  | nameTooLong => "File name too long"
  | tooManyLinks => "Too many levels of symbolic links"
  | undecodable fault => fault.message

/-! ## Errors of evaluation -/

/-- What kind of value was expected. -/
inductive Expectation where
  | number
  | string
  | formatString
  | list
  | symbol
  | parameterList
  | modulePath
  deriving DecidableEq, Repr

/-- The name of an expectation. -/
def Expectation.text : Expectation → String
  | number => "Number"
  | string => "String"
  | formatString => "String (for format)"
  | list => "List"
  | symbol => "Symbol"
  | parameterList => "List of parameters"
  | modulePath => "String or Symbol path"

/-- What was called with a wrong number of arguments. -/
inductive Callee where
  /-- A function with so many parameters. -/
  | function (arity : Nat)
  | form (form : SpecialForm)
  | native (f : Native)
  deriving DecidableEq, Repr

/-- How many arguments a native function wants, in words. -/
def Native.wanted : Native → String
  | arithmetic f =>
    match f with
    | .add | .multiply | .subtract | .divide => "at least 1 argument"
    | .equal => "at least 2 arguments for numeric comparison"
    | .less | .greater | .atMost | .atLeast => "exactly 2 arguments"
  | list .cons => "2 arguments"
  | _ => "1 argument"

/-- How many arguments a special form wants, in words. -/
def SpecialForm.wanted : SpecialForm → String
  | define => "2 arguments"
  | quote => "1 argument"
  | lambda => "2 arguments (parameters list and body)"
  | conditional => "2 or 3 arguments"
  | require => "1 argument (path string or symbol)"

/-- What is told about a call with a wrong number of arguments. -/
def Callee.complaint (callee : Callee) (given : Nat) : String :=
  let got := ", got " ++ toString given
  match callee with
  | function arity => "Function expects " ++ toString arity ++ " arguments" ++ got
  | form f => "'" ++ f.keyword ++ "' expects " ++ f.wanted ++ got
  | native (.arithmetic f) =>
    "Native '" ++ f.name ++ "' expects " ++ (Native.arithmetic f).wanted ++ got
  | native (.string .format) => "string/format expects at least 1 argument (the format string)"
  | native f => f.name ++ " expects " ++ f.wanted ++ got

/-- An error of the language. -/
inductive LispError where
  /-- A text that cannot be read. -/
  | malformed (e : SyntaxError)
  /-- A module's text that cannot be read. -/
  | malformedModule (path : Path) (e : SyntaxError)
  /-- A module that requires itself while it is being loaded. -/
  | circularRequire (path : Path)
  /-- A value of another kind than expected, given by its readable text. -/
  | wrongType (expected : Expectation) (found : String)
  | undefinedSymbol (name : String)
  | wrongArity (callee : Callee) (given : Nat)
  | reservedKeyword (name : String)
  /-- A call of a value that is no function, given by its readable text. -/
  | notAFunction (found : String)
  | notAModule (name : String)
  | memberNotFound (module member : String)
  | moduleNotFound (path : Path)
  | unreachableModule (path : Path) (cause : FileError)
  /-- A module whose loading was stopped by an error. -/
  | failedModule (path : Path) (source : LispError)
  /-- The reciprocal of zero. -/
  | zeroReciprocal
  /-- A division by zero, with the place of the zero among the arguments. -/
  | zeroDivisor (place : Nat)
  /-- The first element or the rest of an empty list. -/
  | emptyList (f : ListFunction)
  deriving DecidableEq, Repr

namespace LispError

/-- The bare words for an error that has words of its own. -/
def detail : LispError → String
  | malformed e => e.flaw.text
  | malformedModule path e =>
    "Module parsing error in '" ++ path.text ++ "': " ++ e.message
  | circularRequire path => "Circular require of module '" ++ path.text ++ "'"
  | wrongArity callee given => callee.complaint given
  | notAFunction found =>
    "Expected a Lisp function or a native function, but found: " ++ found
  | zeroReciprocal => "reciprocal of 0 in native '/'"
  | zeroDivisor place => "argument " ++ toString place ++ " of native '/' is 0"
  | emptyList f => f.name ++ " of empty list"
  | unreachableModule _ cause => cause.text
  | wrongType expected found => "expected " ++ expected.text ++ ", found " ++ found
  | undefinedSymbol name | reservedKeyword name | notAModule name => name
  | memberNotFound _ member => member
  | moduleNotFound path | failedModule path _ => path.text

/-- What is told about an error. -/
def message : LispError → String
  | malformed e => e.message
  | e@(malformedModule _ _) | e@(circularRequire _) => "Evaluation error: " ++ e.detail
  | e@(wrongType _ _) => "Type error: " ++ e.detail
  | undefinedSymbol name => "Undefined symbol: " ++ name
  | e@(wrongArity _ _) => "Arity mismatch: " ++ e.detail
  | reservedKeyword name => "Cannot bind reserved keyword: " ++ name
  | e@(notAFunction _) => "Not a function: " ++ e.detail
  | notAModule name => "Symbol '" ++ name ++ "' is not a module, cannot access members."
  | memberNotFound module member =>
    "Member '" ++ member ++ "' not found in module '" ++ module ++ "'."
  | moduleNotFound path => "Module not found: " ++ path.text
  | unreachableModule path cause =>
    "I/O error for module '" ++ path.text ++ "': kind: " ++ cause.kind ++ ", message: " ++
      cause.text
  | failedModule path source =>
    "Error loading module '" ++ path.text ++ "': " ++ source.message
  | e@zeroReciprocal | e@(zeroDivisor _) => "Division by zero: " ++ e.detail
  | e@(emptyList _) => "Value error: " ++ e.detail

end LispError

/-- What ends an evaluation without a value. -/
inductive Fault where
  | lisp (e : LispError)
  /-- More evaluations or brackets inside one another than are allowed. -/
  | tooDeep
  /-- A path with the character U+0000 in it. -/
  | nullInPath
  /-- A symbolic link that leads back to itself. -/
  | linkLoop (path : Path)
  deriving DecidableEq, Repr

/-- What is told about exhaustion. -/
def tooDeepMessage : String := "maximum recursion depth exceeded"

/-- What is told about a path with the character U+0000 in it. -/
def nullInPathMessage : String := "embedded null byte"

/-- What is told about a fault. -/
def Fault.message : Fault → String
  | lisp e => e.message
  | tooDeep => tooDeepMessage
  | nullInPath => nullInPathMessage
  | linkLoop path => "Symlink loop from " ++ Text.quoted path.text

end SmallLisp
