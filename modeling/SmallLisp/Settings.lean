import SmallLisp.Path
import SmallLisp.Table
import SmallLisp.Text.Blank
import SmallLisp.Text.LetterCase

/-! # Settings from the environment

Environment variables choose how much is logged and where the console keeps its history.
-/
namespace SmallLisp

/-- The environment: variables and their values. -/
abbrev Environment := Table String String

namespace Settings

/-- The names of the levels of logging. -/
def levels : List (String × Nat) :=
  [("CRITICAL", 50), ("FATAL", 50), ("ERROR", 40), ("WARNING", 30), ("WARN", 30), ("INFO", 20),
    ("DEBUG", 10), ("NOTSET", 0)]

/-- The level that is taken where none is named. -/
def defaultLevel : Nat := 30

/-- The level with a name, in whatever case the name is written. -/
def levelNamed (name : List Char) : Nat :=
  (Table.lookup (String.ofList (Text.upper name)) levels).getD defaultLevel

/-- The level that the environment asks for; blanks around its name do not count. -/
def logLevel (environment : Environment) : Nat :=
  match environment.get? "RSP_LOG" with
  | some name => levelNamed (Text.trim name.toList)
  | none => defaultLevel

/-- A level that was asked for directly. -/
inductive LevelRequest where
  /-- None: the environment decides. -/
  | fromEnvironment
  | named (name : String)
  | exact (level : Int)
  /-- A request that holds nothing. -/
  | empty
  deriving DecidableEq, Repr

/-- The level that results from a request, if the request is for one. -/
def effectiveLevel? (environment : Environment) : LevelRequest → Option Int
  | .fromEnvironment => some (logLevel environment)
  | .named name => some (levelNamed name.toList)
  | .exact level => some level
  | .empty => none

/-- The home directory; slashes at its end do not count.  A text that starts with a tilde stands
for a home that somebody else would have to look up, and is none itself. -/
def home? (environment : Environment) : Option Path :=
  let name := ((environment.get? "HOME").getD "").toList
  match (name.reverse.dropWhile (· == '/')).reverse with
  | [] => some (.ofString "/")
  | '~' :: _ => none
  | trimmed => some (.ofString (String.ofList trimmed))

/-- The value of a variable unless it is empty. -/
def nonempty? (environment : Environment) (name : String) : Option String :=
  (environment.get? name).filter fun value => value ≠ ""

/-- The directory for the data of programs; it is in the home directory unless it is named. -/
def dataDirectory? (environment : Environment) : Option Path :=
  match nonempty? environment "XDG_DATA_HOME" with
  | some path => some (.ofString path)
  | none => (home? environment).map fun home => (home.child ".local").child "share"

/-- The file that holds the history of the console; `none` if it is in the home directory and there
is none. -/
def historyPath? (environment : Environment) : Option Path :=
  match nonempty? environment "RSP_HISTORY_PATH" with
  | some path => some (.ofString path)
  | none => (dataDirectory? environment).map fun data => (data.child "rsp").child "history.txt"

end Settings

end SmallLisp
