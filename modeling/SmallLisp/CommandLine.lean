import SmallLisp.Settings
import SmallLisp.Text.DecimalDigit
import SmallLisp.Text.Pieces
import SmallLisp.Text.Quoted

/-! # The command line

Arguments are options, operands, or the separator `--`, behind which everything is an operand.
An option may be shortened as long as only one option can be meant; its value follows as the next
argument, behind an equals sign, or, for a one-letter option, directly.  A separator is no value:
an option to which one is attached stands without any.

`Grammar.scan` splits arguments into what is given, in order, for one grammar; the program has
one grammar of its own and one for each of its commands.  `CommandLine.parse` puts them together
and gives what is to be done or what is to be told before the program ends.
-/
namespace SmallLisp

/-- The options. -/
inductive Flag where
  | help
  | version
  | logLevel
  | expr
  deriving DecidableEq, Repr

/-- What a grammar takes besides options. -/
inductive Operand where
  /-- The name of a command and everything after it. -/
  | command
  /-- At most one file. -/
  | file
  | none
  deriving DecidableEq, Repr

/-- Which arguments a program or one of its commands takes, and its help. -/
structure Grammar where
  program : String
  /-- The spellings of the options. -/
  options : List (String × Flag)
  operand : Operand
  usage : String
  /-- What the help says after the usage. -/
  description : String

namespace Flag

/-- Whether an option has a value. -/
def hasValue : Flag → Bool
  | logLevel | expr => true
  | help | version => false

/-- How an option is called in complaints. -/
def title : Flag → String
  | help => "-h/--help"
  | version => "--version"
  | logLevel => "--log-level"
  | expr => "-e/--expr"

end Flag

/-- What an argument is for a grammar. -/
inductive Mark where
  | operand (text : String)
  | separator
  /-- An option that the grammar does not know. -/
  | unknown (text : String)
  /-- An option, whether it is written as one letter, and the text attached to it in the same
  argument. -/
  | option (flag : Flag) (isLetter : Bool) (attached? : Option String)
  | ambiguous (text : String) (candidates : List String)

/-- What the arguments give, in order. -/
inductive Item where
  /-- An option and its value, if it has one. -/
  | option (flag : Flag) (value? : Option String)
  | operands (arguments : List String)
  /-- A complaint, which ends the scan. -/
  | complaint (text : String)

/-- What the arguments give and which of them nobody wants. -/
structure Scan where
  items : List Item
  extras : List String

namespace Mark

/-- The argument as it was typed, for those that are passed on as they are. -/
def text : Mark → String
  | operand s | unknown s | ambiguous s _ => s
  | separator => "--"
  | option .. => ""

/-- Whether a mark is that of an option. -/
def isOption : Mark → Bool
  | operand _ | separator => false
  | _ => true

end Mark

namespace Grammar

/-- Splits a text at its first equals sign. -/
def splitEquals (s : List Char) : List Char × Option (List Char) :=
  match s.dropWhile (· != '=') with
  | [] => (s, none)
  | _ :: value => (s.takeWhile (· != '='), some value)

/-- Whether an argument is a negative number, which is no option. -/
def isNegativeNumber : List Char → Bool
  | '-' :: rest =>
    let rest := if rest.getLast? = some '\n' then rest.dropLast else rest
    let whole := rest.takeWhile Text.isDecimalDigit
    match rest.dropWhile Text.isDecimalDigit with
    | [] => whole ≠ []
    | '.' :: fraction => fraction ≠ [] ∧ fraction.all Text.isDecimalDigit
    | _ => false
  | _ => false

/-- Whether an option is written as one letter behind a single dash. -/
def isLetterOption (spelling : String) : Bool :=
  spelling.toList[1]? != some '-'

/-- The options that an argument may mean by being the beginning of their spelling, or by being a
one-letter option with its value directly behind. -/
def candidates (g : Grammar) (argument : List Char) : List (String × Mark) :=
  match argument with
  | '-' :: '-' :: _ =>
    let (name, value?) := splitEquals argument
    g.options.filterMap fun (spelling, flag) =>
      if name.isPrefixOf spelling.toList then
        some (spelling, .option flag false (value?.map String.ofList))
      else none
  | _ =>
    g.options.filterMap fun (spelling, flag) =>
      if spelling.toList = argument.take 2 then
        some (spelling, .option flag true (some (String.ofList (argument.drop 2))))
      else if argument.isPrefixOf spelling.toList then
        some (spelling, .option flag (isLetterOption spelling) none)
      else none

/-- What an argument before any separator is. -/
def mark (g : Grammar) (argument : String) : Mark :=
  let cs := argument.toList
  let whole (spelling : String) : Option Flag := Table.lookup spelling g.options
  if cs.head? ≠ some '-' then .operand argument
  else
    match whole argument with
    | some flag => .option flag (isLetterOption argument) none
    | none =>
      if cs.length = 1 then .operand argument
      else
        let (name, value?) := splitEquals cs
        let spelling := String.ofList name
        match value?, whole spelling with
        | some value, some flag =>
          .option flag (isLetterOption spelling) (some (String.ofList value))
        | _, _ =>
          match g.candidates cs with
          | [(_, found)] => found
          | first :: second :: more =>
            .ambiguous argument ((first :: second :: more).map Prod.fst)
          | [] =>
            -- no grammar has options that look like numbers or hold blanks
            if isNegativeNumber cs ∨ cs.contains ' ' then .operand argument
            else .unknown argument

/-- What the arguments are. -/
def marks (g : Grammar) : List String → List (Mark × String)
  | [] => []
  | "--" :: rest => (.separator, "--") :: rest.map fun s => (.operand s, s)
  | argument :: rest => (g.mark argument, argument) :: g.marks rest

/-- How many of the arguments that are no options the grammar's operand takes, counting
separators. -/
def operandCount (g : Grammar) (arguments : List (Mark × String)) : Option Nat :=
  let isSeparator (m : Mark × String) : Bool := m.1 matches .separator
  let leading := (arguments.takeWhile isSeparator).length
  match g.operand, arguments.drop leading with
  | .none, _ => none
  | .command, [] => none
  | .command, _ => some arguments.length
  | .file, (.operand _, _) :: rest => some (leading + 1 + (rest.takeWhile isSeparator).length)
  | .file, _ => some leading

/-- The complaint about the value of an option. -/
def complaintAbout (flag : Flag) (text : String) : Item :=
  .complaint ("argument " ++ flag.title ++ ": " ++ text)

/-- The complaint about a value for an option that has none. -/
def ignoredValue (flag : Flag) (value : List Char) : Item :=
  complaintAbout flag ("ignored explicit argument " ++ Text.quoted (String.ofList value))

/-- What an option gives that stands alone, and how many of the following arguments it uses. -/
def takeFollowing (flag : Flag) (following : List (Mark × String)) : List Item × Nat :=
  if flag.hasValue then
    match following with
    | (.operand value, _) :: _ => ([.option flag (some value)], 1)
    | _ => ([complaintAbout flag "expected one argument"], 0)
  else ([.option flag none], 0)

/-- What is left of a text attached to an option: a separator counts for nothing. -/
def attachedValue? (value : List Char) : Option String :=
  if value = ['-', '-'] then none else some (String.ofList value)

/-- What an option gives with a text attached to it. -/
def takeAttached (flag : Flag) (value : List Char) : Item :=
  if flag.hasValue then .option flag (attachedValue? value) else ignoredValue flag value

/-- What a one-letter option gives with text behind it: its value or, if it has none, more
one-letter options.  A complaint about one of the letters stands for all of them. -/
def takeLetters (g : Grammar) (following : List (Mark × String)) (flag : Flag) :
    List Char → List Item × Nat
  | [] => takeFollowing flag following
  | c :: rest =>
    match flag.hasValue, Table.lookup (String.ofList ['-', c]) g.options with
    | false, some next =>
      match g.takeLetters following next rest with
      | ([.complaint text], _) => ([.complaint text], 0)
      | (items, used) => (.option flag none :: items, used)
    | _, _ => ([takeAttached flag (c :: rest)], 0)

/-- What one option gives, and how many of the following arguments it uses. -/
def takeOption (g : Grammar) (flag : Flag) (isLetter : Bool) (attached? : Option String)
    (following : List (Mark × String)) : List Item × Nat :=
  match attached? with
  | none => takeFollowing flag following
  | some value =>
    if isLetter ∧ value ≠ "" then g.takeLetters following flag value.toList
    else ([takeAttached flag value.toList], 0)

/-- Splits arguments into what they give and what is left over.  `awaits` tells whether the
operand is still to come; `fuel` bounds the number of rounds. -/
def scanFrom (g : Grammar) (awaits : Bool) : (fuel : Nat) → List (Mark × String) → Scan
  | 0, _ => ⟨[], []⟩
  | fuel + 1, arguments =>
    let operandHere (more : List (Mark × String) → Scan) (otherwise : Unit → Scan) : Scan :=
      match if awaits then g.operandCount arguments else none with
      | some n =>
        let rest := more (arguments.drop n)
        ⟨.operands ((arguments.take n).map Prod.snd) :: rest.items, rest.extras⟩
      | none => otherwise ()
    if arguments.any fun m => m.1.isOption then
      match arguments with
      | [] => ⟨[], []⟩
      | (.option flag isLetter attached?, _) :: rest =>
        let (items, used) := g.takeOption flag isLetter attached? rest
        let more := g.scanFrom awaits fuel (rest.drop used)
        ⟨items ++ more.items, more.extras⟩
      | (.unknown text, _) :: rest =>
        let more := g.scanFrom awaits fuel rest
        ⟨more.items, text :: more.extras⟩
      | (.ambiguous .., _) :: rest => g.scanFrom awaits fuel rest
      | (.operand _, text) :: rest | (.separator, text) :: rest =>
        operandHere (g.scanFrom false fuel) fun _ =>
          let more := g.scanFrom awaits fuel rest
          ⟨more.items, text :: more.extras⟩
    else
      operandHere (fun rest => ⟨[], rest.map Prod.snd⟩) fun _ => ⟨[], arguments.map Prod.snd⟩

/-- What arguments give for a grammar.  An argument that could mean several options is refused
before anything else. -/
def scan (g : Grammar) (arguments : List String) : Scan :=
  let marked := g.marks arguments
  let refused := marked.findSome? fun m =>
    match m.1 with
    | .ambiguous text spellings =>
      some ("ambiguous option: " ++ text ++ " could match " ++ ", ".intercalate spellings)
    | _ => none
  match refused with
  | some text => ⟨[.complaint text], []⟩
  | none => g.scanFrom true (marked.length + 1) marked

/-- The help. -/
def help (g : Grammar) : String :=
  g.usage ++ "\n" ++ g.description

end Grammar

/-- Where the code to evaluate comes from. -/
inductive Source where
  /-- The option for code, and the code unless the option stands without any. -/
  | text (code? : Option String)
  | file (path : Path)
  deriving DecidableEq, Repr

/-- What a program can do. -/
inductive Command where
  | run (source : Source)
  | repl
  deriving DecidableEq, Repr

/-- What the command line asks for. -/
structure Invocation where
  command : Command
  level : Settings.LevelRequest
  deriving DecidableEq, Repr

/-- What is told before the program ends, and its exit code. -/
structure Farewell where
  output : String
  error : String
  code : Nat
  deriving DecidableEq, Repr

namespace CommandLine

/-- The version of the program. -/
def version : String := "0.1.0"

/-- The names of the levels that may be asked for. -/
def levelChoices : List String :=
  ["DEBUG", "INFO", "WARNING", "ERROR", "CRITICAL"]

/-- The names of the commands. -/
def commandChoices : List String :=
  ["run", "repl"]

/-- The grammar of the program. -/
def mainGrammar : Grammar where
  program := "rsp"
  options := [("-h", .help), ("--help", .help), ("--version", .version), ("--log-level", .logLevel)]
  operand := .command
  usage :=
    "usage: rsp [-h] [--version] [--log-level \x7bDEBUG,INFO,WARNING,ERROR,CRITICAL\x7d]\n" ++
    "           \x7brun,repl\x7d ...\n"
  description :=
    "A small Lisp interpreter.\n\n" ++
    "positional arguments:\n" ++
    "  \x7brun,repl\x7d\n" ++
    "    run                 evaluate an expression or a file and print the result\n" ++
    "    repl                start the interactive shell\n\n" ++
    "options:\n" ++
    "  -h, --help            show this help message and exit\n" ++
    "  --version             show program's version number and exit\n" ++
    "  --log-level \x7bDEBUG,INFO,WARNING,ERROR,CRITICAL\x7d\n" ++
    "                        diagnostic log level (defaults to $RSP_LOG, else\n" ++
    "                        WARNING)\n"

/-- The grammar of the command that evaluates code. -/
def runGrammar : Grammar where
  program := "rsp run"
  options := [("-h", .help), ("--help", .help), ("-e", .expr), ("--expr", .expr)]
  operand := .file
  usage := "usage: rsp run [-h] (-e EXPR | file)\n"
  description :=
    "positional arguments:\n" ++
    "  file                  file to evaluate\n\n" ++
    "options:\n" ++
    "  -h, --help            show this help message and exit\n" ++
    "  -e EXPR, --expr EXPR  code to evaluate\n"

/-- The grammar of the command that starts the console. -/
def replGrammar : Grammar where
  program := "rsp repl"
  options := [("-h", .help), ("--help", .help)]
  operand := .none
  usage := "usage: rsp repl [-h]\n"
  description :=
    "options:\n" ++
    "  -h, --help  show this help message and exit\n"

/-- The end of a program whose arguments are refused. -/
def refuse (g : Grammar) (complaint : String) : Farewell :=
  ⟨"", g.usage ++ g.program ++ ": error: " ++ complaint ++ "\n", 2⟩

/-- The complaint that a value is none of the choices. -/
def invalidChoice (title value : String) (choices : List String) : String :=
  "argument " ++ title ++ ": invalid choice: " ++ Text.quoted value ++ " (choose from " ++
    ", ".intercalate (choices.map Text.quoted) ++ ")"

/-- What the arguments of `run` ask for; `chosen?` is what they have asked for so far. -/
def runSource (chosen? : Option Source) : List Item → Except Farewell Source
  | [] =>
    match chosen? with
    | some source => .ok source
    | none => .error (refuse runGrammar "one of the arguments -e/--expr file is required")
  | .complaint text :: _ => .error (refuse runGrammar text)
  | .option .expr code? :: rest =>
    match chosen? with
    | some (.file _) =>
      .error (refuse runGrammar "argument -e/--expr: not allowed with argument file")
    | _ => runSource (some (.text code?)) rest
  | .option _ _ :: _ => .error ⟨runGrammar.help, "", 0⟩
  | .operands names :: rest =>
    match names.erase "--" with
    | [] => runSource chosen? rest
    | name :: _ =>
      match chosen? with
      | some (.text _) =>
        .error (refuse runGrammar "argument file: not allowed with argument -e/--expr")
      | _ => runSource (some (.file (.ofString name))) rest

/-- What the arguments of `repl` ask for. -/
def replItems : List Item → Except Farewell Unit
  | [] => .ok ()
  | .complaint text :: _ => .error (refuse replGrammar text)
  | .option _ _ :: _ => .error ⟨replGrammar.help, "", 0⟩
  | .operands _ :: rest => replItems rest

/-- What a command and its arguments ask for, with the arguments that nobody wants. -/
def command (name : String) (arguments : List String) :
    Except Farewell (Command × List String) := do
  if name = "run" then
    let scan := runGrammar.scan arguments
    return (.run (← runSource none scan.items), scan.extras)
  else if name = "repl" then
    let scan := replGrammar.scan arguments
    replItems scan.items
    return (.repl, scan.extras)
  else
    throw (refuse mainGrammar (invalidChoice "command" name commandChoices))

/-- What the arguments of the program ask for, with the arguments that nobody wants; `level` is the
level of logging that was asked for so far. -/
def mainItems (level : Settings.LevelRequest) :
    List Item → Except Farewell (Invocation × List String)
  | [] => .error (refuse mainGrammar "the following arguments are required: command")
  | .complaint text :: _ => .error (refuse mainGrammar text)
  | .option .logLevel none :: rest => mainItems .empty rest
  | .option .logLevel (some value) :: rest =>
    let name := String.ofList (Text.upper value.toList)
    if name ∈ levelChoices then mainItems (.named name) rest
    else .error (refuse mainGrammar (invalidChoice Flag.logLevel.title name levelChoices))
  | .option .version _ :: _ => .error ⟨mainGrammar.program ++ " " ++ version ++ "\n", "", 0⟩
  | .option _ _ :: _ => .error ⟨mainGrammar.help, "", 0⟩
  | .operands [] :: rest => mainItems level rest
  | .operands (name :: arguments) :: _ => do
    let (found, extras) ← command name arguments
    return (⟨found, level⟩, extras)

/-- What the command line asks for, or what is told before the program ends. -/
def parse (arguments : List String) : Except Farewell Invocation := do
  let scan := mainGrammar.scan arguments
  let (invocation, extras) ← mainItems .fromEnvironment scan.items
  match scan.extras ++ extras with
  | [] => return invocation
  | left => throw (refuse mainGrammar ("unrecognized arguments: " ++ " ".intercalate left))

end CommandLine

end SmallLisp
