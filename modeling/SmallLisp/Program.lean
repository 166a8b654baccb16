import SmallLisp.CommandLine
import SmallLisp.Console
import SmallLisp.History

/-! # The program

What a command of the command line does, as a function of the files, the environment and the text
on the standard input: what is printed, how the files change, what is warned about, and with which
code the program ends.
-/
namespace SmallLisp

/-- What a program finds when it starts. -/
structure Surroundings where
  files : FileTree
  here : WorkingDirectory
  environment : Environment

/-- What breaks a program off. -/
inductive Breakdown where
  | evaluation (fault : Fault)
  | history (obstacle : History.Obstacle)
  /-- There is no home directory where one is needed. -/
  | homeless
  /-- A level of logging was asked for without saying which. -/
  | noLevel
  /-- Code was to be evaluated and there is none. -/
  | noCode
  deriving DecidableEq, Repr

/-- What is told about a breakdown. -/
def Breakdown.message : Breakdown → String
  | evaluation fault => fault.message
  | history obstacle => obstacle.message
  | homeless => "Could not determine home directory."
  | noLevel => "Level not an integer or a valid string: []"
  | noCode => "'list' object has no attribute 'strip'"

/-- What became of a program: its exit code or what broke it off, the state of the run, the files,
and what was warned about. -/
structure Outcome where
  ending : Except Breakdown Nat
  store : Store
  files : FileTree
  warnings : List String

namespace Program

/-- Prints the message of an error and gives the exit code for it. -/
def complain (message : String) : Action Nat := do
  Action.printLine .error ("Error: " ++ message)
  return 1

/-- Evaluates a text and prints the value of its last expression, or the error. -/
def runText (setting : Setting) (text : List Char) : Action Nat := do
  let interpreter ← Interpreter.new setting false []
  fun store =>
    match (interpreter.eval setting text).run store with
    | (.ok v, after) =>
      (do
        Action.printLine .output (← Action.ofExcept (v.writeReadable setting.writingLimit))
        return 0 : Action Nat).run after
    | (.error (.lisp e), after) => (complain e.message).run after
    | (.error .tooDeep, after) => (complain tooDeepMessage).run after
    | (.error fault, after) => (.error fault, after)

/-- Evaluates the code of a file. -/
def runFile (setting : Setting) (path : Path) : Action Nat :=
  match setting.files.readText setting.here path with
  | .ok text => runText setting text
  | .error (.file e) => complain ("cannot read " ++ path.text ++ ": " ++ e.text)
  | .error _ => throw .nullInPath

/-- Evaluates code from the command line or from a file, if there is a place to take it from. -/
def runSource? (setting : Setting) : Source → Option (Action Nat)
  | .text code? => code?.map fun code => runText setting code.toList
  | .file path => some (runFile setting path)

/-- The lines of the standard input.  Text after the last newline is a line too. -/
def inputLines (input : List Char) : List (List Char) :=
  let lines := Text.pieces '\n' input
  if lines.getLast? = some [] then lines.dropLast else lines

/-- A whole console session with given lines. -/
def runConsole (setting : Setting) (lines : List (List Char)) : Action Nat := do
  let interpreter ← Interpreter.new setting false []
  let ending ← (Console.new interpreter false false).run setting (lines.map .line)
  match ending.fault? with
  | none => return 0
  | some fault => throw fault

/-- The history from the file that the environment chooses, and the path of that file. -/
def loadHistory (around : Surroundings) :
    Except Breakdown (Path × History.Report (List (List Char))) := do
  match Settings.historyPath? around.environment with
  | none => throw .homeless
  | some path =>
    return (path, ← (History.load around.files around.here path).mapError .history)

/-- The outcome of a program that is broken off before it does anything. -/
def breakOff (around : Surroundings) (breakdown : Breakdown) : Outcome :=
  ⟨.error breakdown, Store.initial, around.files, []⟩

/-- Runs a command.  The console reads its history first and writes it back when it has ended;
lines that are not typed at a terminal are not added to it. -/
def runCommand (around : Surroundings) (input : List Char) : Command → Outcome
  | .run source =>
    let setting := Setting.standard around.files around.here
    match runSource? setting source with
    | none => breakOff around .noCode
    | some action =>
      let (ending, store) := action.run Store.initial
      ⟨ending.mapError .evaluation, store, around.files, []⟩
  | .repl =>
    match loadHistory around with
    | .error breakdown => breakOff around breakdown
    | .ok (path, loaded) =>
      let setting := Setting.standard around.files around.here
      match (runConsole setting (inputLines input)).run Store.initial with
      | (.error fault, store) =>
        ⟨.error (.evaluation fault), store, around.files, loaded.warning?.toList⟩
      | (.ok code, store) =>
        match History.save around.files around.here path loaded.result with
        | .error obstacle =>
          ⟨.error (.history obstacle), store, around.files, loaded.warning?.toList⟩
        | .ok saved =>
          ⟨.ok code, store, saved.result, loaded.warning?.toList ++ saved.warning?.toList⟩

/-- Runs what the command line asks for.  The level of logging is settled before anything else. -/
def run (around : Surroundings) (input : List Char) (invocation : Invocation) : Outcome :=
  match Settings.effectiveLevel? around.environment invocation.level with
  | none => breakOff around .noLevel
  | some _ => runCommand around input invocation.command

end Program

end SmallLisp
