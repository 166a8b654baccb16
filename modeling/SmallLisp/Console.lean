import SmallLisp.Highlight
import SmallLisp.Interpreter

/-! # The console

The console takes lines and evaluates them as soon as they make up complete expressions; until
then it collects them.  A line of blanks inside unfinished input counts as an empty line.  Each
evaluated input shows its value or its error and counts; a fault that is no error of the language
passes through and leaves the console as it was.
-/
namespace SmallLisp

/-- A console: where it evaluates, how it shows, what was typed of an unfinished input, what it
prompts for the next line with, and the number of the input that is awaited. -/
structure Console where
  interpreter : Interpreter
  color : Bool
  /-- Whether each line is shown again when it is taken, as where nobody sees it being typed. -/
  echoesLines : Bool
  pending : List Char
  prompt : String
  count : Nat

namespace Console

/-- The prompt for the beginning of an input. -/
def primaryPrompt (count : Nat) : String :=
  "lisp (" ++ toString count ++ ")> "

/-- The prompt while an input is unfinished. -/
def secondaryPrompt : String := "...> "

/-- A console that has seen nothing yet. -/
def new (interpreter : Interpreter) (color echoesLines : Bool) : Console :=
  { interpreter, color, echoesLines, pending := [], prompt := primaryPrompt 1, count := 1 }

/-- The console awaits the beginning of an input, whatever was unfinished. -/
def reset (console : Console) : Console :=
  { console with pending := [], prompt := primaryPrompt console.count }

/-- The greeting. -/
def intro : String :=
  "rsp interactive shell. Type .exit or (exit) to quit, Ctrl-C cancels the current input."

/-- The inputs that end the console if nothing is unfinished. -/
def exitCommands : List (List Char) :=
  [".exit".toList, "(exit)".toList]

/-- Prints a line of the console's own. -/
def printLine (line : String) : Action Unit :=
  .printLine .console line

/-- Shows source text, in colours if the console has them. -/
def showText (console : Console) (text : List Char) : Action Unit :=
  printLine (String.ofList (if console.color then Highlight.text text else text))

/-- Whether a text is the beginning of more.  A text that is too deeply nested cannot be
judged. -/
def needsMore (setting : Setting) (text : List Char) : Except Fault Bool :=
  if setting.nestingLimit < Reader.nesting text then .error .tooDeep
  else
    match Reader.parseAll text with
    | .ok _ => .ok false
    | .error e => .ok e.isIncomplete

/-- Evaluates an input and shows its value or its error. -/
def evaluate (setting : Setting) (console : Console) (text : List Char) : Action Unit :=
  fun store =>
    match (console.interpreter.eval setting text).run store with
    | (.ok v, after) =>
      (do
        let text ← Action.ofExcept (v.writeReadable setting.writingLimit)
        console.showText text.toList : Action Unit).run after
    | (.error (.lisp e), after) => (printLine ("Error: " ++ e.message)).run after
    | (.error .tooDeep, after) => (printLine ("Error: " ++ tooDeepMessage)).run after
    | (.error fault, after) => (.error fault, after)

/-- The input that a line makes up together with what is pending. -/
def source (console : Console) (line : List Char) : List Char :=
  if console.pending = [] then line else console.pending ++ '\n' :: line

/-- Takes a line and gives the console after it and whether it is to end.  The line `EOF` stands
for the end of all input. -/
def feed (setting : Setting) (console : Console) (line : List Char) : Action (Console × Bool) := do
  if line = "EOF".toList then
    printLine ""
    return (console, true)
  else if Text.isAllBlank line then
    if console.pending = [] then return (console, false)
    else return ({ console with pending := console.pending ++ ['\n'] }, false)
  else if console.pending = [] ∧ Text.trim line ∈ exitCommands then
    return (console, true)
  else
    let source := console.source line
    -- the line is shown whether or not it completes the input
    if console.echoesLines then console.showText line
    match needsMore setting source with
    | .error fault => throw fault
    | .ok true => return ({ console with pending := source, prompt := secondaryPrompt }, false)
    | .ok false =>
      console.evaluate setting source
      -- the prompt that follows tells the new number
      return ({ console with count := console.count + 1 }.reset, false)

/-- Gives up the unfinished input. -/
def interrupt (console : Console) : Action Console := do
  printLine "^C"
  return console.reset

/-- What happens to a console: a line is typed, or the typing is interrupted. -/
inductive Event where
  | line (text : List Char)
  | interrupt

/-- Writes the prompt. -/
def writePrompt (console : Console) : Action Unit :=
  modify fun s => { s with printed := ⟨.console, console.prompt⟩ :: s.printed }

/-- How a session ends: the console as it was left, and the fault that broke the session off, if
one did. -/
structure Ending where
  console : Console
  fault? : Option Fault

/-- Runs the console over events, with a prompt before each line, until it ends, or the events do,
or a line leads to a fault; the end of the events ends the console as the line `EOF` does. -/
def runEvents (setting : Setting) (console : Console) : List Event → Action Ending
  | [] => do
    console.writePrompt
    return ⟨(← console.feed setting "EOF".toList).1, none⟩
  | event :: rest => do
    console.writePrompt
    match event with
    | .interrupt => runEvents setting (← console.interrupt) rest
    | .line text =>
      match ← Action.attempt (console.feed setting text) with
      | .error fault => return ⟨console, some fault⟩
      | .ok (next, true) => return ⟨next, none⟩
      | .ok (next, false) => runEvents setting next rest

/-- A whole session: the greeting and then the events. -/
def run (setting : Setting) (console : Console) (events : List Event) : Action Ending := do
  printLine intro
  console.runEvents setting events

end Console

end SmallLisp
