import SmallLisp.Evaluation

/-! # Interpreters

An interpreter is an outermost scope in which texts are evaluated one after the other.  Several
interpreters may share a heap and a registry of modules.
-/
namespace SmallLisp

/-- An interpreter: its outermost scope, and whether it gives expressions back unevaluated. -/
structure Interpreter where
  scope : FrameId
  echoes : Bool
  deriving DecidableEq, Repr

namespace Interpreter

variable (setting : Setting)

/-- How an interpreter evaluates an expression. -/
def evaluator (interpreter : Interpreter) : Evaluator :=
  if interpreter.echoes then Evaluation.echo else Evaluation.evaluate setting

/-- Evaluates an expression. -/
def evalExpr (interpreter : Interpreter) (expr : Value) : Action Value :=
  interpreter.evaluator setting expr interpreter.scope

/-- Evaluates a text and gives the value of its last expression. -/
def eval (interpreter : Interpreter) (text : List Char) : Action Value :=
  Evaluation.evaluateText setting (interpreter.evaluator setting) interpreter.scope text

/-- Calls a value with arguments. -/
def call (interpreter : Interpreter) (f : Value) (args : List Value) : Action Value :=
  Evaluation.call setting.writingLimit (interpreter.evaluator setting) f args

/-- A new interpreter, which has evaluated a text of its own first. -/
def new (echoes : Bool) (preamble : List Char) : Action Interpreter := do
  let interpreter : Interpreter := ⟨← Action.newPrelude, echoes⟩
  discard <| interpreter.eval setting preamble
  return interpreter

end Interpreter

/-- The limits under which programs run: nearly a thousand brackets inside one another in a text, as
many levels of evaluation, and about a third as many lists inside one another that can be written.
They stand for a stack of a thousand calls, of which some are in use when a program begins. -/
def Setting.standard (files : FileTree) (here : WorkingDirectory) : Setting :=
  { files, here, depthLimit := 980, nestingLimit := 985, writingLimit := 325, keepsModules := true }

end SmallLisp
