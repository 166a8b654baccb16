import SmallLisp.Native.Arithmetic
import SmallLisp.Native.Lists
import SmallLisp.Native.Strings
import SmallLisp.Scope
import SmallLisp.Script
import SmallLisp.Store

/-! # Evaluation

`step` says what evaluating an expression does, given evaluators for the expressions inside it.
`eval` closes the circle: with no level left it gives up, and else it is a step whose inner
evaluations have fewer levels.  How many fewer depends on what is evaluated: the head of a call
is on the next level, its arguments and the parts of a special form are one level further down,
the body of a called function two, and the expressions of a required module four.

Every other part is written over the inner evaluator, so that loading a module, calling a function
and evaluating a branch all count as going deeper.
-/
namespace SmallLisp

/-- Evaluates an expression in a scope. -/
abbrev Evaluator := Value → FrameId → Action Value

namespace Evaluation

/-- The evaluator that gives back every expression as it is. -/
def echo : Evaluator := fun expr _ => pure expr

/-! ## Calls -/

/-- What a native function does where so many lists inside one another can be written: log functions
print a line and give it back, the others only compute. -/
def callNative (limit : Nat) (f : Native) (args : List Value) : Action Value :=
  match f with
  | .arithmetic g => .ofExcept (g.apply limit args)
  | .string g => .ofExcept (g.apply limit args)
  | .list g => .ofExcept (g.apply limit args)
  | .log g => do
    unless args.all (Value.isWritable limit) do throw .tooDeep
    let line := String.ofList (Text.join [' '] (Value.writeAll id args))
    .printLine (match g with | .info => .output | .error => .error) line
    return .str line
  | .idle _ => pure .nil

/-- Calls a value with evaluated arguments.  A function's body runs in a new frame inside the
scope in which the function was made. -/
def call (limit : Nat) (eval : Evaluator) (f : Value) (args : List Value) : Action Value :=
  match f with
  | .fn params body scope => do
    if args.length ≠ params.length then
      throw (.lisp (.wrongArity (.function params.length) args.length))
    let frame ← Action.newFrame (some scope) (Table.empty.insertAll (params.zip args))
    eval body frame
  | .native g => callNative limit g args
  | v => throw (.notAFunction limit v)

/-- Evaluates expressions from left to right. -/
def evalEach (eval : Evaluator) (scope : FrameId) : List Value → Action (List Value)
  | [] => pure []
  | expr :: rest => do
    let v ← eval expr scope
    let vs ← evalEach eval scope rest
    return v :: vs

/-! ## Modules -/

/-- Evaluates expressions one after the other; the value is that of the last, or `last` if there
are none. -/
def evalForms (eval : Evaluator) (scope : FrameId) (last : Value) : List Value → Action Value
  | [] => pure last
  | form :: rest => do
    let v ← eval form scope
    evalForms eval scope v rest

/-- The fault of a text whose reading stopped. -/
def stopFault : ReadingStop → Fault
  | .malformed e => .lisp (.malformed e)
  | .tooDeep => .tooDeep

/-- Evaluates a script; what stopped the reading stops the evaluation after the expressions
before. -/
def runScript (eval : Evaluator) (scope : FrameId) (script : Script) : Action Value := do
  let v ← evalForms eval scope .nil script.forms
  match script.stop? with
  | none => return v
  | some stop => throw (stopFault stop)

/-- Evaluates the script of a module.  Its errors become failures of the module, and a text that
cannot be read is such an error. -/
def runModule (eval : Evaluator) (path : Path) (scope : FrameId) (script : Script) :
    Action Unit :=
  .within path do
    discard <| evalForms eval scope .nil script.forms
    -- only now does it matter that the rest could not be read
    match script.stop? with
    | none => return ()
    | some (.malformed e) => throw (.lisp (.malformedModule path e))
    | some .tooDeep => throw .tooDeep

/-- The suffix of module files. -/
def moduleSuffix : String := ".lisp"

/-- The path that a specifier names, before links are followed: it ends in the suffix of module
files and is taken from the working directory. -/
def candidatePath (setting : Setting) (specifier : String) : Except Fault Path :=
  let hasSuffix := moduleSuffix.toList.isSuffixOf specifier.toList
  let path := Path.ofString (if hasSuffix then specifier else specifier ++ moduleSuffix)
  match path.isAbsolute, setting.here.place? with
  | true, _ => .ok path
  | false, some here => .ok ((Path.ofLocation here).join path)
  | false, none => .error (.lisp (.unreachableModule path .missing))

/-- The fault that a module's file cannot be reached or read. -/
def pathFault (path : Path) : PathFault → Fault
  | .file e => .lisp (.unreachableModule path e)
  | .null => .nullInPath
  | .loop link => .linkLoop (Path.ofLocation link)

/-- The canonical path of the file that a specifier names. -/
def modulePath (setting : Setting) (specifier : String) : Except Fault Path := do
  let path ← candidatePath setting specifier
  match setting.files.canonical [] path with
  | .ok place => return Path.ofLocation place
  | .error (.file .missing) => throw (.lisp (.moduleNotFound path))
  | .error e => throw (pathFault path e)

/-- The module at a path.  A module that is kept is given as it is; a path that is being loaded is
refused; else the file is evaluated in a new scope with the prelude, and if that goes well the
module is kept. -/
def load (setting : Setting) (eval : Evaluator) (path : Path) : Action Module := do
  let store ← get
  match if setting.keepsModules then store.registry.get? path else none with
  | some m => return m
  | none =>
    if store.registry.isLoading path then
      throw (.lisp (.failedModule path (.circularRequire path)))
    -- the file is read first: a path whose file cannot be read never counts as being loaded
    match setting.files.readText setting.here path with
    | .error e => throw (pathFault path e)
    | .ok text =>
      let scope ← Action.newPrelude
      let script := Script.ofText setting.nestingLimit (Text.trimStart text)
      Action.whileLoading path (runModule eval path scope script)
      let m : Module := ⟨path.text, scope⟩
      if setting.keepsModules then
        modify fun s => { s with registry := s.registry.insert path m }
      return m

/-- The module that a specifier means: the one bound under that name, else the one in the file it
names. -/
def require (setting : Setting) (eval : Evaluator) (scope : FrameId) (specifier : String) :
    Action Module := do
  -- the specifier is one name here, whatever slashes are in it
  match ((← get).heap.get? scope specifier).bind Value.module? with
  | some m => return m
  | none =>
    match modulePath setting specifier with
    | .ok path => load setting eval path
    | .error fault => throw fault

/-! ## Special forms -/

/-- The names in a list of parameters. -/
def parameters (limit : Nat) : List Value → Except Fault (List String)
  | [] => .ok []
  | .sym name :: rest =>
    if SpecialForm.isKeyword name then .error (.lisp (.reservedKeyword name))
    else do return name :: (← parameters limit rest)
  | v :: _ => .error (.wrongType limit .symbol v)

/-- Evaluates a special form; the expressions of a module that it requires are evaluated by an
evaluator of their own. -/
def evalForm (setting : Setting) (eval evalModule : Evaluator) (scope : FrameId) :
    SpecialForm → List Value → Action Value
  | .quote, [v] => pure v
  | .define, [target, expr] =>
    match target with
    | .sym name => do
      -- a keyword is refused before the value is evaluated
      if SpecialForm.isKeyword name then throw (.lisp (.reservedKeyword name))
      let v ← eval expr scope
      Action.define scope name v
      return v
    | v => throw (.wrongType setting.writingLimit .symbol v)
  | .lambda, [params, body] =>
    match params with
    | .list ps => do
      let names ← Action.ofExcept (parameters setting.writingLimit ps)
      return .fn names body scope
    | v => throw (.wrongType setting.writingLimit .parameterList v)
  | .conditional, [condition, consequence] => do
    if (← eval condition scope).isTruthy then eval consequence scope else return .nil
  | .conditional, [condition, consequence, alternative] => do
    if (← eval condition scope).isTruthy then eval consequence scope else eval alternative scope
  | .require, [expr] => do
    match ← eval expr scope with
    | .sym name | .str name => return .module (← require setting evalModule scope name)
    | v => throw (.wrongType setting.writingLimit .modulePath v)
  | form, args => throw (.lisp (.wrongArity (.form form) args.length))

/-! ## The evaluator -/

/-- The value at the head of a call. -/
def evalHead (eval : Evaluator) (scope : FrameId) : Value → Action Value
  | .sym name => do Action.ofChecked (Scope.resolveHead (← get).heap scope name)
  | expr => eval expr scope

/-- Evaluates a call: the head, then the arguments, then the call itself.  The evaluators are those
of the levels further down. -/
def evalCall (limit : Nat) (below : Nat → Evaluator) (scope : FrameId) (head : Value)
    (args : List Value) : Action Value := do
  let f ← evalHead (below 0) scope head
  let vs ← evalEach (below 1) scope args
  call limit (below 2) f vs

/-- What evaluating an expression does, given the evaluators of the levels further down. -/
def step (setting : Setting) (below : Nat → Evaluator) : Evaluator := fun expr scope =>
  match expr with
  | .sym name => do Action.ofChecked (Scope.resolve (← get).heap scope name)
  | .list (.sym word :: args) =>
    match SpecialForm.ofKeyword? word with
    | some form => evalForm setting (below 1) (below 4) scope form args
    | none => evalCall setting.writingLimit below scope (.sym word) args
  | .list (head :: args) => evalCall setting.writingLimit below scope head args
  | v => pure v

/-- Evaluates on so many levels, of which some are passed over at first. -/
def evalBelow (setting : Setting) : (levels skipped : Nat) → Evaluator
  | 0, _ => fun _ _ => throw .tooDeep
  | levels + 1, 0 => step setting (evalBelow setting levels)
  | levels + 1, skipped + 1 => evalBelow setting levels skipped

/-- Evaluates on so many levels. -/
def eval (setting : Setting) (levels : Nat) : Evaluator :=
  evalBelow setting levels 0

/-- To pass over levels is to have so many fewer. -/
theorem evalBelow_eq (setting : Setting) (levels skipped : Nat) :
    evalBelow setting levels skipped = eval setting (levels - skipped) := by
  induction levels generalizing skipped with
  | zero => simp [eval, evalBelow]
  | succ levels ih =>
    cases skipped with
    | zero => rfl
    | succ skipped => rw [evalBelow, ih, Nat.add_sub_add_right]

/-- An evaluation is a step whose inner evaluations have fewer levels. -/
theorem eval_succ (setting : Setting) (levels : Nat) :
    eval setting (levels + 1) = step setting fun skipped => eval setting (levels - skipped) := by
  rw [eval, evalBelow]
  exact congrArg _ (funext fun skipped => evalBelow_eq setting levels skipped)

/-- Evaluates within the limit of a setting. -/
def evaluate (setting : Setting) : Evaluator :=
  eval setting setting.depthLimit

/-- Evaluates every expression of a text and gives the value of the last. -/
def evaluateText (setting : Setting) (eval : Evaluator) (scope : FrameId) (text : List Char) :
    Action Value :=
  runScript eval scope (Script.ofText setting.nestingLimit text)

end Evaluation

end SmallLisp
