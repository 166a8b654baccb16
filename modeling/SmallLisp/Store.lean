import SmallLisp.Heap
import SmallLisp.Prelude
import SmallLisp.Registry
import SmallLisp.FileTree.Canonical

/-! # The state of a run

A run changes three things: the heap of scopes, the registry of modules and what was printed.
An action on them ends with a value or with a fault, and its changes are kept in both cases.
What does not change during an evaluation is the `Setting`: the files, the working directory and
the limits.
-/
namespace SmallLisp

/-- Where a line is printed. -/
inductive Channel where
  /-- The console's own text. -/
  | console
  | output
  | error
  deriving DecidableEq, Repr

/-- A piece of printed text. -/
structure Printed where
  channel : Channel
  text : String
  deriving DecidableEq, Repr

/-- The state of a run; what was printed stands with the last piece first. -/
structure Store where
  heap : Heap
  registry : Registry
  printed : List Printed

/-- What stays the same during an evaluation. -/
structure Setting where
  files : FileTree
  here : WorkingDirectory
  /-- On how many levels evaluations may be inside one another. -/
  depthLimit : Nat
  /-- How many brackets and quotes may be inside one another in a text. -/
  nestingLimit : Nat
  /-- How many lists inside one another can be written where a value is made into a text. -/
  writingLimit : Nat
  /-- Whether a loaded module is kept for later; otherwise every `require` loads its file anew. -/
  keepsModules : Bool

/-- A step that changes the state and ends with a value or a fault. -/
abbrev Action (α : Type) := ExceptT Fault (StateM Store) α

namespace Store

/-- The state at the start: no scopes, no modules, nothing printed. -/
def initial : Store := ⟨Heap.empty, Registry.empty, []⟩

end Store

namespace Action

/-- Ends with the value of a computation or with its fault. -/
def ofExcept {α : Type} : Except Fault α → Action α
  | .ok a => pure a
  | .error fault => throw fault

/-- Ends with the value of a computation or with its error. -/
def ofChecked {α : Type} (result : Except LispError α) : Action α :=
  ofExcept (result.mapError .lisp)

/-- Prints a line. -/
def printLine (channel : Channel) (line : String) : Action Unit :=
  modify fun s => { s with printed := ⟨channel, line ++ "\n"⟩ :: s.printed }

/-- Makes a new frame and gives its number. -/
def newFrame (outer? : Option FrameId) (bindings : Table String Value) : Action FrameId := do
  let id := (← get).heap.size
  modify fun s => { s with heap := s.heap.alloc outer? bindings }
  return id

/-- Makes a new outermost scope with the prelude and gives its number. -/
def newPrelude : Action FrameId := do
  let root := Prelude.rootOf (← get).heap
  modify fun s => { s with heap := Prelude.install s.heap }
  return root

/-- Binds a name in a frame. -/
def define (frame : FrameId) (name : String) (value : Value) : Action Unit :=
  modify fun s => { s with heap := s.heap.define frame name value }

/-- Does an action and gives its value or its fault. -/
def attempt {α : Type} (action : Action α) : Action (Except Fault α) :=
  fun s =>
    let (result, after) := action.run s
    (.ok result, after)

/-- Does an action while a path counts as being loaded; afterwards it does no longer, whatever
came of the action. -/
def whileLoading {α : Type} (path : Path) (action : Action α) : Action α :=
  fun s =>
    let (result, after) := action.run { s with registry := s.registry.beginLoad path }
    (result, { after with registry := after.registry.endLoad path })

/-- An action whose errors are wrapped as failures of a module; other faults pass. -/
def within {α : Type} (path : Path) (action : Action α) : Action α :=
  fun s =>
    match action.run s with
    | (.error (.lisp e), after) => (.error (.lisp (.failedModule path e)), after)
    | answer => answer

end Action

end SmallLisp
