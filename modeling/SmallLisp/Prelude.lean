import SmallLisp.Heap

/-! # The prelude

Every interpreter and every module starts from the same bindings: four built-in modules, each in
a scope of its own, and the arithmetic functions under their symbols.
-/
namespace SmallLisp.Prelude

/-- The arithmetic functions under their symbols. -/
def operators : List (String × Native) :=
  [.add, .subtract, .multiply, .divide, .equal, .less, .greater, .atMost, .atLeast].map
    fun f : Arithmetic => (f.name, .arithmetic f)

/-- The string functions under their names. -/
def strings : List (String × Native) :=
  [.concat, .reverse, .length, .upper, .lower, .trim, .format].map
    fun f : StringFunction => (f.name, .string f)

/-- The list functions under their names. -/
def lists : List (String × Native) :=
  [.list, .cons, .car, .cdr, .length, .isEmpty].map
    fun f : ListFunction => (f.name, .list f)

/-- The log functions under their names. -/
def logs : List (String × Native) :=
  [.info, .error].map fun f : LogFunction => (f.name, .log f)

/-- The built-in modules with what they provide. -/
def builtins : List (String × List (String × Native)) :=
  [("math", operators), ("log", logs), ("string", strings), ("list", lists)]

/-- The native function that a built-in module provides under a name. -/
def native? (module name : String) : Option Native :=
  (Table.lookup module builtins).bind (Table.lookup name)

/-- Bindings of names to native functions. -/
def table (functions : List (String × Native)) : Table String Value :=
  Table.empty.insertAll (functions.map fun (name, f) => (name, .native f))

/-- The built-in modules, the first of them in the frame with the number `first`. -/
def moduleValues (first : FrameId) : List (String × List (String × Native)) →
    List (String × Value)
  | [] => []
  | (name, _) :: rest =>
    (name, .module ⟨"builtin:" ++ name, first⟩) :: moduleValues (first + 1) rest

/-- The bindings of a new outermost scope, with its built-in modules in the frames from `first`
on. -/
def bindings (first : FrameId) : Table String Value :=
  (Table.empty.insertAll (moduleValues first builtins)).insertAll
    (operators.map fun (name, f) => (name, .native f))

/-- Makes the scopes of the built-in modules and then an outermost scope with the prelude, which
is the last frame of the new heap. -/
def install (h : Heap) : Heap :=
  let withModules := builtins.foldl (fun h (_, functions) => h.alloc none (table functions)) h
  withModules.alloc none (bindings h.size)

/-- The number of the outermost scope that `install` makes. -/
def rootOf (h : Heap) : FrameId :=
  h.size + builtins.length

theorem size_install (h : Heap) : (install h).size = rootOf h + 1 := by
  simp [install, rootOf, builtins]

end SmallLisp.Prelude
