import SmallLisp.Path
import SmallLisp.Table
import SmallLisp.Value

/-! # The registry of modules

The registry keeps the modules that were loaded, each under the path of its file, in the order of
loading.  It also knows which paths are being loaded at the moment, so that a module that requires
itself, directly or through others, is noticed.
-/
namespace SmallLisp

/-- The loaded modules and the paths being loaded. -/
structure Registry where
  loaded : Table Path Module
  loading : List Path

namespace Registry

/-- The registry that knows nothing. -/
def empty : Registry := ⟨Table.empty, []⟩

/-- The module loaded from a path. -/
def get? (r : Registry) (path : Path) : Option Module := r.loaded.get? path

/-- Keeps a module under a path. -/
def insert (r : Registry) (path : Path) (m : Module) : Registry :=
  { r with loaded := r.loaded.insert path m }

/-- Forgets the module under a path. -/
def remove (r : Registry) (path : Path) : Registry :=
  { r with loaded := r.loaded.erase path }

/-- Whether a path is being loaded. -/
def isLoading (r : Registry) (path : Path) : Bool := r.loading.contains path

/-- Notes that the loading of a path begins. -/
def beginLoad (r : Registry) (path : Path) : Registry :=
  if r.isLoading path then r else { r with loading := path :: r.loading }

/-- Notes that the loading of a path has ended. -/
def endLoad (r : Registry) (path : Path) : Registry :=
  { r with loading := r.loading.filter (· ≠ path) }

/-- The paths of the loaded modules in the order in which they were first kept. -/
def paths (r : Registry) : List Path := r.loaded.keys

@[simp] theorem get?_insert (r : Registry) (path other : Path) (m : Module) :
    (r.insert path m).get? other = if path = other then some m else r.get? other :=
  Table.get?_insert _ _ _ _

@[simp] theorem isLoading_beginLoad (r : Registry) (path other : Path) :
    (r.beginLoad path).isLoading other = (decide (other = path) || r.isLoading other) := by
  unfold beginLoad
  split
  · next h =>
    by_cases ho : other = path
    · subst ho; simpa using h
    · simp [ho]
  · simp [isLoading, List.contains_eq_mem]

@[simp] theorem isLoading_endLoad (r : Registry) (path other : Path) :
    (r.endLoad path).isLoading other = (!decide (other = path) && r.isLoading other) := by
  simp [endLoad, isLoading, List.contains_eq_mem, Bool.and_comm]

/-- When the loading of a path ends that was not under way before, the registry is as before. -/
theorem endLoad_beginLoad {r : Registry} {path : Path} (h : r.isLoading path = false) :
    (r.beginLoad path).endLoad path = r := by
  have hn : path ∉ r.loading := by simpa [isLoading, List.contains_eq_mem] using h
  have hf : r.loading.filter (fun p => !decide (p = path)) = r.loading := by
    rw [List.filter_eq_self]
    intro p hp
    simp only [Bool.not_eq_eq_eq_not, Bool.not_true, decide_eq_false_iff_not]
    rintro rfl
    exact hn hp
  simp [beginLoad, h, endLoad, hf]

end Registry

end SmallLisp
