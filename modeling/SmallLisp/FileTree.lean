import SmallLisp.Error
import SmallLisp.Path
import SmallLisp.Table

/-! # Files

A file tree is what can be found under each place: a file with its bytes, a directory, or a
symbolic link.  A place is given by the names that lead to it from the root, none of which is a
link.  This module has the tree, the look-up of one name, and the changes of the tree.

There are two ways to follow a path.  `FileTree.walk` is how a file is opened: what a name is
looked up in must be a directory, and only so many links are followed.  `FileTree.canonical` finds
the one place that a path names, whatever links it goes through, and is strict: everything on the
way must be there.
-/
namespace SmallLisp

/-- The names that lead to a place from the root. -/
abbrev Location := List String

/-- What is found at a place. -/
inductive Node where
  | file (bytes : List UInt8)
  | directory
  /-- A symbolic link with the text of its target. -/
  | link (target : String)
  deriving DecidableEq, Repr

/-- What is found under each place.  The root is a directory in every tree. -/
structure FileTree where
  entries : Table Location Node

/-- Why a path leads nowhere. -/
inductive PathFault where
  | file (e : FileError)
  /-- A name has the character U+0000 in it. -/
  | null
  /-- A link leads back to itself. -/
  | loop (link : Location)
  deriving DecidableEq, Repr

namespace FileTree

/-- The tree that holds nothing but its root. -/
def empty : FileTree := ⟨Table.empty⟩

/-- What is found at a place. -/
def node? (tree : FileTree) (place : Location) : Option Node :=
  if place = [] then some .directory else tree.entries.get? place

/-- What stands at a place other than the root is an entry of the tree. -/
theorem mem_entries_of_node? {tree : FileTree} {place : Location} {node : Node}
    (h : tree.node? place = some node) :
    place = [] ∨ (place, node) ∈ tree.entries.entries := by
  unfold node? at h
  split at h
  next hroot => exact .inl hroot
  next => exact .inr (Table.mem_of_get? h)

/-- The greatest number of bytes in a name. -/
def nameLimit : Nat := 255

/-- The greatest number of bytes in the text of a path that is opened. -/
def pathLimit : Nat := 4095

/-- Looks a name up at a place. -/
def lookUp (tree : FileTree) (place : Location) (name : String) : Except PathFault Node :=
  if name.toList.contains '\x00' then .error .null
  else
    match tree.node? place with
    | none => .error (.file .missing)
    | some .directory =>
      if nameLimit < name.utf8ByteSize then .error (.file .nameTooLong)
      else
        match tree.node? (place ++ [name]) with
        | none => .error (.file .missing)
        | some node => .ok node
    | some _ => .error (.file .notADirectory)

/-- What is found by a name is what stands there. -/
theorem node?_of_lookUp {tree : FileTree} {place : Location} {name : String} {node : Node}
    (h : tree.lookUp place name = .ok node) : tree.node? (place ++ [name]) = some node := by
  unfold lookUp at h
  split at h
  · cases h
  · split at h
    · cases h
    · split at h
      · cases h
      · split at h
        · cases h
        next found hfound =>
          cases h
          exact hfound
    · cases h

/-- Where a path starts that is followed at a place. -/
def origin (place : Location) (path : Path) : Location :=
  if path.isAbsolute then [] else place

/-! ## Changing the tree -/

/-- Puts something at a place. -/
def put (tree : FileTree) (place : Location) (node : Node) : FileTree :=
  if place = [] then tree else ⟨tree.entries.insert place node⟩

/-- Puts a directory at every beginning of a place where there is nothing. -/
def makeDirectories (tree : FileTree) (place : Location) : FileTree :=
  (List.range (place.length + 1)).foldl
    (fun tree n =>
      match tree.node? (place.take n) with
      | none => tree.put (place.take n) .directory
      | some _ => tree)
    tree

/-- Removes a place and everything below it. -/
def remove (tree : FileTree) (place : Location) : FileTree :=
  ⟨⟨tree.entries.entries.filter fun e => !place.isPrefixOf e.1⟩⟩

theorem node?_put (tree : FileTree) {place : Location} (other : Location) (node : Node)
    (h : place ≠ []) :
    (tree.put place node).node? other = if place = other then some node else tree.node? other := by
  simp only [put, h, if_false, node?]
  by_cases ho : other = []
  · subst ho; simp [h]
  · simp [ho]

end FileTree

end SmallLisp
