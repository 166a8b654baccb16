import SmallLisp.Text.Pieces

/-! # Paths

A path is kept without repeated slashes, without `.` components and without a slash at its end,
so that paths which differ only there are the same path.  Components `..` stay: what they mean
depends on the files.  A path may start at the root, which is written with one slash or, as a
root of its own, with exactly two.
-/
namespace SmallLisp

/-- Where a path starts. -/
inductive Anchor where
  /-- At the working directory. -/
  | here
  | root
  /-- At the root that is written `//`. -/
  | doubleRoot
  deriving DecidableEq, Repr

/-- A path: where it starts and the components that lead on from there. -/
structure Path where
  anchor : Anchor
  parts : List String
  deriving DecidableEq, Repr

namespace Path

/-- The components of a path's text: no empty ones and no `.`. -/
def components (s : List Char) : List String :=
  ((Text.pieces '/' s).filter fun part => part ≠ [] ∧ part ≠ ['.']).map String.ofList

/-- Where a path's text starts. -/
def anchorOf : List Char → Anchor
  | '/' :: '/' :: '/' :: _ => .root
  | '/' :: '/' :: _ => .doubleRoot
  | '/' :: _ => .root
  | _ => .here

/-- The path that a text names. -/
def ofString (s : String) : Path :=
  ⟨anchorOf s.toList, components s.toList⟩

/-- The text of a path; the path without components is written `.`. -/
def text (p : Path) : String :=
  let tail := "/".intercalate p.parts
  match p.anchor with
  | .here => if p.parts.isEmpty then "." else tail
  | .root => "/" ++ tail
  | .doubleRoot => "//" ++ tail

/-- Whether a path starts at a root. -/
def isAbsolute (p : Path) : Bool :=
  p.anchor != .here

/-- Whether a path has the character U+0000 in it, which no name has. -/
def hasNull (p : Path) : Bool :=
  p.parts.any fun part => part.toList.contains '\x00'

/-- The path that leads on from a directory. -/
def join (directory p : Path) : Path :=
  if p.isAbsolute then p else ⟨directory.anchor, directory.parts ++ p.parts⟩

/-- A path with one more component. -/
def child (p : Path) (name : String) : Path :=
  ⟨p.anchor, p.parts ++ [name]⟩

/-- A path without its last component. -/
def parent (p : Path) : Path :=
  ⟨p.anchor, p.parts.dropLast⟩

/-- The absolute path with the given components. -/
def ofLocation (parts : List String) : Path :=
  ⟨.root, parts⟩

theorem join_of_isAbsolute {directory p : Path} (h : p.isAbsolute = true) :
    directory.join p = p := by
  simp [join, h]

/-- No component is empty or the single point. -/
theorem components_plain {s : List Char} {part : String} (h : part ∈ components s) :
    part.toList ≠ [] ∧ part.toList ≠ ['.'] := by
  obtain ⟨piece, hp, rfl⟩ := List.mem_map.1 h
  have := (List.mem_filter.1 hp).2
  simpa using this

end Path

end SmallLisp
