import SmallLisp.FileTree

/-! # Opening files

To open a file its path is followed name by name.  What a name is looked up in must be a directory,
links are followed as they are met, and only so many of them.  A path that does not start at the
root starts at the working directory.

A working directory may be removed while it is in use.  Nothing is found in it any more, but the
component `..` still leads out of it, to a directory that may be there.

`walk` gives the place that a path leads to, `destination` the place where writing to it puts a
file.
-/
namespace SmallLisp

/-- A working directory: it is `lost` levels below a directory that is still there, and if there
are no such levels it is that directory. -/
structure WorkingDirectory where
  place : Location
  lost : Nat
  deriving DecidableEq, Repr

namespace WorkingDirectory

/-- The working directory at a place that is there. -/
def ofLocation (place : Location) : WorkingDirectory := ⟨place, 0⟩

/-- The place of a working directory unless it was removed. -/
def place? (here : WorkingDirectory) : Option Location :=
  if here.lost = 0 then some here.place else none

/-- The same working directory after a place was removed with everything below it. -/
def afterRemoval (here : WorkingDirectory) (removed : Location) : WorkingDirectory :=
  if removed.isPrefixOf here.place then
    let left := removed.dropLast
    ⟨left, here.lost + (here.place.length - left.length)⟩
  else here

/-- Where names that are followed from a directory, so many levels below a place, start and which
of them are left there. -/
def climb (place : Location) :
    (lost : Nat) → List String → Except PathFault (Location × List String)
  | 0, names => .ok (place, names)
  -- the directory itself can be opened, but it has no place
  | _ + 1, [] => .error (.file .isADirectory)
  | lost + 1, name :: rest =>
    if name = ".." then climb place lost rest else .error (.file .missing)

/-- Where a path that is opened starts, and the names that are followed from there. -/
def start (here : WorkingDirectory) (path : Path) : Except PathFault (Location × List String) :=
  if path.hasNull then .error .null
  else if FileTree.pathLimit < path.text.utf8ByteSize then .error (.file .nameTooLong)
  else if path.isAbsolute then .ok ([], path.parts)
  else climb here.place here.lost path.parts

end WorkingDirectory

namespace FileTree

/-- The greatest number of links that are followed when a path is opened. -/
def linkLimit : Nat := 40

/-- The components of a link's target as they are followed: an empty one, as behind a slash at the
end, asks for a directory and stays in it. -/
def targetComponents (text : String) : List String :=
  (Text.pieces '/' text.toList).map String.ofList

/-- Whether a component stays in the directory it is looked up in. -/
def stays (name : String) : Bool :=
  name == "" || name == "."

/-- Follows names as a file is opened, with the number of links that may still be followed. -/
def walkFrom (tree : FileTree) (links : Nat) (place : Location) :
    List String → Except PathFault Location
  | [] => .ok place
  | name :: rest =>
    if stays name ∨ name = ".." then
      match tree.node? place with
      | some .directory => walkFrom tree links (if stays name then place else place.dropLast) rest
      | some _ => .error (.file .notADirectory)
      | none => .error (.file .missing)
    else
      match tree.lookUp place name with
      | .error e => .error e
      | .ok (.link text) =>
        match links with
        | 0 => .error (.file .tooManyLinks)
        | links + 1 =>
          walkFrom tree links (origin place (Path.ofString text)) (targetComponents text ++ rest)
      | .ok _ => walkFrom tree links (place ++ [name]) rest
termination_by names => (links, names.length)

/-- The place that a path leads to when it is opened. -/
def walk (tree : FileTree) (here : WorkingDirectory) (path : Path) : Except PathFault Location := do
  let (place, names) ← here.start path
  tree.walkFrom linkLimit place names

/-- Follows names to where writing puts a file: the last name need not be there, and if it is a
link, the file is written where the link leads. -/
def destinationFrom (tree : FileTree) (links : Nat) (place : Location) (names : List String) :
    Except PathFault Location :=
  match names.reverse.dropWhile (· == "") with
  | [] => .error (.file .isADirectory)
  | name :: before =>
    match tree.walkFrom linkLimit place before.reverse with
    | .error e => .error e
    | .ok directory =>
      if tree.node? directory ≠ some .directory then .error (.file .notADirectory)
      -- only a directory is written with a slash or a point at its end
      else if stays name ∨ name = ".." ∨ names.getLast? = some "" then
        .error (.file .isADirectory)
      else
        match tree.lookUp directory name with
        | .ok .directory => .error (.file .isADirectory)
        | .ok (.file _) | .error (.file .missing) => .ok (directory ++ [name])
        | .error e => .error e
        | .ok (.link text) =>
          match links with
          | 0 => .error (.file .tooManyLinks)
          | links + 1 =>
            destinationFrom tree links (origin directory (Path.ofString text))
              (targetComponents text)

/-- The place where writing to a path puts a file. -/
def destination (tree : FileTree) (here : WorkingDirectory) (path : Path) :
    Except PathFault Location := do
  let (place, names) ← here.start path
  tree.destinationFrom linkLimit place names

/-- The target of the link that a path names, if it names a link. -/
def linkTarget? (tree : FileTree) (here : WorkingDirectory) (path : Path) : Option Path :=
  match path.parts.getLast?, tree.walk here path.parent with
  | some name, .ok place =>
    match tree.lookUp place name with
    | .ok (.link text) => some (.ofString text)
    | _ => none
  | _, _ => none

/-- The bytes of the file that a path leads to. -/
def read (tree : FileTree) (here : WorkingDirectory) (path : Path) :
    Except PathFault (List UInt8) := do
  match tree.node? (← tree.walk here path) with
  | some (.file bytes) => return bytes
  | some _ => throw (.file .isADirectory)
  | none => throw (.file .missing)

/-- The text of the file that a path leads to. -/
def readText (tree : FileTree) (here : WorkingDirectory) (path : Path) :
    Except PathFault (List Char) := do
  match Text.decode (← tree.read here path) with
  | .ok text => return text
  | .error fault => throw (.file (.undecodable fault))

end FileTree

end SmallLisp
