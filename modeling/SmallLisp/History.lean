import SmallLisp.FileTree.Walk
import SmallLisp.Text.Pieces
import SmallLisp.Text.Quoted

/-! # The history of the console

The history is a list of inputs, kept in a file with a line for each.  Only lines that end are
read, and a file that begins with a time has a line with a time before each entry.

A new history takes the place of the old one: it is written to a file beside it, which then gets
its name.  Where the path names a link it is the link's target that is replaced, but that target
is taken from the working directory, wherever the link is.  At last the file is cut down to its
last thousand lines.

A history that cannot be read or written is worth a warning.  Only a path that cannot even be
looked up, or an entry that cannot be kept, is an obstacle to everything else.
-/
namespace SmallLisp

/-- What came of reading or writing a history, and a warning if it failed. -/
structure History.Report (α : Type) where
  result : α
  warning? : Option String

namespace History

/-- What goes further than a warning. -/
inductive Obstacle where
  /-- A path that is too long to be looked up. -/
  | nameTooLong (path : Path)
  /-- A path with the character U+0000 in it. -/
  | nullInPath
  /-- An entry with the character U+0000 in it. -/
  | nullInEntry
  deriving DecidableEq, Repr

/-- The number by which the system knows a file error, and its words. -/
def errorText : FileError → String
  | .missing => "[Errno 2] " ++ FileError.missing.text
  | .notADirectory => "[Errno 20] " ++ FileError.notADirectory.text
  | .isADirectory => "[Errno 21] " ++ FileError.isADirectory.text
  | .alreadyExists => "[Errno 17] " ++ FileError.alreadyExists.text
  | .nameTooLong => "[Errno 36] " ++ FileError.nameTooLong.text
  | .tooManyLinks => "[Errno 40] " ++ FileError.tooManyLinks.text
  | .undecodable fault => fault.message

/-- What is told about an obstacle. -/
def Obstacle.message : Obstacle → String
  | nameTooLong path => errorText .nameTooLong ++ ": " ++ Text.quoted path.text
  | nullInPath => nullInPathMessage
  | nullInEntry => "embedded null character"

/-! ## Reading -/

/-- Whether a line holds a time. -/
def isTime : List Char → Bool
  | '#' :: c :: _ => c.isDigit
  | _ => false

/-- What a line holds: a return before its end belongs to the end, and behind the character U+0000
nothing counts. -/
def lineText (line : List Char) : List Char :=
  let line :=
    match line.reverse with
    | '\r' :: rest => rest.reverse
    | _ => line
  line.takeWhile (· != '\x00')

/-- The entries in the text of a history file.  Lines without text are no entries, and lines with
a time are none if the file begins with one. -/
def entriesOf (text : List Char) : List (List Char) :=
  let lines := (Text.pieces '\n' text).dropLast.map lineText
  lines.filter fun line => !line.isEmpty && !(isTime text && isTime line)

/-- The entries of the history file at a path; a file that is not there holds none. -/
def load (files : FileTree) (here : WorkingDirectory) (path : Path) :
    Except Obstacle (Report (List (List Char))) :=
  match files.walk here path with
  | .error (.file .nameTooLong) => .error (.nameTooLong path)
  | .error _ => .ok ⟨[], none⟩
  | .ok place =>
    match files.node? place with
    | some (.file bytes) =>
      match Text.decodeFrom 0 bytes with
      | .ok text => .ok ⟨entriesOf text, none⟩
      | .error _ => .ok ⟨[], none⟩
    | _ =>
      .ok ⟨[],
        some ("Could not read history from " ++ path.text ++ ": [Errno 22] Invalid argument")⟩

/-- A history with one more entry. -/
def add (entries : List (List Char)) (entry : List Char) : Except Obstacle (List (List Char)) :=
  if entry.contains '\x00' then .error .nullInEntry else .ok (entries ++ [entry])

/-! ## Directories -/

/-- Makes a directory in a directory that exists. -/
def makeOne (files : FileTree) (here : WorkingDirectory) (path : Path) :
    Except FileError FileTree :=
  match path.parts.getLast? with
  | none => .error .alreadyExists
  | some name =>
    if FileTree.pathLimit < path.text.utf8ByteSize then .error .nameTooLong
    else
      match files.walk here path.parent with
      | .error (.file e) => .error e
      | .error _ => .error .missing
      | .ok place =>
        match files.lookUp place name with
        | .error (.file .missing) =>
          -- the directory that a directory is in has no entry of its own
          if name = ".." then .error .alreadyExists
          else .ok (files.put (place ++ [name]) .directory)
        | .error (.file e) => .error e
        | .error _ => .error .missing
        | .ok _ => .error .alreadyExists

/-- Whether a path leads to a directory. -/
def isDirectory (files : FileTree) (here : WorkingDirectory) (path : Path) : Bool :=
  match files.walk here path with
  | .ok place => files.node? place == some .directory
  | .error _ => false

/-- Makes a directory unless it is there, and first, where they are missing, the directories it
is in; `levels` is how many of them may be made.  What fails is told with the path it failed
for. -/
def makeDirectory (files : FileTree) (here : WorkingDirectory) (path : Path) :
    (levels : Nat) → Except (FileError × Path) FileTree
  | 0 =>
    match makeOne files here path with
    | .ok files => .ok files
    | .error e => if isDirectory files here path then .ok files else .error (e, path)
  | levels + 1 =>
    match makeOne files here path with
    | .ok files => .ok files
    -- what is missing must be the directory it is in, which is made first
    | .error .missing =>
      match makeDirectory files here path.parent levels with
      | .error e => .error e
      | .ok files =>
        match makeOne files here path with
        | .ok files => .ok files
        | .error e => if isDirectory files here path then .ok files else .error (e, path)
    | .error e => if isDirectory files here path then .ok files else .error (e, path)

/-! ## Writing -/

/-- The text of a history file with the given entries. -/
def fileText (entries : List (List Char)) : List Char :=
  entries.flatMap fun entry => entry ++ ['\n']

/-- How many lines the file keeps. -/
def lineLimit : Nat := 1000

/-- What is left of a file that is cut down to its last lines, unless it keeps everything.  A
newline at the very beginning ends no line. -/
def lastLines? (bytes : List UInt8) : Option (List UInt8) :=
  let lines := Text.pieces newline (bytes.drop 1)
  if lineLimit + 1 < lines.length then
    some (Text.join [newline] (lines.drop (lines.length - 1 - lineLimit)))
  else none
where
  /-- The byte that ends a line. -/
  newline : UInt8 := 10

/-- What is added to the name of a file to get the name of the file that will replace it. -/
def replacementSuffix : String := "-00000.tmp"

/-- Replaces a file by another with the given bytes: what is replaced is the target of the link
that the path names, seen from the working directory, or else what the path names itself. -/
def replace (files : FileTree) (here : WorkingDirectory) (path : Path) (bytes : List UInt8) :
    Except PathFault FileTree := do
  let target := (files.linkTarget? here path).getD path
  let name := target.parts.getLastD ""
  -- the new file is made under a longer name, which may be too long
  let made ← files.destination here (target.parent.child (name ++ replacementSuffix))
  let place := made.dropLast ++ [name]
  if files.node? place = some .directory then throw (.file .isADirectory)
  return files.put place (.file bytes)

/-- Writes a file: one that is there is replaced, one that is not is made where the path leads. -/
def writeFile (files : FileTree) (here : WorkingDirectory) (path : Path) (bytes : List UInt8) :
    Except PathFault FileTree :=
  match files.read here path with
  | .ok _ => replace files here path bytes
  | .error _ => do return files.put (← files.destination here path) (.file bytes)

/-- Cuts a file down to its last lines, if it can be written. -/
def truncateFile (files : FileTree) (here : WorkingDirectory) (path : Path) : FileTree :=
  match files.read here path with
  | .error _ => files
  | .ok bytes =>
    match lastLines? bytes with
    | none => files
    | some left =>
      match replace files here path left with
      | .ok files => files
      | .error _ => files

/-- Writes entries to the history file at a path, with the directories that lead to it. -/
def save (files : FileTree) (here : WorkingDirectory) (path : Path)
    (entries : List (List Char)) : Except Obstacle (Report FileTree) :=
  let warning (reason : String) : Option String :=
    some ("Could not write history to " ++ path.text ++ ": " ++ reason)
  if path.hasNull then .error .nullInPath
  else
    match makeDirectory files here path.parent path.parts.length with
    | .error (e, directory) =>
      .ok ⟨files, warning (errorText e ++ ": " ++ Text.quoted directory.text)⟩
    | .ok files =>
      match writeFile files here path (String.ofList (fileText entries)).toUTF8.toList with
      | .ok files => .ok ⟨truncateFile files here path, none⟩
      | .error (.file e) => .ok ⟨files, warning (errorText e)⟩
      | .error _ => .error .nullInPath

end History

end SmallLisp
