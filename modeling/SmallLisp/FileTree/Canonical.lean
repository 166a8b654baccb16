import SmallLisp.FileTree.Walk

/-! # The one place that a path names

Strict following goes through links without a limit and wants everything on the way to be there.
The place reached so far is always known in full, so a component `..` takes off its last name,
whatever is there, and the length of a name counts with that of the place.

A link that is met again while it is being followed leads nowhere.  Then it matters why: as a rule
it leads back to itself, but where opening it fails earlier, at a file that stands in for a
directory, that is the reason.
-/
namespace SmallLisp.FileTree

/-- How many links a tree holds. -/
def linkCount (tree : FileTree) : Nat :=
  tree.entries.entries.countP fun e => e.2 matches .link _

/-- Looks a name up at a place whose names count towards the length of the path. -/
def lookUpInFull (tree : FileTree) (place : Location) (name : String) : Except PathFault Node :=
  if name.toList.contains '\x00' then .error .null
  else if pathLimit < (Path.ofLocation (place ++ [name])).text.utf8ByteSize then
    .error (.file .nameTooLong)
  else tree.lookUp place name

theorem lookUp_of_lookUpInFull {tree : FileTree} {place : Location} {name : String} {node : Node}
    (h : tree.lookUpInFull place name = .ok node) : tree.lookUp place name = .ok node := by
  unfold lookUpInFull at h
  split at h
  · cases h
  · split at h
    · cases h
    · exact h

/-- Why a link cannot be followed that is met again while it is being followed. -/
def loopFault (tree : FileTree) (place : Location) (name : String) : PathFault :=
  match tree.walkFrom linkLimit place [name] with
  | .ok _ | .error (.file .tooManyLinks) => .loop (place ++ [name])
  | .error e => e

/-- Follows names from a place where no link is left, through links, to a place where no link is
left.  `following` are the links that are being followed at the moment, and `budget` is how many
more may be followed inside one another; running out of it means that one was met again. -/
def canonicalFrom (tree : FileTree) (budget : Nat) (following : List Location)
    (place : Location) : List String → Except PathFault Location
  | [] => .ok place
  | name :: rest =>
    if name = ".." then canonicalFrom tree budget following place.dropLast rest
    else
      match tree.lookUpInFull place name with
      | .error e => .error e
      | .ok (.link text) =>
        let link := place ++ [name]
        let target := Path.ofString text
        if following.contains link then .error (tree.loopFault place name)
        else
          match budget with
          | 0 => .error (.loop link)
          | budget + 1 =>
            match canonicalFrom tree budget (link :: following) (origin place target)
              target.parts with
            | .error e => .error e
            -- behind the link it may be met again: it is no longer being followed
            | .ok there => canonicalFrom tree (budget + 1) following there rest
      | .ok _ => canonicalFrom tree budget following (place ++ [name]) rest
termination_by names => (budget, names.length)

/-- The one place that a path names, starting from a place. -/
def canonical (tree : FileTree) (place : Location) (path : Path) : Except PathFault Location :=
  tree.canonicalFrom tree.linkCount [] (origin place path) path.parts

end SmallLisp.FileTree
