import SmallLisp.Heap
import SmallLisp.Text.Quoted
import SmallLisp.Value.Written

/-! # Values in listings of scopes

In the listing of a scope every value shows its kind: truth values are capitalised, strings and
names are quoted, and compound values are written with the name of what they are.  A scope that
binds a value with too many lists inside one another has no listing.
-/
namespace SmallLisp.Value

mutual

/-- A value as it stands in a listing. -/
def listing : Value → List Char
  | nil => "nil".toList
  | bool b => (if b then "True" else "False").toList
  | num x => Number.literal x
  | str s => (Text.quoted s).toList
  | sym name => "Symbol(".toList ++ (Text.quoted name).toList ++ [')']
  | list items => '[' :: Text.join [',', ' '] (listingAll items) ++ [']']
  | fn params body _ =>
    "Lambda(params=[".toList ++
      Text.join [',', ' '] (params.map fun p => (Text.quoted p).toList) ++
      "], body=".toList ++ listing body ++ [')']
  | native f => "NativeFunction(".toList ++ (Text.quoted f.name).toList ++ [')']
  | module m => "Module(".toList ++ (Text.quoted m.name).toList ++ [')']

/-- The values of a list as they stand in a listing. -/
def listingAll : List Value → List (List Char)
  | [] => []
  | v :: rest => listing v :: listingAll rest

end

/-- The listing of a frame: its bindings in their order, and a mark if there is a frame around
it. -/
def frameListing (h : Heap) (id : FrameId) : List Char :=
  let entries := (h.bindings id).entries.map fun (name, v) =>
    name.toList ++ ": ".toList ++ listing v
  '\x7b' :: Text.join [',', ' '] entries ++ ['\x7d'] ++
    (if (h.outer? id).isSome then " -> ...".toList else [])

/-- The listing of a frame if its values can be listed where so many lists inside one another
can. -/
def writeFrame (limit : Nat) (h : Heap) (id : FrameId) : Except Fault (List Char) :=
  if (h.bindings id).entries.all fun (_, v) => v.nesting ≤ limit then
    .ok (frameListing h id)
  else .error .tooDeep

end SmallLisp.Value
