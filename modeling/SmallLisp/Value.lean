import SmallLisp.Native

/-! # Values

Code and data are the same values: what the reader makes of a text can be evaluated, and what
evaluation gives can be data.  A function and a module refer to a scope, which lives in a heap
and is named here by its number, so that everyone who holds the number sees later changes.
-/
namespace SmallLisp

/-- The number of a scope's frame in the heap. -/
abbrev FrameId := Nat

/-- A module: the name that makes it out, and the frame that its code ran in. -/
structure Module where
  name : String
  scope : FrameId
  deriving DecidableEq, Repr

/-- The values of the language. -/
inductive Value where
  | nil
  | bool (b : Bool)
  | num (x : Float)
  | str (s : String)
  | sym (name : String)
  | list (items : List Value)
  /-- A function with the scope in which it was made. -/
  | fn (params : List String) (body : Value) (scope : FrameId)
  | native (f : Native)
  | module (m : Module)

instance : Inhabited Value := ⟨.nil⟩

namespace Value

/-- Only `false` and `nil` count as untrue. -/
def isTruthy : Value → Bool
  | nil | bool false => false
  | _ => true

/-- The list `(quote v)`. -/
def quoted (v : Value) : Value :=
  .list [.sym "quote", v]

/-- The module that a value is. -/
def module? : Value → Option Module
  | module m => some m
  | _ => none

end Value

/-- The two parts of a name `module/member`, cut at the first slash; `none` unless both have
characters. -/
def splitQualified (name : String) : Option (String × String) :=
  let cs := name.toList
  let first := cs.takeWhile (· != '/')
  match cs.dropWhile (· != '/') with
  | _ :: second =>
    if first = [] ∨ second = [] then none
    else some (String.ofList first, String.ofList second)
  | [] => none

/-- A name that splits is its two parts with a slash between them. -/
theorem eq_of_splitQualified {name first second : String}
    (h : splitQualified name = some (first, second)) :
    name.toList = first.toList ++ '/' :: second.toList := by
  simp only [splitQualified] at h
  split at h
  · next c rest hd =>
    split at h
    · simp at h
    · simp only [Option.some.injEq, Prod.mk.injEq] at h
      obtain ⟨rfl, rfl⟩ := h
      have hc : c = '/' := by
        have := List.head?_dropWhile_not (p := (· != '/')) (l := name.toList)
        simp only [hd] at this
        simpa using this
      subst hc
      rw [String.toList_ofList, String.toList_ofList, ← hd, List.takeWhile_append_dropWhile]
  · simp at h

end SmallLisp
