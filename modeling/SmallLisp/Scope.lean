import SmallLisp.Error
import SmallLisp.Heap

/-! # What names mean

A plain name means its nearest binding.  A qualified name `module/member` means a member of the
module that `module` is bound to; members are looked up in the module's own frame only.

At the head of a call a qualified name is looked up more generously: if the nearest binding of
`module` is not a module, the binding in the outermost scope is tried, so that a local variable
does not hide a built-in module of the same name from calls.
-/
namespace SmallLisp.Scope

/-- The value of a plain name. -/
def plain (h : Heap) (scope : FrameId) (name : String) : Except LispError Value :=
  match h.get? scope name with
  | some v => .ok v
  | none => .error (.undefinedSymbol name)

/-- The member of a module that goes by a name here. -/
def member (h : Heap) (m : Module) (moduleName name : String) : Except LispError Value :=
  match h.own? m.scope name with
  | some v => .ok v
  | none => .error (.memberNotFound moduleName name)

/-- The value of a symbol. -/
def resolve (h : Heap) (scope : FrameId) (name : String) : Except LispError Value :=
  match splitQualified name with
  | none => plain h scope name
  | some (moduleName, memberName) =>
    match h.get? scope moduleName with
    | none => .error (.undefinedSymbol moduleName)
    | some (.module m) => member h m moduleName memberName
    | some _ => .error (.notAModule moduleName)

/-- The value of a symbol at the head of a call. -/
def resolveHead (h : Heap) (scope : FrameId) (name : String) : Except LispError Value :=
  match splitQualified name with
  | none => plain h scope name
  | some (moduleName, memberName) =>
    let nearest := h.get? scope moduleName
    match nearest.bind Value.module? with
    | some m => member h m moduleName memberName
    | none =>
      let outermost := h.own? (h.root scope) moduleName
      match outermost.bind Value.module? with
      | some m => member h m moduleName memberName
      | none =>
        -- that a name means something else is told apart from that it means nothing
        if nearest.isSome || outermost.isSome then .error (.notAModule moduleName)
        else .error (.undefinedSymbol name)

end SmallLisp.Scope
