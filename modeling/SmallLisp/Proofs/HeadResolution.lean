import SmallLisp.Proofs.Bindings

/-! # Names at the head of a call

A symbol means the same at the head of a call as by itself, wherever it means something by itself.
What the head of a call adds is one case: if the nearest binding of the name before the slash is no
module, a module that the outermost frame binds to it is taken.  There are five ways in which the two
resolutions of a name can go, side by side (`Scope.Resolution`), and they part in two of them
(`Scope.Differ`): where the name before the slash is bound nowhere they name different things as
undefined, and where it is hidden only the head of a call finds the outermost module.

What the frames between bind does not matter: a module bound there and hidden is never found.  In an
outermost frame there is nothing to fall back to.  All this is `Scope.resolveHead_extends`.
-/
namespace SmallLisp

namespace Heap
variable {h : Heap} {scope : FrameId} {name : String} {v : Value}

/-- The nearest frame of a scope that binds a name, and what it binds the name to. -/
structure Nearest (h : Heap) (scope : FrameId) (name : String) (f : FrameId) (v : Value) :
    Prop where
  own : h.own? f name = some v
  nearest : ∃ inner outer, h.chain scope = inner ++ f :: outer ∧ ∀ g ∈ inner, h.own? g name = none

/-- No frame of a scope binds a name. -/
def Unbound (h : Heap) (scope : FrameId) (name : String) : Prop :=
  ∀ f ∈ h.chain scope, h.own? f name = none

theorem get?_eq_some_iff : h.get? scope name = some v ↔ ∃ f, h.Nearest scope name f v := by
  rw [get?, List.findSome?_eq_some_iff]
  constructor
  · rintro ⟨inner, f, outer, hchain, hown, hinner⟩
    exact ⟨f, hown, inner, outer, hchain, hinner⟩
  · rintro ⟨f, hown, inner, outer, hchain, hinner⟩
    exact ⟨inner, f, outer, hchain, hown, hinner⟩

theorem get?_eq_none_iff : h.get? scope name = none ↔ h.Unbound scope name :=
  List.findSome?_eq_none_iff

/-- A frame that is not there binds nothing. -/
theorem own?_of_size_le (hid : h.size ≤ scope) (name : String) : h.own? scope name = none := by
  rw [own?_eq, (h.frames_eq_none_iff scope).2 hid, Option.bind_none]

/-- Where no frame binds a name, the outermost does not either. -/
theorem Unbound.root (hnone : h.Unbound scope name) : h.own? (h.root scope) name = none := by
  rcases List.mem_cons.1 (List.getLastD_mem_cons (l := h.chain scope) (a := scope)) with
    hself | hmem
  · have hroot : h.root scope = scope := hself
    rw [hroot]
    by_cases hscope : scope < h.size
    · refine hnone scope ?_
      rw [chain_eq, if_pos hscope]
      cases h.outer? scope <;> simp
    · exact own?_of_size_le (Nat.le_of_not_lt hscope) name
  · exact hnone _ hmem

/-- A scope without an outer frame is one frame at most. -/
theorem chain_of_outermost (houter : h.outer? scope = none) :
    h.root scope = scope ∧ ∀ f ∈ h.chain scope, f = scope := by
  rw [root, chain_eq, houter]
  by_cases hscope : scope < h.size
  · simp [hscope]
  · simp [hscope]

end Heap

namespace Scope
variable {h : Heap} {scope : FrameId} {name a b : String}

/-- What a name means by itself and at the head of a call, in each of the ways this can go. -/
inductive Resolution (h : Heap) (scope : FrameId) (name : String) :
    (byItself atHead : Except LispError Value) → Prop
  | plain (hname : splitQualified name = none) :
      Resolution h scope name (plain h scope name) (plain h scope name)
  /-- Nothing is bound to the name before the slash. -/
  | unbound {a b : String} (hname : splitQualified name = some (a, b))
      (hnone : h.Unbound scope a) :
      Resolution h scope name (.error (.undefinedSymbol a)) (.error (.undefinedSymbol name))
  /-- The nearest binding is a module. -/
  | found {a b : String} {f : FrameId} {m : Module} (hname : splitQualified name = some (a, b))
      (hnearest : h.Nearest scope a f (.module m)) :
      Resolution h scope name (member h m a b) (member h m a b)
  /-- The nearest binding hides a module in the outermost frame. -/
  | fallback {a b : String} {f : FrameId} {v : Value} {m : Module}
      (hname : splitQualified name = some (a, b)) (hnearest : h.Nearest scope a f v)
      (hv : v.module? = none) (hroot : h.own? (h.root scope) a = some (.module m)) :
      Resolution h scope name (.error (.notAModule a)) (member h m a b)
  /-- Neither the nearest nor the outermost binding is a module. -/
  | missed {a b : String} {f : FrameId} {v : Value} (hname : splitQualified name = some (a, b))
      (hnearest : h.Nearest scope a f v) (hv : v.module? = none)
      (hroot : ∀ m, h.own? (h.root scope) a ≠ some (.module m)) :
      Resolution h scope name (.error (.notAModule a)) (.error (.notAModule a))

theorem eq_module_of_module? {v : Value} {m : Module} (hv : v.module? = some m) :
    v = .module m := by
  cases v with
  | module m' => exact congrArg Value.module (Option.some.inj hv)
  | _ => cases hv

/-- Where the nearest binding is no module, the outermost frame decides at the head of a call. -/
theorem resolveHead_of_nearest (hname : splitQualified name = some (a, b)) {f : FrameId} {v : Value}
    (hnearest : h.Nearest scope a f v) (hv : v.module? = none) :
    resolveHead h scope name =
      match (h.own? (h.root scope) a).bind Value.module? with
      | some m => member h m a b
      | none => .error (.notAModule a) := by
  have hget := Heap.get?_eq_some_iff.2 ⟨f, hnearest⟩
  rw [resolveHead, hname]
  cases hroot : (h.own? (h.root scope) a).bind Value.module? <;> simp [hget, hv, hroot]

/-- **The two resolutions of a name go in one of these ways.** -/
theorem resolution (h : Heap) (scope : FrameId) (name : String) :
    Resolution h scope name (resolve h scope name) (resolveHead h scope name) := by
  rcases hname : splitQualified name with _ | ⟨a, b⟩
  · have hvalue : resolve h scope name = plain h scope name := by rw [resolve, hname]
    have hhead : resolveHead h scope name = plain h scope name := by rw [resolveHead, hname]
    rw [hvalue, hhead]
    exact .plain hname
  rcases hget : h.get? scope a with _ | v
  · have hnone := Heap.get?_eq_none_iff.1 hget
    have hvalue : resolve h scope name = .error (.undefinedSymbol a) := by
      rw [resolve, hname]
      simp only [hget]
    have hhead : resolveHead h scope name = .error (.undefinedSymbol name) := by
      rw [resolveHead, hname]
      simp [hget, hnone.root]
    rw [hvalue, hhead]
    exact .unbound hname hnone
  obtain ⟨f, hnearest⟩ := Heap.get?_eq_some_iff.1 hget
  rcases hv : v.module? with _ | m
  · have hvalue : resolve h scope name = .error (.notAModule a) := by
      rw [resolve, hname]
      cases v with
      | module m => cases hv
      | _ => simp only [hget]
    rw [hvalue, resolveHead_of_nearest hname hnearest hv]
    rcases hroot : (h.own? (h.root scope) a).bind Value.module? with _ | m
    · refine .missed hname hnearest hv fun m hm => ?_
      rw [hm] at hroot
      cases hroot
    · obtain ⟨w, hw, hm⟩ := Option.bind_eq_some_iff.1 hroot
      exact .fallback hname hnearest hv (eq_module_of_module? hm ▸ hw)
  · obtain rfl := eq_module_of_module? hv
    have hvalue : resolve h scope name = member h m a b := by
      rw [resolve, hname]
      simp only [hget]
    have hhead : resolveHead h scope name = member h m a b := by
      rw [resolveHead, hname]
      simp only [hget, Option.bind_some, hv]
    rw [hvalue, hhead]
    exact .found hname hnearest

/-- How a name means one thing by itself and another at the head of a call; `a` and `b` are its
parts before and behind the slash. -/
inductive Differ (h : Heap) (scope : FrameId) (name a b : String) : Prop
  /-- Nothing is bound to the part before the slash, and one resolution names this part as
  undefined, the other the whole. -/
  | unbound (hnone : h.Unbound scope a)
      (hvalue : resolve h scope name = .error (.undefinedSymbol a))
      (hhead : resolveHead h scope name = .error (.undefinedSymbol name))
  /-- The nearest binding is no module, but the outermost one is, and its own frame is asked for the
  member. -/
  | hidden {f : FrameId} {v : Value} {m : Module} (hnearest : h.Nearest scope a f v)
      (hv : v.module? = none) (hroot : h.own? (h.root scope) a = some (.module m))
      (hvalue : resolve h scope name = .error (.notAModule a))
      (hhead : resolveHead h scope name =
        match h.own? m.scope b with
        | some w => .ok w
        | none => .error (.memberNotFound a b))

/-- What the head of a call adds to the meaning of names. -/
structure Extends (h : Heap) (scope : FrameId) (name : String) : Prop where
  /-- What a name means by itself it means at the head of a call. -/
  agrees : ∀ v, resolve h scope name = .ok v → resolveHead h scope name = .ok v
  /-- Where the two differ, and how. -/
  differs : resolve h scope name ≠ resolveHead h scope name ↔
    ∃ a b, splitQualified name = some (a, b) ∧ Differ h scope name a b
  /-- Behind a binding that is no module, what the frames between it and the outermost one bind to
  the name does not matter. -/
  hidden : ∀ a b inner f middle outermost v, splitQualified name = some (a, b) →
    h.chain scope = inner ++ f :: (middle ++ [outermost]) → (∀ g ∈ inner, h.own? g a = none) →
    h.own? f a = some v → v.module? = none →
    resolveHead h scope name =
      match (h.own? outermost a).bind Value.module? with
      | some m =>
        match h.own? m.scope b with
        | some w => .ok w
        | none => .error (.memberNotFound a b)
      | none => .error (.notAModule a)
  /-- In an outermost frame the two give the same values. -/
  outermost : h.outer? scope = none →
    ∀ v, resolveHead h scope name = .ok v ↔ resolve h scope name = .ok v

theorem agrees_of_resolution {byItself atHead : Except LispError Value} {v : Value}
    (hr : Resolution h scope name byItself atHead) (hv : byItself = .ok v) : atHead = .ok v := by
  cases hr with
  | plain | found => exact hv
  | unbound | fallback | missed => cases hv

/-- The two resolutions part in two of the ways only. -/
theorem exists_differ (hne : resolve h scope name ≠ resolveHead h scope name) :
    ∃ a b, splitQualified name = some (a, b) ∧ Differ h scope name a b := by
  have hr := resolution h scope name
  generalize hvalue : resolve h scope name = byItself at hr hne
  generalize hhead : resolveHead h scope name = atHead at hr hne
  cases hr with
  | plain | found | missed => exact absurd rfl hne
  | unbound hname hnone => exact ⟨_, _, hname, .unbound hnone hvalue hhead⟩
  | fallback hname hnearest hv hroot =>
    exact ⟨_, _, hname, .hidden hnearest hv hroot hvalue hhead⟩

theorem Differ.ne (hd : Differ h scope name a b) (hname : splitQualified name = some (a, b)) :
    resolve h scope name ≠ resolveHead h scope name := by
  intro heq
  cases hd with
  | unbound hnone hvalue hhead =>
    rw [hvalue, hhead] at heq
    cases heq
    exact (ne_of_splitQualified hname).1 rfl
  | hidden hnearest hv hroot hvalue hhead =>
    rw [hvalue, hhead] at heq
    split at heq <;> cases heq

/-- In an outermost frame the nearest binding is the outermost, so there is no fallback. -/
theorem resolve_of_resolveHead {v : Value} (houter : h.outer? scope = none)
    (hv : resolveHead h scope name = .ok v) : resolve h scope name = .ok v := by
  obtain ⟨hroot, hchain⟩ := Heap.chain_of_outermost houter
  have hr := resolution h scope name
  generalize resolve h scope name = byItself at hr ⊢
  generalize resolveHead h scope name = atHead at hr hv
  cases hr with
  | plain | found => exact hv
  | unbound | missed => cases hv
  | fallback hname hnearest hnone hmodule =>
    obtain ⟨inner, outer, hframes, -⟩ := hnearest.nearest
    have hf := hchain _ (hframes ▸ List.mem_append_right inner List.mem_cons_self)
    rw [hroot, ← hf, hnearest.own] at hmodule
    cases hmodule
    cases hnone

/-- **The head of a call extends the meaning of names.**  Whatever a symbol means by itself it means
at the head of a call.  The two differ exactly if the symbol is qualified and the part before the
slash is bound nowhere, or its nearest binding is no module while its outermost one is.  A module
between them is never found, and in an outermost frame the two give the same values. -/
theorem resolveHead_extends (h : Heap) (scope : FrameId) (name : String) :
    Extends h scope name where
  agrees _ hv := agrees_of_resolution (resolution h scope name) hv
  differs := by
    constructor
    · exact exists_differ
    · rintro ⟨a, b, hname, hd⟩
      exact hd.ne hname
  hidden a b inner f middle outermost v hname hchain hinner hown hv := by
    have hroot : h.root scope = outermost := by
      have hlast : inner ++ f :: (middle ++ [outermost]) = (inner ++ f :: middle) ++ [outermost] := by
        simp
      rw [Heap.root, hchain, hlast, List.getLastD_concat]
    have hnearest : h.Nearest scope a f v := ⟨hown, inner, middle ++ [outermost], hchain, hinner⟩
    rw [resolveHead_of_nearest hname hnearest hv, hroot]
    rfl
  outermost houter v :=
    ⟨resolve_of_resolveHead houter, agrees_of_resolution (resolution h scope name)⟩

-- The outermost frame binds `a` to a module with a member `b`, an inner frame binds it to `nil`.
example :
    let members := Heap.empty.alloc none (Table.empty.insert "b" .nil)
    let outermost := members.alloc none (Table.empty.insert "a" (.module ⟨"a", 0⟩))
    let h := outermost.alloc (some 1) (Table.empty.insert "a" .nil)
    resolve h 2 "a/b" = .error (.notAModule "a") ∧ resolveHead h 2 "a/b" = .ok .nil := by
  cbv

end Scope

end SmallLisp
