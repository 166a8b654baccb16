import SmallLisp.Table
import SmallLisp.Value

/-! # Scopes

A scope is a frame of bindings inside an outer scope, and frames live in a heap under numbers, so
that functions, modules and inner scopes can share them.  A frame's outer frame is always older
than the frame itself (`Heap.outer_lt`), so that going outward ends; `Heap.chain` lists the
frames met on the way.

A name means its nearest binding along the chain (`get?`); a definition changes the binding in
one frame and nothing else (`own?_define`).
-/
namespace SmallLisp

/-- A frame: its bindings, and the frame around it unless it is outermost. -/
structure Frame where
  bindings : Table String Value
  outer? : Option FrameId

/-- The frames made so far, each under its position. -/
structure Heap where
  frames : Array Frame
  outer_lt : ∀ (i : Nat) (h : i < frames.size), ∀ o ∈ frames[i].outer?, o < i

namespace Heap

/-- The heap without frames. -/
def empty : Heap := ⟨#[], by simp⟩

/-- The number of frames, which is the number of the next frame. -/
def size (h : Heap) : Nat := h.frames.size

/-- The frame around a frame. -/
def outer? (h : Heap) (id : FrameId) : Option FrameId :=
  h.frames[id]?.bind Frame.outer?

/-- The bindings of a frame. -/
def bindings (h : Heap) (id : FrameId) : Table String Value :=
  (h.frames[id]?.map Frame.bindings).getD Table.empty

/-- The value that a frame itself binds to a name. -/
def own? (h : Heap) (id : FrameId) (name : String) : Option Value :=
  (h.bindings id).get? name

/-- The heap with a new frame, which gets the number `h.size`.  An outer frame that is not there
is left out. -/
def alloc (h : Heap) (outer? : Option FrameId) (bindings : Table String Value) : Heap where
  frames := h.frames.push ⟨bindings, outer?.filter (· < h.size)⟩
  outer_lt := by
    intro i hi o ho
    rw [Array.getElem_push] at ho
    split at ho
    · exact h.outer_lt i _ o ho
    · next hlt =>
      have : o < h.size := by
        have := (Option.filter_eq_some_iff.1 ho).2
        simpa using this
      exact Nat.lt_of_lt_of_le this (Nat.le_of_not_lt hlt)

/-- Binds a name in one frame. -/
def define (h : Heap) (id : FrameId) (name : String) (value : Value) : Heap where
  frames := h.frames.modify id fun f => ⟨f.bindings.insert name value, f.outer?⟩
  outer_lt := by
    intro i hi o ho
    simp only [Array.size_modify] at hi
    rw [Array.getElem_modify] at ho
    split at ho
    · exact h.outer_lt i hi o ho
    · exact h.outer_lt i hi o ho

/-- A frame and the frames around it, from the inside out. -/
def chain (h : Heap) (id : FrameId) : List FrameId :=
  if hid : id < h.frames.size then
    match ho : h.frames[id].outer? with
    | none => [id]
    | some outer => id :: chain h outer
  else []
termination_by id
decreasing_by exact h.outer_lt id hid outer ho

/-- The nearest frame that binds a name. -/
def find? (h : Heap) (id : FrameId) (name : String) : Option FrameId :=
  (h.chain id).find? fun f => (h.own? f name).isSome

/-- The value that a name means in a scope. -/
def get? (h : Heap) (id : FrameId) (name : String) : Option Value :=
  (h.chain id).findSome? fun f => h.own? f name

/-- The outermost frame of a scope. -/
def root (h : Heap) (id : FrameId) : FrameId :=
  (h.chain id).getLastD id

/-! ## Keys -/

/-- What a binding is made or asked for by: a text, or the symbol of that name.  Frames keep the
name alone, so what was bound by one is found by the other. -/
inductive Key where
  | text (name : String)
  | symbol (name : String)
  deriving DecidableEq, Repr

/-- The name under which a frame keeps what goes by a key. -/
def Key.name : Key → String
  | text name | symbol name => name

instance : Coe Key String := ⟨Key.name⟩

/-- Binds several names in one frame, one after the other. -/
def update (h : Heap) (id : FrameId) (bindings : List (String × Value)) : Heap :=
  bindings.foldl (fun h b => h.define id b.1 b.2) h

/-! ## What the operations do -/

theorem chain_eq (h : Heap) (id : FrameId) :
    h.chain id =
      if id < h.size then
        match h.outer? id with
        | none => [id]
        | some outer => id :: h.chain outer
      else [] := by
  rw [chain]
  by_cases hid : id < h.frames.size
  · simp only [hid, dif_pos, size, if_true, outer?, Array.getElem?_eq_getElem hid,
      Option.bind_some]
    split <;> simp_all
  · simp [hid, size]

@[simp] theorem size_define (h : Heap) (id : FrameId) (name : String) (value : Value) :
    (h.define id name value).size = h.size := by
  simp [size, define]

@[simp] theorem outer?_define (h : Heap) (id other : FrameId) (name : String) (value : Value) :
    (h.define id name value).outer? other = h.outer? other := by
  simp only [outer?, define, Array.getElem?_modify]
  split
  · cases h.frames[other]? <;> rfl
  · rfl

/-- A definition leaves every scope the same row of frames. -/
@[simp] theorem chain_define (h : Heap) (id other : FrameId) (name : String) (value : Value) :
    (h.define id name value).chain other = h.chain other := by
  induction other using Nat.strongRecOn with
  | ind other ih =>
    rw [chain_eq, chain_eq h, size_define, outer?_define]
    by_cases hlt : other < h.size
    · simp only [hlt, if_true]
      cases ho : h.outer? other with
      | none => rfl
      | some outer =>
        have : outer < other := by
          simp only [outer?, Option.bind_eq_some_iff] at ho
          obtain ⟨f, hf, ho⟩ := ho
          obtain ⟨hi, rfl⟩ := Array.getElem?_eq_some_iff.1 hf
          exact h.outer_lt other hi outer ho
        simp [ih outer this]
    · simp [hlt]

/-- A definition binds its name in its frame and changes no other binding of any frame. -/
theorem own?_define (h : Heap) (id other : FrameId) (name key : String) (value : Value) :
    (h.define id name value).own? other key =
      if other = id ∧ name = key ∧ id < h.size then some value else h.own? other key := by
  simp only [own?, bindings, define, Array.getElem?_modify]
  by_cases ho : id = other
  · subst ho
    by_cases hlt : id < h.frames.size
    · simp only [Array.getElem?_eq_getElem hlt, if_true, Option.map_some, Option.getD_some,
        Table.get?_insert, size, hlt, and_true, true_and]
    · simp [hlt, size]
  · simp [ho, Ne.symm ho]

@[simp] theorem size_alloc (h : Heap) (outer? : Option FrameId) (bindings : Table String Value) :
    (h.alloc outer? bindings).size = h.size + 1 := by
  simp [size, alloc]

/-- A new frame holds what it was made with, and the other frames stay as they are. -/
theorem own?_alloc (h : Heap) (outer? : Option FrameId) (bindings : Table String Value)
    (id : FrameId) (name : String) :
    (h.alloc outer? bindings).own? id name =
      if id = h.size then bindings.get? name else h.own? id name := by
  simp only [own?, Heap.bindings, alloc, Array.getElem?_push, size]
  split
  · next h => simp [h]
  · next h => simp [h]

end Heap

end SmallLisp
