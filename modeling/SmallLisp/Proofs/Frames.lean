import SmallLisp.Proofs.Running

/-! # What is in a frame after a change of the heap

A definition changes the bindings of one frame; a new frame and a new prelude come behind the
frames that are there.  Stated on the frames themselves, so that what a statement says about a
frame it says about its bindings, their order and the frame around it at once.
-/
namespace SmallLisp

/-- The frames of a new prelude, the first of them under the number `first`. -/
def Prelude.frames (first : FrameId) : List Frame :=
  (builtins.map fun b => ⟨table b.2, none⟩) ++ [⟨bindings first, none⟩]

namespace Heap

variable (h : Heap)

theorem own?_eq (id : FrameId) (name : String) :
    h.own? id name = h.frames[id]?.bind fun f => f.bindings.get? name := by
  rw [own?, bindings]
  cases h.frames[id]? <;> rfl

theorem frames_eq_none_iff (id : FrameId) : h.frames[id]? = none ↔ h.size ≤ id :=
  Array.getElem?_eq_none_iff

theorem lt_size_of_frame {id : FrameId} {f : Frame} (hf : h.frames[id]? = some f) :
    id < h.size :=
  (Array.getElem?_eq_some_iff.1 hf).1

theorem frame_of_lt_size {id : FrameId} (hid : id < h.size) : ∃ f, h.frames[id]? = some f :=
  ⟨h.frames[id], Array.getElem?_eq_getElem hid⟩

/-- The frame around a frame is an older one. -/
theorem outer_lt_of_frame {id o : FrameId} {f : Frame} (hf : h.frames[id]? = some f)
    (ho : f.outer? = some o) : o < id := by
  obtain ⟨hid, rfl⟩ := Array.getElem?_eq_some_iff.1 hf
  exact h.outer_lt id hid o ho

theorem frames_define (id other : FrameId) (name : String) (v : Value) :
    (h.define id name v).frames[other]? =
      if other = id then
        h.frames[id]?.map fun f => ⟨f.bindings.insert name v, f.outer?⟩
      else h.frames[other]? := by
  simp only [define, Array.getElem?_modify]
  by_cases ho : other = id
  · subst ho; simp
  · simp [ho, Ne.symm ho]

theorem frames_define_of_ne {id other : FrameId} (name : String) (v : Value)
    (hne : other ≠ id) : (h.define id name v).frames[other]? = h.frames[other]? := by
  rw [frames_define, if_neg hne]

theorem frames_alloc (outer? : Option FrameId) (bindings : Table String Value) (id : FrameId) :
    (h.alloc outer? bindings).frames[id]? =
      if id = h.size then some ⟨bindings, outer?.filter (· < h.size)⟩ else h.frames[id]? := by
  simp only [alloc, Array.getElem?_push, size]
  rfl

/-- A new frame in a scope that is there lies in this scope. -/
theorem frames_alloc_in {scope : FrameId} (hs : scope < h.size) (bindings : Table String Value) :
    (h.alloc (some scope) bindings).frames[h.size]? = some ⟨bindings, some scope⟩ := by
  rw [frames_alloc, if_pos rfl, Option.filter_some, if_pos (decide_eq_true hs)]

theorem frames_alloc_of_lt {outer? : Option FrameId} {bindings : Table String Value}
    {id : FrameId} (hid : id < h.size) :
    (h.alloc outer? bindings).frames[id]? = h.frames[id]? := by
  rw [frames_alloc, if_neg (Nat.ne_of_lt hid)]

theorem frames_install (id : FrameId) :
    (Prelude.install h).frames[id]? =
      if id < h.size then h.frames[id]? else (Prelude.frames h.size)[id - h.size]? := by
  have happ : (Prelude.install h).frames = h.frames ++ (Prelude.frames h.size).toArray := by
    apply Array.ext'
    simp [Prelude.install, Prelude.builtins, Prelude.frames, alloc]
  rw [happ, Array.getElem?_append]
  simp only [List.getElem?_toArray]
  rfl

theorem frames_install_of_lt {id : FrameId} (hid : id < h.size) :
    (Prelude.install h).frames[id]? = h.frames[id]? := by
  rw [frames_install, if_pos hid]

theorem size_le_install : h.size ≤ (Prelude.install h).size := by
  rw [Prelude.size_install, Prelude.rootOf, Nat.add_assoc]
  exact Nat.le_add_right _ _

theorem lt_rootOf_of_lt {id : FrameId} (hid : id < h.size) : id < Prelude.rootOf h :=
  Nat.lt_add_right _ hid

theorem size_le_rootOf : h.size ≤ Prelude.rootOf h :=
  Nat.le_add_right _ _

theorem rootOf_lt_install : Prelude.rootOf h < (Prelude.install h).size := by
  rw [Prelude.size_install]
  exact Nat.lt_succ_self _

end Heap

end SmallLisp
