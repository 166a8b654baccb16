import SmallLisp.Proofs.Machine
import SmallLisp.Proofs.NativeLikeness

/-! # Parts of a heap that nothing leads out of

Some frames of a heap are settled: they belong to modules, and nothing writes to them any more.
A part of the heap is closed if whatever stands in its frames refers to frames of the part again,
and to modules in settled frames only (`Heap.Closed`).  From a scope inside a closed part every
name means a value that fits into the part (`Heap.Closed.resolve_fits`,
`Heap.Closed.resolveHead_fits`), and a part stays closed when something that fits is bound in it.
-/
namespace SmallLisp

variable {settled settled' inside inside' : FrameId → Prop}

/-! ## Tables -/

namespace Table
variable {κ α : Type} [DecidableEq κ]

theorem mem_insert {t : Table κ α} {key : κ} {v : α} {e : κ × α}
    (h : e ∈ (t.insert key v).entries) : e ∈ t.entries ∨ e = (key, v) := by
  obtain ⟨entries⟩ := t
  change e ∈ replace key v entries at h
  change e ∈ entries ∨ _
  induction entries with
  | nil => exact .inr (List.mem_singleton.1 h)
  | cons e' rest ih =>
    obtain ⟨k, w⟩ := e'
    simp only [replace] at h
    split at h
    · rcases List.mem_cons.1 h with h | h
      · exact .inr h
      · exact .inl (List.mem_cons_of_mem _ h)
    · rcases List.mem_cons.1 h with rfl | h
      · exact .inl List.mem_cons_self
      · rcases ih h with h | h
        · exact .inl (List.mem_cons_of_mem _ h)
        · exact .inr h

theorem mem_insertAll {t : Table κ α} {bindings : List (κ × α)} {e : κ × α}
    (h : e ∈ (t.insertAll bindings).entries) : e ∈ t.entries ∨ e ∈ bindings := by
  induction bindings generalizing t with
  | nil => exact .inl h
  | cons b rest ih =>
    rcases ih h with h | h
    · rcases mem_insert h with h | rfl
      · exact .inl h
      · exact .inr List.mem_cons_self
    · exact .inr (List.mem_cons_of_mem _ h)

end Table

/-! ## Frames and heaps -/

/-- A frame whose bindings fit inside some limits and whose outer frame is inside. -/
structure Frame.Fits (settled inside : FrameId → Prop) (f : Frame) : Prop where
  bindings : ∀ e ∈ f.bindings.entries, e.2.Fits settled inside
  outer : ∀ o ∈ f.outer?, inside o

/-- The frames inside some limits refer to one another and to settled modules only. -/
def Heap.Closed (settled inside : FrameId → Prop) (h : Heap) : Prop :=
  ∀ id f, inside id → h.frames[id]? = some f → f.Fits settled inside

theorem Frame.Fits.mono {f : Frame} (h : f.Fits settled inside)
    (hs : ∀ id, settled id → settled' id) (hi : ∀ id, inside id → inside' id) :
    f.Fits settled' inside' :=
  ⟨fun e he => (h.bindings e he).mono hs hi, fun o ho => hi o (h.outer o ho)⟩

namespace Heap.Closed

variable {h : Heap} {id : FrameId} {name : String} {v : Value}

theorem own?_fits (H : h.Closed settled inside) (hid : inside id) (hv : h.own? id name = some v) :
    v.Fits settled inside := by
  rw [own?_eq] at hv
  obtain ⟨f, hf, hv⟩ := Option.bind_eq_some_iff.1 hv
  exact (H id f hid hf).bindings _ (Table.mem_of_get? hv)

theorem chain_inside (H : h.Closed settled inside) (hid : inside id) :
    ∀ a ∈ h.chain id, inside a := by
  induction id using Nat.strongRecOn with
  | ind id ih =>
    rw [chain_eq]
    split
    · split
      · intro a ha
        rw [List.mem_singleton.1 ha]
        exact hid
      next o ho =>
        obtain ⟨f, hf, hfo⟩ := Option.bind_eq_some_iff.1 ho
        intro a ha
        rcases List.mem_cons.1 ha with rfl | ha
        · exact hid
        · exact ih o (h.outer_lt_of_frame hf hfo) ((H id f hid hf).outer o hfo) a ha
    · intro a ha
      cases ha

theorem get?_fits (H : h.Closed settled inside) (hid : inside id)
    (hv : h.get? id name = some v) : v.Fits settled inside := by
  obtain ⟨a, ha, hav⟩ := List.exists_of_findSome?_eq_some hv
  exact H.own?_fits (H.chain_inside hid a ha) hav

theorem root_inside (H : h.Closed settled inside) (hid : inside id) : inside (h.root id) := by
  unfold root
  rcases hc : h.chain id with _ | ⟨a, rest⟩
  · exact hid
  · refine H.chain_inside hid _ ?_
    rw [hc, List.getLastD_eq_getLast?, List.getLast?_eq_some_getLast (List.cons_ne_nil a rest)]
    exact List.getLast_mem _

/-- A module that a name means is settled. -/
theorem module_settled (hv : v.Fits settled inside) {m : Module} (hm : v.module? = some m) :
    settled m.scope := by
  cases v with
  | module m' =>
    cases hm
    exact Value.Fits.module_iff.1 hv
  | _ => cases hm

theorem plain_fits (H : h.Closed settled inside) (hid : inside id)
    (hv : Scope.plain h id name = .ok v) : v.Fits settled inside := by
  unfold Scope.plain at hv
  split at hv
  next w hw =>
    cases hv
    exact H.get?_fits hid hw
  · cases hv

theorem member_fits (H : h.Closed settled inside) (hs : ∀ id, settled id → inside id) {m : Module}
    (hm : settled m.scope) {moduleName : String} (hv : Scope.member h m moduleName name = .ok v) :
    v.Fits settled inside := by
  unfold Scope.member at hv
  split at hv
  next w hw =>
    cases hv
    exact H.own?_fits (hs _ hm) hw
  · cases hv

/-- A symbol means a value that fits. -/
theorem resolve_fits (H : h.Closed settled inside) (hs : ∀ id, settled id → inside id)
    (hid : inside id) (hv : Scope.resolve h id name = .ok v) : v.Fits settled inside := by
  unfold Scope.resolve at hv
  split at hv
  · exact H.plain_fits hid hv
  · split at hv
    · cases hv
    next m hm =>
      exact H.member_fits hs (module_settled (H.get?_fits hid hm) rfl) hv
    · cases hv

/-- So it does at the head of a call. -/
theorem resolveHead_fits (H : h.Closed settled inside) (hs : ∀ id, settled id → inside id)
    (hid : inside id) (hv : Scope.resolveHead h id name = .ok v) : v.Fits settled inside := by
  unfold Scope.resolveHead at hv
  split at hv
  · exact H.plain_fits hid hv
  · simp only at hv
    split at hv
    next m hm =>
      obtain ⟨w, hw, hwm⟩ := Option.bind_eq_some_iff.1 hm
      exact H.member_fits hs (module_settled (H.get?_fits hid hw) hwm) hv
    · split at hv
      next m hm =>
        obtain ⟨w, hw, hwm⟩ := Option.bind_eq_some_iff.1 hm
        exact H.member_fits hs (module_settled (H.own?_fits (H.root_inside hid) hw) hwm) hv
      · split at hv <;> cases hv

/-- More frames may count as settled or inside, as long as the new ones inside fit. -/
theorem mono (H : h.Closed settled inside) (hs : ∀ id, settled id → settled' id)
    (hi : ∀ id, inside id → inside' id)
    (hn : ∀ id f, inside' id → ¬ inside id → h.frames[id]? = some f → f.Fits settled' inside') :
    h.Closed settled' inside' := by
  intro id f hid hf
  by_cases hin : inside id
  · exact (H id f hin hf).mono hs hi
  · exact hn id f hid hin hf

/-- A definition keeps a part closed if its value fits wherever the frame is inside. -/
theorem define (H : h.Closed settled inside) (hv : inside id → v.Fits settled inside) :
    (h.define id name v).Closed settled inside := by
  intro a f ha hf
  rw [frames_define] at hf
  split at hf
  next he =>
    subst he
    obtain ⟨g, hg, rfl⟩ := Option.map_eq_some_iff.1 hf
    have hfit := H a g ha hg
    refine ⟨fun e he => ?_, hfit.outer⟩
    rcases Table.mem_insert he with he | rfl
    · exact hfit.bindings e he
    · exact hv ha
  · exact H a f ha hf

/-- A new frame keeps a part closed if what it holds fits. -/
theorem alloc (H : h.Closed settled inside) {outer : FrameId} {bindings : Table String Value}
    (hb : inside h.size → ∀ e ∈ bindings.entries, e.2.Fits settled inside)
    (ho : inside h.size → inside outer) :
    (h.alloc (some outer) bindings).Closed settled inside := by
  intro a f ha hf
  rw [frames_alloc] at hf
  split at hf
  next he =>
    subst he
    cases hf
    refine ⟨hb ha, fun o hfo => ?_⟩
    have hfo' : (some outer).filter (· < h.size) = some o := hfo
    obtain rfl : outer = o := Option.some.inj (Option.filter_eq_some_iff.1 hfo').1
    exact ho ha
  · exact H a f ha hf

end Heap.Closed

/-! ## The prelude -/

namespace Prelude

/-- No name of a prelude is reserved. -/
theorem isKeyword_builtins : ∀ b ∈ builtins, SpecialForm.isKeyword b.1 = false ∧
    ∀ f ∈ b.2, SpecialForm.isKeyword f.1 = false := by
  decide

theorem exists_of_mem_table {functions : List (String × Native)} {e : String × Value}
    (h : e ∈ (table functions).entries) : ∃ f ∈ functions, e = (f.1, .native f.2) := by
  rcases Table.mem_insertAll h with h | h
  · cases h
  · obtain ⟨f, hf, rfl⟩ := List.mem_map.1 h
    exact ⟨f, hf, rfl⟩

theorem exists_of_mem_moduleValues {first : FrameId}
    {modules : List (String × List (String × Native))} {e : String × Value}
    (h : e ∈ moduleValues first modules) :
    ∃ i b, modules[i]? = some b ∧ e = (b.1, .module ⟨"builtin:" ++ b.1, first + i⟩) := by
  induction modules generalizing first with
  | nil => cases h
  | cons b rest ih =>
    rcases List.mem_cons.1 h with rfl | h
    · exact ⟨0, b, rfl, rfl⟩
    · obtain ⟨i, b', hb, rfl⟩ := ih h
      exact ⟨i + 1, b', hb, by rw [Nat.add_assoc, Nat.add_comm 1]⟩

/-- In an outermost scope the prelude binds its modules and the arithmetic functions. -/
theorem exists_of_mem_bindings {first : FrameId} {e : String × Value}
    (h : e ∈ (bindings first).entries) :
    (∃ i b, builtins[i]? = some b ∧ e = (b.1, .module ⟨"builtin:" ++ b.1, first + i⟩)) ∨
      ∃ f ∈ operators, e = (f.1, .native f.2) := by
  rcases Table.mem_insertAll h with h | h
  · rcases Table.mem_insertAll h with h | h
    · cases h
    · exact .inl (exists_of_mem_moduleValues h)
  · obtain ⟨f, hf, rfl⟩ := List.mem_map.1 h
    exact .inr ⟨f, hf, rfl⟩

/-- In the frames of a new prelude stands nothing that refers to a frame but the built-in
modules. -/
theorem frames_fit {first : Nat} {f : Frame} (hf : f ∈ frames first)
    (hs : ∀ id : Nat, first ≤ id → id < first + builtins.length → settled id) :
    f.Fits settled inside := by
  rcases List.mem_append.1 hf with hf | hf
  · obtain ⟨b, -, rfl⟩ := List.mem_map.1 hf
    refine ⟨fun e he => ?_, nofun⟩
    obtain ⟨g, -, rfl⟩ := exists_of_mem_table he
    exact .of_isCode (Value.isCode_native g.2)
  · rw [List.mem_singleton.1 hf]
    refine ⟨fun e he => ?_, nofun⟩
    rcases exists_of_mem_bindings he with ⟨i, b, hb, rfl⟩ | ⟨g, -, rfl⟩
    · have hi : i < builtins.length := (List.getElem?_eq_some_iff.1 hb).1
      exact Value.Fits.module_iff.2 (hs _ (Nat.le_add_right _ _) (Nat.add_lt_add_left hi _))
    · exact .of_isCode (Value.isCode_native g.2)

end Prelude

/-- A new prelude keeps a part closed if its built-in modules count as settled; its frames may
count as inside. -/
theorem Heap.Closed.install {h : Heap} (H : h.Closed settled inside)
    (hs : ∀ id, settled id → settled' id) (hi : ∀ id, inside id → inside' id)
    (hn : ∀ id, inside' id → inside id ∨ h.size ≤ id)
    (hb : ∀ id : Nat, h.size ≤ id → id < Prelude.rootOf h → settled' id) :
    (Prelude.install h).Closed settled' inside' := by
  intro id f hid hf
  rw [frames_install] at hf
  split at hf
  next hlt =>
    have hin : inside id := (hn id hid).resolve_right (Nat.not_le.2 hlt)
    exact (H id f hin hf).mono hs hi
  · exact Prelude.frames_fit (List.mem_of_getElem? hf) hb

end SmallLisp
