import SmallLisp.Proofs.Separation

/-! # Runs of a process

A process has interpreters that share one heap and one registry of modules.  Between evaluations
it can open another interpreter, or begin a new evaluation in one of them, and by then the files,
the working directory and the limits may be others than before; an evaluation in progress goes on
one step of the machine at a time (`Process.Step`).  So a moment of a run lies anywhere, in the
middle of an evaluation or between two of them.

What a process may be asked to evaluate is a parameter: anything at all, or only what was read
from texts.  `Process.reachable_orderly` says that every moment of a run is in order, and
`Process.Later.advances` how a later moment differs from an earlier one.
-/
namespace SmallLisp
open Evaluation

/-- A moment of a process: the outermost scopes of its interpreters, the setting of the last
evaluation, and that evaluation with the state of the process. -/
structure Process where
  roots : List FrameId
  setting : Setting
  machine : Machine

namespace Process

/-- The state that the interpreters share. -/
def store (P : Process) : Store := P.machine.store

/-- No evaluation is in progress. -/
def Idle (P : Process) : Prop := P.machine.next P.setting = none

/-- A process without interpreters. -/
def initial (setting : Setting) : Process := ⟨[], setting, ⟨.value .nil, [], Store.initial⟩⟩

/-- What a process can do next, if it evaluates only certain code. -/
inductive Step (code : Value → Prop) : Process → Process → Prop
  /-- The evaluation in progress makes a step. -/
  | work {P : Process} {m : Machine} (hm : P.machine.next P.setting = some m) :
      Step code P { P with machine := m }
  /-- Another interpreter is opened. -/
  | interpreter {P : Process} (hi : P.Idle) :
      Step code P { P with
        roots := Prelude.rootOf P.store.heap :: P.roots
        machine := ⟨.value .nil, [], { P.store with heap := Prelude.install P.store.heap }⟩ }
  /-- The evaluation of a script begins in one of the interpreters. -/
  | script {P : Process} (setting : Setting) {root : FrameId} {script : Script} (hi : P.Idle)
      (hk : setting.keepsModules = true) (hr : root ∈ P.roots)
      (hc : ∀ form ∈ script.forms, code form) :
      Step code P ⟨P.roots, setting, .ofScript setting.depthLimit root script P.store⟩
  /-- The surrounding program calls a value. -/
  | call {P : Process} (setting : Setting) {f : Value} {args : List Value} (hi : P.Idle)
      (hk : setting.keepsModules = true) (hf : code f) (ha : ∀ a ∈ args, code a) :
      Step code P ⟨P.roots, setting, .ofCall setting.writingLimit setting.depthLimit f args P.store⟩

/-- A moment that comes later in a run, or is the same. -/
abbrev Later (code : Value → Prop) : Process → Process → Prop :=
  Relation.ReflTransGen (Step code)

/-- A moment of some run from the start. -/
def Reachable (code : Value → Prop) (P : Process) : Prop :=
  ∃ setting : Setting, setting.keepsModules = true ∧ Later code (initial setting) P

/-- A moment at which everything is in order. -/
structure Orderly (textOnly : Prop) (settled : FrameId → Prop) (P : Process) : Prop where
  keeps : P.setting.keepsModules = true
  machine : P.machine.Orderly textOnly settled
  roots : ∀ root ∈ P.roots, Machine.Outside settled P.machine.tasks P.store root

/-- How the layers of the heap differ at a later moment. -/
def Advances (settled : FrameId → Prop) (P : Process) (settled' : FrameId → Prop)
    (Q : Process) : Prop :=
  Machine.Advances settled P.machine.tasks P.store settled' Q.machine.tasks Q.store

variable {code : Value → Prop} {textOnly : Prop} {settled : FrameId → Prop} {P Q R : Process}

theorem Reachable.later (h : Reachable code P) (hl : Later code P Q) : Reachable code Q := by
  obtain ⟨setting, hk, hs⟩ := h
  exact ⟨setting, hk, hs.trans hl⟩

/-- Steps of the machine are steps of the process. -/
theorem later_of_runs {m : Machine} (h : Machine.Runs P.setting P.machine m) :
    Later code P { P with machine := m } := by
  induction h with
  | refl => exact .refl
  | tail _ hs ih => exact ih.tail (.work hs)

/-- An idle process has no task left. -/
theorem Idle.tasks (h : P.Idle) : P.machine.tasks = [] := by
  obtain ⟨roots, setting, ⟨control, tasks, s⟩⟩ := P
  cases tasks with
  | nil => rfl
  | cons task tasks =>
    cases control with
    | expr levels e scope => cases levels <;> cases h
    | value v => cases h
    | fault e => cases h

/-- Another interpreter leaves everything in order. -/
theorem Orderly.interpreter (h : P.Orderly textOnly settled) (hi : P.Idle) :
    Orderly textOnly (Machine.WithBuiltins settled P.store.heap)
      { P with
        roots := Prelude.rootOf P.store.heap :: P.roots
        machine := ⟨.value .nil, [], { P.store with heap := Prelude.install P.store.heap }⟩ } ∧
    Machine.Advances settled P.machine.tasks P.store (Machine.WithBuiltins settled P.store.heap) []
      { P.store with heap := Prelude.install P.store.heap } := by
  have hr := h.machine.ready
  rw [hi.tasks] at hr
  have ha : Machine.Advances settled P.machine.tasks P.store
      (Machine.WithBuiltins settled P.store.heap) []
      { P.store with heap := Prelude.install P.store.heap } := by
    refine ⟨fun _ hid => .inl hid, fun id hid => ?_, fun id hid => ?_, fun _ _ hm => hm,
      Heap.size_le_install _⟩
    · exact Heap.frames_install_of_lt _ (hr.settled_lt id hid)
    · exact ⟨Nat.lt_of_lt_of_le hid.1 (Heap.size_le_install _),
        Machine.not_withBuiltins hid.2.1 hid.1, nofun⟩
  refine ⟨⟨h.keeps, ⟨hr.installing, fun _ => .of_isCode Value.isCode_nil⟩, ?_⟩, ha⟩
  intro root hroot
  rcases List.mem_cons.1 hroot with rfl | hroot
  · exact ⟨Heap.rootOf_lt_install _, hr.rootOf_not_settled, nofun⟩
  · exact ha.outside root (h.roots root hroot)

theorem Orderly.script (h : P.Orderly textOnly settled) (hi : P.Idle) {setting : Setting}
    (hk : setting.keepsModules = true) {root : FrameId} (hr : root ∈ P.roots) {script : Script}
    (hcode : textOnly → ∀ form ∈ script.forms, form.IsCode) :
    Orderly textOnly settled
      { P with setting, machine := .ofScript setting.depthLimit root script P.store } ∧
    Machine.Advances settled P.machine.tasks P.store settled
      (Machine.ofScript setting.depthLimit root script P.store).tasks P.store := by
  have hready := h.machine.ready
  have hroot := h.roots root hr
  have hroots := h.roots
  rw [hi.tasks] at hready hroot hroots
  have hhere : Machine.Here settled [] P.store root := ⟨Nat.zero_le _, hroot.1, hroot.2.1⟩
  refine ⟨⟨hk, ⟨hready.push rfl hhere fun form hm ht => .of_isCode (hcode ht form hm),
    fun _ => .of_isCode Value.isCode_nil⟩, hroots⟩, ?_⟩
  refine ⟨fun _ hid => hid, fun _ _ => rfl, fun id hid => ?_, fun _ _ hm => hm, Nat.le_refl _⟩
  rw [hi.tasks] at hid
  exact hid

theorem Orderly.call (h : P.Orderly textOnly settled) (hi : P.Idle) {setting : Setting}
    (hk : setting.keepsModules = true) {f : Value} {args : List Value}
    (hf : textOnly → f.IsCode) (ha : textOnly → ∀ a ∈ args, a.IsCode) :
    ∃ settled', Orderly textOnly settled'
        { P with
          setting
          machine := .ofCall setting.writingLimit setting.depthLimit f args P.store } ∧
      Machine.Advances settled P.machine.tasks P.store settled'
        (Machine.ofCall setting.writingLimit setting.depthLimit f args P.store).tasks
        (Machine.ofCall setting.writingLimit setting.depthLimit f args P.store).store := by
  have hready := h.machine.ready
  have hroots := h.roots
  rw [hi.tasks] at hready hroots
  obtain ⟨settled', ho, hadv, -⟩ := Machine.enter_leads hready (setting.depthLimit + 2)
    (fun ht => .of_isCode (hf ht)) fun a hmem ht => .of_isCode (ha ht a hmem)
  rw [hi.tasks]
  exact ⟨settled', ⟨hk, ho, fun root hroot => hadv.outside root (hroots root hroot)⟩, hadv⟩

/-- **Every step leads from order to order.**  Frames made by a step of an evaluation are outside
of all loads if no load is in progress after it. -/
theorem Orderly.step (hc : textOnly → ∀ v, code v → v.IsCode) (h : P.Orderly textOnly settled)
    (hs : Step code P Q) :
    ∃ settled', Q.Orderly textOnly settled' ∧ P.Advances settled settled' Q ∧
      (P.machine.next P.setting = some Q.machine → Machine.loads Q.machine.tasks = [] →
        ∀ id, P.store.heap.size ≤ id → id < Q.store.heap.size →
          Machine.Outside settled' Q.machine.tasks Q.store id) := by
  cases hs with
  | work hm =>
    obtain ⟨settled', ho, ha, hf⟩ := Machine.next_leads h.keeps h.machine hm
    refine ⟨settled', ⟨h.keeps, ho, fun root hroot => ha.outside root (h.roots root hroot)⟩, ha,
      fun _ hnone id hl hu => hf id hl hu hnone⟩
  | interpreter hi =>
    obtain ⟨ho, ha⟩ := h.interpreter hi
    exact ⟨_, ho, ha, fun hw => by rw [hi] at hw; cases hw⟩
  | script setting hi hk hr hcode =>
    obtain ⟨ho, ha⟩ := h.script hi hk hr fun ht form hm => hc ht form (hcode form hm)
    exact ⟨settled, ho, ha, fun hw => by rw [hi] at hw; cases hw⟩
  | call setting hi hk hf ha =>
    obtain ⟨settled', ho, hadv⟩ := h.call hi hk (fun ht => hc ht _ hf)
      fun ht a hmem => hc ht a (ha a hmem)
    exact ⟨settled', ho, hadv, fun hw => by rw [hi] at hw; cases hw⟩

theorem initial_orderly {setting : Setting} (hk : setting.keepsModules = true) :
    (initial setting).Orderly textOnly fun _ => False := by
  refine ⟨hk, ⟨⟨fun _ => nofun, .nil, nofun, rfl, .nil, nofun, fun _ _ _ => nofun, ?_⟩, ?_⟩, nofun⟩
  · intro _ n _ id f _ hf
    cases hf
  · exact fun _ => .of_isCode Value.isCode_nil

/-- A later moment is in order as well. -/
theorem Orderly.later (hc : textOnly → ∀ v, code v → v.IsCode) (h : P.Orderly textOnly settled)
    (hl : Later code P Q) : ∃ settled', Q.Orderly textOnly settled' ∧ P.Advances settled settled' Q := by
  induction hl with
  | refl => exact ⟨settled, h, .refl⟩
  | tail _ hs ih =>
    obtain ⟨settled', ho, ha⟩ := ih
    obtain ⟨settled'', ho', ha', -⟩ := ho.step hc hs
    exact ⟨settled'', ho', ha.trans ha'⟩

/-- **Every moment of a run is in order.** -/
theorem reachable_orderly (hc : textOnly → ∀ v, code v → v.IsCode) (h : Reachable code P) :
    ∃ settled, P.Orderly textOnly settled := by
  obtain ⟨setting, hk, hl⟩ := h
  obtain ⟨settled, ho, -⟩ := (initial_orderly hk).later hc hl
  exact ⟨settled, ho⟩

/-- A text that an interpreter of the process evaluates is evaluated by the process. -/
theorem later_eval (hcode : ∀ v : Value, v.IsCode → code v) {setting : Setting} {root : FrameId}
    (hi : P.Idle) (hk : setting.keepsModules = true) (hr : root ∈ P.roots) (text : List Char) :
    Later code P ⟨P.roots, setting,
      Machine.after [] (((⟨root, false⟩ : Interpreter).eval setting text).run P.store)⟩ := by
  have hforms := Script.isCode_ofText setting.nestingLimit text
  refine .head (.script setting hi hk hr fun form hm => hcode form (hforms form hm)) ?_
  exact later_of_runs (P := ⟨P.roots, setting, _⟩) (Machine.runs_script setting _ root _ P.store)

end Process

end SmallLisp
