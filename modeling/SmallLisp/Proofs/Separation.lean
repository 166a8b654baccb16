import SmallLisp.Proofs.Confinement
import SmallLisp.Proofs.Settled

/-! # What an evaluation in progress keeps apart

At every moment of an evaluation the frames of the heap fall into layers.  A frame is settled if
the load that made it is over, or if it belongs to a built-in module; the frames of a load in
progress are those made since it began that are not settled; and what was made before any of the
loads in progress began lies outside of them all.

Three things hold at every moment, whatever the expressions are.  Nothing is evaluated in a
settled frame, so settled frames never change.  The modules that are kept are settled.  And the
tasks that wait while a module is loaded work in frames that are older than the load
(`Machine.Ready`, `Machine.Orderly`).

If everything evaluated was read from a text, more holds: a frame of a load refers only to settled
frames and to frames made since that load began, and a settled frame to settled frames alone.

`Machine.next_leads` says that the next moment of an orderly machine is orderly again and that
what is settled stays so and unchanged (`Machine.Advances`).
-/
namespace SmallLisp
open Evaluation

namespace Machine

/-! ## Layers -/

/-- The scope in which a task goes on. -/
def Task.scope : Task → Nat
  | .head _ scope _ | .argument _ scope _ _ _ | .definition scope _ | .branch _ scope _ _
  | .specifier _ scope | .form _ _ scope _ _ => scope

/-- The values that a task holds. -/
def Task.values : Task → List Value
  | .head _ _ args => args
  | .argument _ _ f done rest => f :: (done ++ rest)
  | .branch _ _ consequence alternative? => consequence :: alternative?.toList
  | .form _ _ _ rest _ => rest
  | .definition _ _ | .specifier _ _ => []

/-- The number of the first frame that was made for the load of a module with this outermost
scope. -/
def firstFrame (root : Nat) : Nat :=
  root - Prelude.builtins.length

/-- The number of the first frame that was made for the load that a task stands for. -/
def Task.start? : Task → Option Nat
  | .form (some _) _ scope _ _ => some (firstFrame scope)
  | _ => none

/-- The numbers of the first frames that were made for the loads in progress, the last load
first. -/
def starts (tasks : List Task) : List Nat :=
  tasks.filterMap Task.start?

/-- The number of the first frame of the innermost load in progress, or that of the first frame of
all. -/
def base (tasks : List Task) : Nat :=
  (starts tasks).headD 0

/-- A frame is settled, or one of those that were made from a certain one on. -/
def Within (settled : FrameId → Prop) (first size : Nat) (id : FrameId) : Prop :=
  settled id ∨ first ≤ id ∧ id < size

/-- A frame that was made from a certain one on and that is not settled. -/
def Stands (settled : FrameId → Prop) (first size id : Nat) : Prop :=
  first ≤ id ∧ id < size ∧ ¬ settled id

/-- A frame that was made outside of the loads in progress and that is not settled. -/
def Outside (settled : FrameId → Prop) (tasks : List Task) (s : Store) (id : Nat) : Prop :=
  id < s.heap.size ∧ ¬ settled id ∧ ∀ n ∈ starts tasks, id < n

section Order
variable (textOnly : Prop) (settled : FrameId → Prop)

/-- A task goes on in a frame of the innermost load, with values that fit there. -/
structure Task.Placed (first size : Nat) (task : Task) : Prop where
  stands : Stands settled first size task.scope
  values : textOnly → ∀ v ∈ task.values, v.Fits settled (Within settled first size)

/-- Every task is placed in its layer, and those that wait for a load are older than it. -/
inductive Layered (size : Nat) : List Task → Prop
  | nil : Layered size []
  | cons {task : Task} {tasks : List Task}
      (placed : task.Placed textOnly settled (base (task :: tasks)) size)
      (older : ∀ n, task.start? = some n → ∀ waiting ∈ tasks, waiting.scope < n)
      (rest : Layered size tasks) : Layered size (task :: tasks)

/-- What is about to be done has its place in the innermost layer. -/
def Control.Placed (first size : Nat) : Control → Prop
  | .expr _ e scope =>
    Stands settled first size scope ∧ (textOnly → e.Fits settled (Within settled first size))
  | .value v => textOnly → v.Fits settled (Within settled first size)
  | .fault _ => True

/-- The tasks that wait and the store are in order. -/
structure Ready (tasks : List Task) (s : Store) : Prop where
  settled_lt : ∀ id, settled id → id < s.heap.size
  layered : Layered textOnly settled s.heap.size tasks
  modules : ∀ path m, s.registry.get? path = some m → settled m.scope
  loading : s.registry.loading = loads tasks
  nodup : (loads tasks).Nodup
  apart : s.registry.Apart
  core : textOnly → s.heap.Closed settled settled
  closed : textOnly → ∀ n ∈ 0 :: starts tasks,
    s.heap.Closed settled (Within settled n s.heap.size)

/-- A machine of which everything is in order. -/
structure Orderly (m : Machine) : Prop where
  ready : Ready textOnly settled m.tasks m.store
  control : m.control.Placed textOnly settled (base m.tasks) m.store.heap.size

end Order

/-- How the layers change: what is settled stays so and as it is, what is outside stays outside,
and modules that are kept stay kept. -/
structure Advances (settled : FrameId → Prop) (tasks : List Task) (s : Store)
    (settled' : FrameId → Prop) (tasks' : List Task) (s' : Store) : Prop where
  stays : ∀ id, settled id → settled' id
  frames : ∀ id, settled id → s'.heap.frames[id]? = s.heap.frames[id]?
  outside : ∀ id, Outside settled tasks s id → Outside settled' tasks' s' id
  kept : ∀ path m, s.registry.get? path = some m → s'.registry.get? path = some m
  size_le : s.heap.size ≤ s'.heap.size

/-- From tasks and a store that are in order a machine follows that is in order; the frames made
on the way are outside if no load is in progress afterwards. -/
def Leads (textOnly : Prop) (settled : FrameId → Prop) (tasks : List Task) (s : Store)
    (m : Machine) : Prop :=
  ∃ settled', Orderly textOnly settled' m ∧ Advances settled tasks s settled' m.tasks m.store ∧
    ∀ id, s.heap.size ≤ id → id < m.store.heap.size → loads m.tasks = [] →
      Outside settled' m.tasks m.store id

namespace Advances

variable {settled settled' settled'' : FrameId → Prop} {tasks tasks' tasks'' : List Task}
  {s s' s'' : Store}

theorem refl : Advances settled tasks s settled tasks s :=
  ⟨fun _ h => h, fun _ _ => rfl, fun _ h => h, fun _ _ h => h, Nat.le_refl _⟩

theorem trans (h : Advances settled tasks s settled' tasks' s')
    (h' : Advances settled' tasks' s' settled'' tasks'' s'') :
    Advances settled tasks s settled'' tasks'' s'' where
  stays id hid := h'.stays id (h.stays id hid)
  frames id hid := (h'.frames id (h.stays id hid)).trans (h.frames id hid)
  outside id hid := h'.outside id (h.outside id hid)
  kept path m hm := h'.kept path m (h.kept path m hm)
  size_le := Nat.le_trans h.size_le h'.size_le

end Advances

/-! ## Tasks -/

theorem Within.mono {settled settled' : FrameId → Prop} {first first' size size' : Nat}
    (hs : ∀ id, settled id → settled' id) (hf : first' ≤ first) (hz : size ≤ size') :
    ∀ id, Within settled first size id → Within settled' first' size' id := by
  intro id h
  rcases h with h | ⟨hl, hu⟩
  · exact .inl (hs id h)
  · exact .inr ⟨Nat.le_trans hf hl, Nat.lt_of_lt_of_le hu hz⟩

section Tasks
variable {textOnly : Prop} {settled settled' : FrameId → Prop} {task : Task} {tasks : List Task}
  {size size' : Nat} {s : Store}

theorem starts_cons_of_none (h : task.start? = none) : starts (task :: tasks) = starts tasks := by
  simp only [starts, List.filterMap_cons, h]

theorem starts_cons_of_some {n : Nat} (h : task.start? = some n) :
    starts (task :: tasks) = n :: starts tasks := by
  simp only [starts, List.filterMap_cons, h]

theorem base_cons_of_none (h : task.start? = none) : base (task :: tasks) = base tasks := by
  rw [base, base, starts_cons_of_none h]

theorem base_cons_of_some {n : Nat} (h : task.start? = some n) : base (task :: tasks) = n := by
  rw [base, starts_cons_of_some h, List.headD_cons]

/-- A text that goes on belongs to the load that it began in. -/
theorem start?_form (module? : Option Path) (levels : Nat) (scope : FrameId)
    (rest rest' : List Value) (stop? : Option ReadingStop) :
    (Task.form module? levels scope rest stop?).start? =
      (Task.form module? levels scope rest' stop?).start? := by
  cases module? <;> rfl

theorem starts_form (module? : Option Path) (levels : Nat) (scope : FrameId)
    (rest rest' : List Value) (stop? : Option ReadingStop) (tasks : List Task) :
    starts (.form module? levels scope rest stop? :: tasks) =
      starts (.form module? levels scope rest' stop? :: tasks) := by
  simp only [starts, List.filterMap_cons, start?_form module? levels scope rest rest']

theorem base_mem (tasks : List Task) : base tasks ∈ 0 :: starts tasks := by
  rw [base]
  rcases starts tasks with _ | ⟨n, rest⟩
  · exact List.mem_cons_self
  · exact List.mem_cons_of_mem _ List.mem_cons_self

theorem loads_cons_of_none (h : task.start? = none) : loads (task :: tasks) = loads tasks := by
  cases task with
  | form module? levels scope rest stop? =>
    cases module? with
    | none => rfl
    | some path => cases h
  | _ => rfl

theorem starts_eq_nil_iff : starts tasks = [] ↔ loads tasks = [] := by
  induction tasks with
  | nil => exact ⟨fun _ => rfl, fun _ => rfl⟩
  | cons task tasks ih =>
    rcases h : task.start? with _ | n
    · rw [starts_cons_of_none h, loads_cons_of_none h]
      exact ih
    · cases task with
      | form module? levels scope rest stop? =>
        cases module? with
        | none => cases h
        | some path =>
          rw [starts_cons_of_some h]
          exact ⟨nofun, nofun⟩
      | _ => cases h

/-- Every load that is in progress began before the last one. -/
theorem Layered.starts_le_base (h : Layered textOnly settled size tasks) :
    ∀ n ∈ starts tasks, n ≤ base tasks := by
  induction h with
  | nil => nofun
  | @cons task tasks placed older rest ih =>
    rcases hs : task.start? with _ | n
    · rw [starts_cons_of_none hs, base_cons_of_none hs]
      exact ih
    · rw [starts_cons_of_some hs, base_cons_of_some hs]
      intro k hk
      rcases List.mem_cons.1 hk with rfl | hk
      · exact Nat.le_refl _
      · obtain ⟨waiting, hw, hwk⟩ := List.mem_filterMap.1 hk
        have hold := older n hs waiting hw
        cases waiting with
        | form module? levels scope rest stop? =>
          cases module? with
          | none => cases hwk
          | some path =>
            cases hwk
            exact Nat.le_of_lt (Nat.lt_of_le_of_lt (Nat.sub_le _ _) hold)
        | _ => cases hwk

theorem Layered.le_base (h : Layered textOnly settled size tasks) :
    ∀ n ∈ 0 :: starts tasks, n ≤ base tasks := by
  intro n hn
  rcases List.mem_cons.1 hn with rfl | hn
  · exact Nat.zero_le _
  · exact h.starts_le_base n hn

theorem Layered.base_le (h : Layered textOnly settled size tasks) : base tasks ≤ size := by
  cases h with
  | nil => exact Nat.zero_le _
  | cons placed _ _ => exact Nat.le_of_lt (Nat.lt_of_le_of_lt placed.stands.1 placed.stands.2.1)

/-- Tasks stay in their layers while the heap grows, as long as their scopes do not get settled. -/
theorem Layered.mono (h : Layered textOnly settled size tasks)
    (hs : ∀ id, settled id → settled' id) (hz : size ≤ size')
    (hn : ∀ waiting ∈ tasks, ¬ settled' waiting.scope) :
    Layered textOnly settled' size' tasks := by
  induction h with
  | nil => exact .nil
  | cons placed older rest ih =>
    have hstands := placed.stands
    refine .cons ⟨⟨hstands.1, Nat.lt_of_lt_of_le hstands.2.1 hz, hn _ List.mem_cons_self⟩, ?_⟩ older
      (ih fun waiting hw => hn waiting (List.mem_cons_of_mem _ hw))
    exact fun ht v hv => (placed.values ht v hv).mono hs (Within.mono hs (Nat.le_refl _) hz)

theorem Layered.not_settled (h : Layered textOnly settled size tasks) :
    ∀ waiting ∈ tasks, ¬ settled waiting.scope := by
  induction h with
  | nil => nofun
  | cons placed _ _ ih =>
    intro waiting hw
    rcases List.mem_cons.1 hw with rfl | hw
    · exact placed.stands.2.2
    · exact ih waiting hw

theorem Layered.lt_size (h : Layered textOnly settled size tasks) :
    ∀ waiting ∈ tasks, waiting.scope < size := by
  induction h with
  | nil => nofun
  | cons placed _ _ ih =>
    intro waiting hw
    rcases List.mem_cons.1 hw with rfl | hw
    · exact placed.stands.2.1
    · exact ih waiting hw

end Tasks

/-! ## The steps that change no layer -/

section Steps
variable {textOnly : Prop} {settled : FrameId → Prop} {task : Task} {tasks : List Task}
  {control : Control} {s : Store} {m : Machine} {v f : Value} {args : List Value}
  {scope limit : Nat}

/-- A value that fits where the innermost load works. -/
def Suits (textOnly : Prop) (settled : FrameId → Prop) (tasks : List Task) (s : Store)
    (v : Value) : Prop :=
  textOnly → v.Fits settled (Within settled (base tasks) s.heap.size)

/-- A frame in which the innermost load works. -/
def Here (settled : FrameId → Prop) (tasks : List Task) (s : Store) (scope : Nat) : Prop :=
  Stands settled (base tasks) s.heap.size scope

theorem Suits.of_part {u : Value} (h : Suits textOnly settled tasks s v) (hu : u.Part v) :
    Suits textOnly settled tasks s u :=
  fun ht => (h ht).of_part hu

theorem Suits.of_isCode (h : v.IsCode) : Suits textOnly settled tasks s v :=
  fun _ => .of_isCode h

theorem Here.within (h : Here settled tasks s scope) :
    Within settled (base tasks) s.heap.size scope :=
  .inr ⟨h.1, h.2.1⟩

namespace Ready

theorem pop (h : Ready textOnly settled (task :: tasks) s) (hn : task.start? = none) :
    Ready textOnly settled tasks s where
  settled_lt := h.settled_lt
  layered := by
    cases h.layered with
    | cons _ _ rest => exact rest
  modules := h.modules
  loading := h.loading.trans (loads_cons_of_none hn)
  nodup := loads_cons_of_none hn ▸ h.nodup
  apart := h.apart
  core := h.core
  closed := starts_cons_of_none hn ▸ h.closed

theorem push (h : Ready textOnly settled tasks s) (hn : task.start? = none)
    (hs : Here settled tasks s task.scope)
    (hv : ∀ v ∈ task.values, Suits textOnly settled tasks s v) :
    Ready textOnly settled (task :: tasks) s where
  settled_lt := h.settled_lt
  layered := by
    refine .cons ?_ (fun n hsome => ?_) h.layered
    · rw [base_cons_of_none hn]
      exact ⟨hs, fun ht v hmem => hv v hmem ht⟩
    · rw [hn] at hsome
      cases hsome
  modules := h.modules
  loading := h.loading.trans (loads_cons_of_none hn).symm
  nodup := (loads_cons_of_none hn).symm ▸ h.nodup
  apart := h.apart
  core := h.core
  closed := (starts_cons_of_none hn).symm ▸ h.closed

theorem printing (h : Ready textOnly settled tasks s) (out : List Printed) :
    Ready textOnly settled tasks { s with printed := out ++ s.printed } :=
  ⟨h.settled_lt, h.layered, h.modules, h.loading, h.nodup, h.apart, h.core, h.closed⟩

/-- Where the innermost load works the heap is closed. -/
theorem here (h : Ready textOnly settled tasks s) (ht : textOnly) :
    s.heap.Closed settled (Within settled (base tasks) s.heap.size) :=
  h.closed ht _ (base_mem tasks)

theorem module_suits (h : Ready textOnly settled tasks s) {path : Path} {m : Module}
    (hm : s.registry.get? path = some m) : Suits textOnly settled tasks s (.module m) :=
  fun _ => Value.Fits.module_iff.2 (h.modules path m hm)

end Ready

namespace Leads

/-- A step that changes the control alone. -/
theorem same (h : Ready textOnly settled tasks s)
    (hc : control.Placed textOnly settled (base tasks) s.heap.size) :
    Leads textOnly settled tasks s ⟨control, tasks, s⟩ :=
  ⟨settled, ⟨h, hc⟩, .refl, fun _ hl hu _ => absurd hu (Nat.not_lt.2 hl)⟩

theorem fault (h : Ready textOnly settled tasks s) (e : Fault) :
    Leads textOnly settled tasks s ⟨.fault e, tasks, s⟩ :=
  same h trivial

theorem value (h : Ready textOnly settled tasks s) (hv : Suits textOnly settled tasks s v) :
    Leads textOnly settled tasks s ⟨.value v, tasks, s⟩ :=
  same h hv

theorem expr (h : Ready textOnly settled tasks s) (levels : Nat)
    (hs : Here settled tasks s scope) (hv : Suits textOnly settled tasks s v) :
    Leads textOnly settled tasks s ⟨.expr levels v scope, tasks, s⟩ :=
  same h ⟨hs, hv⟩

/-- The end of a computation that leaves the store as it is. -/
theorem after {result : Except Fault Value} (h : Ready textOnly settled tasks s)
    (hv : ∀ v, result = .ok v → Suits textOnly settled tasks s v) :
    Leads textOnly settled tasks s (after tasks (result, s)) := by
  cases result with
  | error e => exact fault h e
  | ok v => exact value h (hv v rfl)

/-- A step that begins with a part of an expression and puts a task for the rest of it. -/
theorem push (h : Ready textOnly settled tasks s) (task : Task) (hn : task.start? = none)
    (levels : Nat) (hs : Here settled tasks s task.scope)
    (hw : ∀ w ∈ task.values, Suits textOnly settled tasks s w)
    (hv : Suits textOnly settled tasks s v) :
    Leads textOnly settled tasks s ⟨.expr levels v task.scope, task :: tasks, s⟩ := by
  refine ⟨settled, ⟨h.push hn hs hw, ?_⟩, ?_, fun _ hl hu _ => absurd hu (Nat.not_lt.2 hl)⟩
  · change _ ∧ _
    rw [base_cons_of_none hn]
    exact ⟨hs, hv⟩
  · refine ⟨fun _ h => h, fun _ _ => rfl, fun id hid => ?_, fun _ _ h => h, Nat.le_refl _⟩
    exact ⟨hid.1, hid.2.1, (starts_cons_of_none hn).symm ▸ hid.2.2⟩

/-- What follows from the tasks below a task follows from all of them. -/
theorem of_pop (hn : task.start? = none) (h : Leads textOnly settled tasks s m) :
    Leads textOnly settled (task :: tasks) s m := by
  obtain ⟨settled', ho, ha, hf⟩ := h
  refine ⟨settled', ho, ⟨ha.stays, ha.frames, fun id hid => ha.outside id ?_, ha.kept,
    ha.size_le⟩, hf⟩
  exact ⟨hid.1, hid.2.1, starts_cons_of_none hn ▸ hid.2.2⟩

end Leads

theorem callNative_leads (h : Ready textOnly settled tasks s) (g : Native)
    (ha : ∀ a ∈ args, Suits textOnly settled tasks s a) :
    Leads textOnly settled tasks s (after tasks ((callNative limit g args).run s)) := by
  obtain ⟨result, out, hrun⟩ := run_callNative limit g args
  have hfit : ∀ v, result = .ok v → Suits textOnly settled tasks s v := by
    rintro v rfl ht
    have hpart (u : Value) (hu : u.Part v) (hs : u.scope? ≠ none) :
        u.Fits settled (Within settled (base tasks) s.heap.size) := by
      obtain ⟨a, hmem, hua⟩ := part_of_callNative (hrun s) hu hs
      exact (ha a hmem ht).of_part hua
    exact ⟨fun params body scope hu => (hpart _ hu nofun).functions params body scope .self,
      fun m hu => (hpart _ hu nofun).modules m .self⟩
  rw [hrun]
  refine ⟨settled, ⟨h.printing out, ?_⟩, ?_, fun _ hl hu _ => absurd hu (Nat.not_lt.2 hl)⟩
  · cases result with
    | error e => exact trivial
    | ok v => exact hfit v rfl
  · exact ⟨fun _ h => h, fun _ _ => rfl, fun _ h => h, fun _ _ h => h, Nat.le_refl _⟩

/-! ## Calls and forms -/

/-- A new frame around which nothing is settled. -/
theorem Ready.entering (h : Ready textOnly settled tasks s) {outer : FrameId}
    {bindings : Table String Value}
    (ho : textOnly → Within settled (base tasks) s.heap.size outer)
    (hb : ∀ e ∈ bindings.entries, Suits textOnly settled tasks s e.2) :
    Ready textOnly settled tasks (s.entering outer bindings) := by
  have hsize : (s.entering outer bindings).heap.size = s.heap.size + 1 := Heap.size_alloc _ _ _
  have hnew : ¬ settled s.heap.size := fun hs => Nat.lt_irrefl _ (h.settled_lt _ hs)
  refine ⟨fun id hid => ?_, ?_, h.modules, h.loading, h.nodup, h.apart, fun ht => ?_,
    fun ht n hn => ?_⟩
  · rw [hsize]
    exact Nat.lt_succ_of_lt (h.settled_lt id hid)
  · rw [hsize]
    exact h.layered.mono (fun _ hid => hid) (Nat.le_succ _) h.layered.not_settled
  · exact (h.core ht).alloc (fun hs => absurd hs hnew) fun hs => absurd hs hnew
  · rw [hsize]
    -- what fits where the innermost load works fits where the others do
    have hle := h.layered.le_base n hn
    have hin : ∀ id, Within settled (base tasks) s.heap.size id →
        Within settled n (s.heap.size + 1) id :=
      Within.mono (fun _ hid => hid) hle (Nat.le_succ _)
    have hbefore : s.heap.Closed settled (Within settled n (s.heap.size + 1)) := by
      refine (h.closed ht n hn).mono (fun _ hid => hid)
        (Within.mono (fun _ hid => hid) (Nat.le_refl _) (Nat.le_succ _)) fun id f _ hout hf => ?_
      have hlt := s.heap.lt_size_of_frame hf
      rename_i hid
      rcases hid with hid | hid
      · exact absurd (.inl hid) hout
      · exact absurd (.inr ⟨hid.1, hlt⟩) hout
    exact hbefore.alloc (fun _ e he => (hb e he ht).mono (fun _ hid => hid) hin)
      fun _ => hin _ (ho ht)

theorem enter_leads (h : Ready textOnly settled tasks s) (levels : Nat)
    (hf : Suits textOnly settled tasks s f) (ha : ∀ a ∈ args, Suits textOnly settled tasks s a) :
    Leads textOnly settled tasks s (enter limit levels f args tasks s) := by
  cases f with
  | native g => exact callNative_leads h g ha
  | fn params body outer =>
    simp only [enter]
    split
    · have hb : ∀ e ∈ (Table.empty.insertAll (params.zip args)).entries,
          Suits textOnly settled tasks s e.2 := by
        intro e he
        rcases Table.mem_insertAll he with he | he
        · cases he
        · exact ha _ (List.of_mem_zip he).2
      have hr := h.entering (fun ht => (Value.Fits.fn_iff.1 (hf ht)).1) hb
      have hsize : (s.entering outer (Table.empty.insertAll (params.zip args))).heap.size =
          s.heap.size + 1 := Heap.size_alloc _ _ _
      have hnew : ¬ settled s.heap.size := fun hs => Nat.lt_irrefl _ (h.settled_lt _ hs)
      refine ⟨settled, ⟨hr, ⟨h.layered.base_le, ?_, hnew⟩, fun ht => ?_⟩, ?_, ?_⟩
      · rw [hsize]
        exact Nat.lt_succ_self _
      · rw [hsize]
        exact (Value.Fits.fn_iff.1 (hf ht)).2.mono (fun _ hid => hid)
          (Within.mono (fun _ hid => hid) (Nat.le_refl _) (Nat.le_succ _))
      · refine ⟨fun _ hid => hid, fun id hid => ?_, fun id hid => ?_, fun _ _ hm => hm, ?_⟩
        · exact Heap.frames_alloc_of_lt _ (h.settled_lt id hid)
        · refine ⟨?_, hid.2⟩
          rw [hsize]
          exact Nat.lt_succ_of_lt hid.1
        · rw [hsize]
          exact Nat.le_succ _
      · intro id hl hu hnone
        have hu' : id < s.heap.size + 1 := Nat.lt_of_lt_of_eq hu hsize
        obtain rfl : id = s.heap.size := Nat.le_antisymm (Nat.le_of_lt_succ hu') hl
        refine ⟨hu, hnew, fun n hn => ?_⟩
        rw [starts_eq_nil_iff.2 hnone] at hn
        cases hn
    · exact Leads.fault h _
  | _ => exact Leads.fault h _

theorem continueCall_leads (h : Ready textOnly settled tasks s) (levels : Nat)
    (hs : Here settled tasks s scope) (hf : Suits textOnly settled tasks s f)
    {done rest : List Value} (hd : ∀ v ∈ done, Suits textOnly settled tasks s v)
    (hr : ∀ v ∈ rest, Suits textOnly settled tasks s v) :
    Leads textOnly settled tasks s (continueCall limit levels scope f done rest tasks s) := by
  cases rest with
  | nil => exact enter_leads h levels hf fun a ha => hd a (List.mem_reverse.1 ha)
  | cons expr rest =>
    refine Leads.push h (.argument levels scope f done rest) rfl (levels - 1) hs ?_
      (hr expr List.mem_cons_self)
    intro w hw
    rcases List.mem_cons.1 hw with rfl | hw
    · exact hf
    · rcases List.mem_append.1 hw with hw | hw
      · exact hd w hw
      · exact hr w (List.mem_cons_of_mem _ hw)

theorem enterForm_leads (h : Ready textOnly settled tasks s) (levels : Nat)
    (hs : Here settled tasks s scope) (form : SpecialForm)
    (ha : ∀ a ∈ args, Suits textOnly settled tasks s a) :
    Leads textOnly settled tasks s (enterForm limit levels scope form args tasks s) := by
  cases formShape form args with
  | quote v => exact Leads.value h (ha v List.mem_cons_self)
  | malformed hm =>
    rw [enterForm_malformed hm]
    exact Leads.fault h _
  | lambda params body =>
    refine Leads.after h fun v hv ht => ?_
    have hbody := ha body (List.mem_cons_of_mem _ List.mem_cons_self) ht
    obtain ⟨-, names, -, -, rfl⟩ := exists_of_lambdaResult hv
    exact Value.Fits.fn_iff.2 ⟨hs.within, hbody⟩
  | define target expr =>
    simp only [enterForm]
    rcases boundName limit target with e | name
    · exact Leads.fault h e
    · exact Leads.push h (.definition scope name) rfl (levels - 1) hs (List.forall_mem_nil _)
        (ha expr (List.mem_cons_of_mem _ List.mem_cons_self))
  | conditional condition consequence alternative? =>
    rw [enterForm_conditional]
    exact Leads.push h (.branch levels scope consequence alternative?) rfl (levels - 1) hs
      (fun w hw => ha w (List.mem_cons_of_mem _ hw)) (ha condition List.mem_cons_self)
  | require expr =>
    exact Leads.push h (.specifier levels scope) rfl (levels - 1) hs
      (List.forall_mem_nil _) (ha expr List.mem_cons_self)

theorem ok_of_mapError {result : Except LispError Value} (h : result.mapError Fault.lisp = .ok v) :
    result = .ok v := by
  cases result with
  | error e => cases h
  | ok w =>
    cases h
    rfl

theorem enterExpr_leads (h : Ready textOnly settled tasks s) (levels : Nat)
    (hs : Here settled tasks s scope) (hv : Suits textOnly settled tasks s v) :
    Leads textOnly settled tasks s (enterExpr limit levels v scope tasks s) := by
  cases exprShape v with
  | symbol name =>
    refine Leads.after h fun w hw ht => ?_
    exact (h.here ht).resolve_fits (fun _ hid => .inl hid) hs.within (ok_of_mapError hw)
  | constant hc =>
    rw [enterExpr_constant hc]
    exact Leads.value h hv
  | form hf args =>
    rw [enterExpr_form hf]
    exact enterForm_leads h levels hs _ fun a ha =>
      hv.of_part (.item (List.mem_cons_of_mem _ ha) .self)
  | @call head ho args =>
    have hhead := hv.of_part (.item List.mem_cons_self .self)
    have hargs : ∀ a ∈ args, Suits textOnly settled tasks s a := fun a ha =>
      hv.of_part (.item (List.mem_cons_of_mem _ ha) .self)
    rcases enterExpr_call limit levels ho args scope tasks s with ⟨word, rfl, hw⟩ | ⟨hw, -⟩
    · rw [hw]
      rcases hf : Scope.resolveHead s.heap scope word with e | f
      · exact Leads.fault h _
      · refine continueCall_leads h levels hs (fun ht => ?_)
          (List.forall_mem_nil _) hargs
        exact (h.here ht).resolveHead_fits (fun _ hid => .inl hid) hs.within hf
    · rw [hw]
      exact Leads.push h (.head levels scope args) rfl levels hs hargs hhead

/-! ## Definitions -/

/-- A definition where the innermost load works. -/
theorem Ready.defining (h : Ready textOnly settled tasks s) (hs : Here settled tasks s scope)
    (name : String) (hv : Suits textOnly settled tasks s v) :
    Ready textOnly settled tasks (s.defining scope name v) := by
  have hsize : (s.defining scope name v).heap.size = s.heap.size := Heap.size_define _ _ _ _
  refine ⟨fun id hid => ?_, ?_, h.modules, h.loading, h.nodup, h.apart, fun ht => ?_,
    fun ht n hn => ?_⟩
  · rw [hsize]
    exact h.settled_lt id hid
  · rw [hsize]
    exact h.layered
  · exact (h.core ht).define fun hscope => absurd hscope hs.2.2
  · rw [hsize]
    refine (h.closed ht n hn).define fun _ => ?_
    exact (hv ht).mono (fun _ hid => hid)
      (Within.mono (fun _ hid => hid) (h.layered.le_base n hn) (Nat.le_refl _))

theorem define_leads (h : Ready textOnly settled tasks s) (hs : Here settled tasks s scope)
    (name : String) (hv : Suits textOnly settled tasks s v) :
    Leads textOnly settled tasks s ⟨.value v, tasks, s.defining scope name v⟩ := by
  have hsize : (s.defining scope name v).heap.size = s.heap.size := Heap.size_define _ _ _ _
  refine ⟨settled, ⟨h.defining hs name hv, fun ht => ?_⟩, ?_, fun id hl hu _ => ?_⟩
  · rw [hsize]
    exact hv ht
  · refine ⟨fun _ hid => hid, fun id hid => ?_, fun id hid => ⟨?_, hid.2⟩, fun _ _ hm => hm, ?_⟩
    · refine Heap.frames_define_of_ne _ name v fun he => ?_
      subst he
      exact hs.2.2 hid
    · rw [hsize]
      exact hid.1
    · exact Nat.le_of_eq hsize.symm
  · exact absurd (Nat.lt_of_lt_of_eq hu hsize) (Nat.not_lt.2 hl)

/-! ## Loads -/

/-- What is settled when a new prelude is there: its built-in modules as well. -/
def WithBuiltins (settled : FrameId → Prop) (h : Heap) (id : FrameId) : Prop :=
  settled id ∨ h.size ≤ id ∧ id < Prelude.rootOf h

theorem start?_load (path : Path) (levels : Nat) (h : Heap) (rest : List Value)
    (stop? : Option ReadingStop) :
    (Task.form (some path) levels (Prelude.rootOf h) rest stop?).start? = some h.size := by
  simp only [Task.start?, firstFrame, Prelude.rootOf, Nat.add_sub_cancel]

theorem not_withBuiltins {h : Heap} {id : Nat} (hid : ¬ settled id) (hlt : id < h.size) :
    ¬ WithBuiltins settled h id := by
  rintro (hs | ⟨hl, -⟩)
  · exact hid hs
  · exact Nat.not_lt.2 hl hlt

/-- The outermost scope of a new prelude is not settled. -/
theorem Ready.rootOf_not_settled (h : Ready textOnly settled tasks s) :
    ¬ WithBuiltins settled s.heap (Prelude.rootOf s.heap) := by
  rintro (hs | ⟨-, hu⟩)
  · exact Nat.not_lt.2 (Heap.size_le_rootOf _) (h.settled_lt _ hs)
  · exact Nat.lt_irrefl _ hu

/-- A new prelude leaves the tasks that wait in order. -/
theorem Ready.installing (h : Ready textOnly settled tasks s) :
    Ready textOnly (WithBuiltins settled s.heap) tasks
      { s with heap := Prelude.install s.heap } := by
  have hle : s.heap.size ≤ (Prelude.install s.heap).size := Heap.size_le_install _
  have hstays : ∀ id, settled id → WithBuiltins settled s.heap id := fun _ hid => .inl hid
  refine ⟨fun id hid => ?_, ?_, fun path m hm => .inl (h.modules path m hm), h.loading, h.nodup,
    h.apart, fun ht => ?_, fun ht n hn => ?_⟩
  · rcases hid with hid | ⟨-, hu⟩
    · exact Nat.lt_of_lt_of_le (h.settled_lt id hid) hle
    · exact Nat.lt_trans hu (Heap.rootOf_lt_install _)
  · exact h.layered.mono hstays hle fun waiting hw =>
      not_withBuiltins (h.layered.not_settled waiting hw) (h.layered.lt_size waiting hw)
  · refine (h.core ht).install hstays hstays (fun id hid => ?_) fun id hl hu => .inr ⟨hl, hu⟩
    rcases hid with hid | ⟨hl, -⟩
    · exact .inl hid
    · exact .inr hl
  · refine (h.closed ht n hn).install hstays (Within.mono hstays (Nat.le_refl _) hle)
      (fun id hid => ?_) fun id hl hu => .inr ⟨hl, hu⟩
    rcases hid with (hid | ⟨hl, -⟩) | ⟨hl, -⟩
    · exact .inl (.inl hid)
    · exact .inr hl
    · rcases Nat.lt_or_ge id s.heap.size with hlt | hge
      · exact .inl (.inr ⟨hl, hlt⟩)
      · exact .inr hge

/-- When a load begins, everything is in order with it. -/
theorem Ready.opening (h : Ready textOnly settled tasks s) {path : Path}
    (hl : s.registry.isLoading path = false) (hm : s.registry.get? path = none) (levels : Nat)
    {rest : List Value} (hr : ∀ form ∈ rest, form.IsCode) (stop? : Option ReadingStop) :
    Ready textOnly (WithBuiltins settled s.heap)
      (.form (some path) levels (Prelude.rootOf s.heap) rest stop? :: tasks) (s.opening path) := by
  have hi := h.installing
  have hstart := start?_load path levels s.heap rest stop?
  have hnot : path ∉ s.registry.loading := by
    rw [← Registry.isLoading_iff, hl]
    exact Bool.false_ne_true
  refine ⟨hi.settled_lt, .cons ⟨?_, fun _ v hv => .of_isCode (hr v hv)⟩ ?_ hi.layered,
    fun p m hp => hi.modules p m ((Registry.Grows.get?_beginLoad _ _ _).symm.trans hp), ?_, ?_, ?_,
    hi.core, fun ht n hn => ?_⟩
  · rw [base_cons_of_some hstart]
    exact ⟨Heap.size_le_rootOf _, Heap.rootOf_lt_install _, h.rootOf_not_settled⟩
  · intro n hn waiting hw
    rw [hstart] at hn
    cases hn
    exact h.layered.lt_size waiting hw
  · simp only [Store.opening, Registry.beginLoad, hl, loads, ← h.loading]
    rfl
  · exact List.nodup_cons.2 ⟨h.loading ▸ hnot, h.nodup⟩
  · exact Registry.Grows.apart_beginLoad h.apart hm
  · rw [starts_cons_of_some hstart] at hn
    rcases List.mem_cons.1 hn with rfl | hn
    · exact hi.closed ht 0 List.mem_cons_self
    · rcases List.mem_cons.1 hn with rfl | hn
      · -- the load itself has so far only the frames of its prelude
        refine (h.core ht).install (fun _ hid => .inl hid) (fun _ hid => .inl (.inl hid))
          (fun id hid => ?_) fun id hl hu => .inr ⟨hl, hu⟩
        rcases hid with (hid | ⟨hl, -⟩) | ⟨hl, -⟩
        · exact .inl hid
        · exact .inr hl
        · exact .inr hl
      · exact hi.closed ht n (List.mem_cons_of_mem _ hn)

theorem enterLoad_leads {setting : Setting} (hk : setting.keepsModules = true)
    (h : Ready textOnly settled tasks s) (levels : Nat) (path : Path) :
    Leads textOnly settled tasks s (enterLoad setting levels path tasks s) := by
  unfold enterLoad
  split
  next m hm =>
    rw [Store.kept?, if_pos hk] at hm
    exact Leads.value h (h.module_suits hm)
  next hm =>
    have hm := kept?_eq_none hk hm
    split
    · exact Leads.fault h _
    next hl =>
      have hl : s.registry.isLoading path = false := by simpa using hl
      split
      · exact Leads.fault h _
      next text _ =>
        have hcode := Script.isCode_ofText setting.nestingLimit (Text.trimStart text)
        have hr := h.opening hl hm (levels - 4) hcode
          (Script.ofText setting.nestingLimit (Text.trimStart text)).stop?
        refine ⟨_, ⟨hr, fun _ => .of_isCode Value.isCode_nil⟩, ?_,
          fun _ _ _ hloads => absurd hloads (List.cons_ne_nil _ _)⟩
        refine ⟨fun _ hid => .inl hid, fun id hid => ?_, fun id hid => ?_, fun p m hp => ?_,
          Heap.size_le_install _⟩
        · exact Heap.frames_install_of_lt _ (h.settled_lt id hid)
        · refine ⟨Nat.lt_of_lt_of_le hid.1 (Heap.size_le_install _),
            not_withBuiltins hid.2.1 hid.1, fun n hn => ?_⟩
          rw [starts_cons_of_some (start?_load _ _ _ _ _)] at hn
          rcases List.mem_cons.1 hn with rfl | hn
          · exact hid.1
          · exact hid.2.2 n hn
        · exact (Registry.Grows.get?_beginLoad _ _ _).trans hp

theorem enterRequire_leads {setting : Setting} (hk : setting.keepsModules = true)
    (h : Ready textOnly settled tasks s) (levels : Nat) (hs : Here settled tasks s scope)
    (specifier : String) :
    Leads textOnly settled tasks s (enterRequire setting levels scope specifier tasks s) := by
  unfold enterRequire
  split
  next m hm =>
    obtain ⟨w, hw, hwm⟩ := Option.bind_eq_some_iff.1 hm
    refine Leads.value h fun ht => Value.Fits.module_iff.2 ?_
    exact Heap.Closed.module_settled ((h.here ht).get?_fits hs.within hw) hwm
  · split
    · exact enterLoad_leads hk h levels _
    · exact Leads.fault h _

/-- Of the loads under way the last is the first to end. -/
theorem loading_endLoad_of_cons {r : Registry} {path : Path} {rest : List Path}
    (hr : r.loading = path :: rest) (hpath : path ∉ rest) : (r.endLoad path).loading = rest := by
  simp only [Registry.endLoad, hr, List.filter_cons, ne_eq, not_true_eq_false, decide_false,
    Bool.false_eq_true, if_false]
  rw [List.filter_eq_self]
  intro p hp
  exact decide_eq_true fun he => hpath (he ▸ hp)

/-- When a load ends, its frames are settled, and everything else is in order. -/
theorem Ready.closing {path : Path} {levels : Nat} {root : FrameId} {rest : List Value}
    {stop? : Option ReadingStop}
    (h : Ready textOnly settled (.form (some path) levels root rest stop? :: tasks) s) :
    Ready textOnly (Within settled (firstFrame root) s.heap.size) tasks (s.closing path) := by
  have hstarts : starts (.form (some path) levels root rest stop? :: tasks) =
      firstFrame root :: starts tasks := starts_cons_of_some rfl
  have hclosed := h.closed
  rw [hstarts] at hclosed
  have hstays : ∀ id, settled id → Within settled (firstFrame root) s.heap.size id :=
    fun _ hid => .inl hid
  -- the frames of the load refer to one another and to what is settled
  have hcore (ht : textOnly) : s.heap.Closed (Within settled (firstFrame root) s.heap.size)
      (Within settled (firstFrame root) s.heap.size) :=
    (hclosed ht _ (List.mem_cons_of_mem _ List.mem_cons_self)).mono hstays (fun _ hid => hid)
      fun _ _ hid hout => absurd hid hout
  cases h.layered with
  | cons placed older below =>
    refine ⟨fun id hid => ?_, ?_, fun p m hp => .inl (h.modules p m hp), ?_, ?_, ?_, hcore,
      fun ht n hn => ?_⟩
    · rcases hid with hid | ⟨-, hu⟩
      · exact h.settled_lt id hid
      · exact hu
    · refine below.mono hstays (Nat.le_refl _) fun waiting hw hid => ?_
      rcases hid with hid | ⟨hl, -⟩
      · exact below.not_settled waiting hw hid
      · exact Nat.not_lt.2 hl (older _ rfl waiting hw)
    · exact loading_endLoad_of_cons h.loading (List.nodup_cons.1 h.nodup).1
    · exact (List.nodup_cons.1 h.nodup).2
    · intro p hp
      have hp' : (s.registry.endLoad path).isLoading p = true := hp
      rw [Registry.isLoading_endLoad, Bool.and_eq_true] at hp'
      exact h.apart p hp'.2
    · refine (hclosed ht n ?_).mono hstays
        (Within.mono hstays (Nat.le_refl _) (Nat.le_refl _)) fun id f hid hout hf => ?_
      · rcases List.mem_cons.1 hn with rfl | hn
        · exact List.mem_cons_self
        · exact List.mem_cons_of_mem _ (List.mem_cons_of_mem _ hn)
      · rcases hid with hid | hid
        · exact (hcore ht id f hid hf).mono (fun _ h => h) fun _ h => .inl h
        · exact absurd (.inr hid) hout

/-- The module of a settled scope may be kept. -/
theorem Ready.keeping (h : Ready textOnly settled tasks s) {path : Path} {m : Module}
    (hs : settled m.scope) (hp : path ∉ loads tasks) (setting : Setting) :
    Ready textOnly settled tasks (s.keeping setting path m) := by
  unfold Store.keeping
  split
  · refine ⟨h.settled_lt, h.layered, fun q m' hq => ?_, h.loading, h.nodup, fun q hq => ?_, h.core,
      h.closed⟩
    · rw [Registry.get?_insert] at hq
      split at hq
      · cases hq
        exact hs
      · exact h.modules q m' hq
    · have hne : path ≠ q := by
        rintro rfl
        exact hp (h.loading ▸ Registry.isLoading_iff.1 hq)
      rw [Registry.get?_insert, if_neg hne]
      exact h.apart q hq
  · exact h

/-- Ending a load leaves unchanged what was settled and outside what was outside. -/
theorem Advances.closing {path : Path} {levels : Nat} {root : FrameId} {rest : List Value}
    {stop? : Option ReadingStop} {t : Store} (ht : t.heap = s.heap)
    (hk : ∀ p m, s.registry.get? p = some m → t.registry.get? p = some m) :
    Advances settled (.form (some path) levels root rest stop? :: tasks) s
      (Within settled (firstFrame root) s.heap.size) tasks t := by
  have hstarts : starts (.form (some path) levels root rest stop? :: tasks) =
      firstFrame root :: starts tasks := starts_cons_of_some rfl
  refine ⟨fun _ hid => .inl hid, fun _ _ => by rw [ht], fun id hid => ?_, hk,
    Nat.le_of_eq (by rw [ht])⟩
  obtain ⟨hlt, hns, hbefore⟩ := hid
  rw [hstarts] at hbefore
  refine ⟨by rwa [ht], ?_, fun n hn => hbefore n (List.mem_cons_of_mem _ hn)⟩
  rintro (hs | ⟨hl, -⟩)
  · exact hns hs
  · exact Nat.not_lt.2 hl (hbefore _ List.mem_cons_self)

/-- A module whose last expression is evaluated is kept, and its frames are settled. -/
theorem finish_leads {path : Path} {levels : Nat} {root : FrameId} {rest : List Value}
    {stop? : Option ReadingStop}
    (h : Ready textOnly settled (.form (some path) levels root rest stop? :: tasks) s)
    (setting : Setting) :
    Leads textOnly settled (.form (some path) levels root rest stop? :: tasks) s
      ⟨.value (.module ⟨path.text, root⟩), tasks,
        (s.closing path).keeping setting path ⟨path.text, root⟩⟩ := by
  have hc := h.closing
  have hroot : Within settled (firstFrame root) s.heap.size root := by
    cases h.layered with
    | cons placed _ _ => exact .inr ⟨Nat.sub_le _ _, placed.stands.2.1⟩
  have hpath : path ∉ loads tasks := (List.nodup_cons.1 h.nodup).1
  have hnone : s.registry.get? path = none := by
    refine h.apart path (Registry.isLoading_iff.2 ?_)
    rw [h.loading]
    exact List.mem_cons_self
  have hheap : ((s.closing path).keeping setting path ⟨path.text, root⟩).heap = s.heap :=
    Store.heap_keeping ..
  refine ⟨_, ⟨hc.keeping hroot hpath setting, fun ht => ?_⟩, .closing hheap fun p m hp => ?_, ?_⟩
  · exact Value.Fits.module_iff.2 hroot
  · unfold Store.keeping
    split
    · have hne : path ≠ p := by
        rintro rfl
        rw [hnone] at hp
        cases hp
      exact (Registry.get?_insert _ _ _ _).trans ((if_neg hne).trans hp)
    · exact hp
  · intro id hl hu _
    rw [hheap] at hu
    exact absurd hu (Nat.not_lt.2 hl)

/-- The frames of a module whose load is given up are settled. -/
theorem giveUp_leads {path : Path} {levels : Nat} {root : FrameId} {rest : List Value}
    {stop? : Option ReadingStop}
    (h : Ready textOnly settled (.form (some path) levels root rest stop? :: tasks) s)
    (e : Fault) :
    Leads textOnly settled (.form (some path) levels root rest stop? :: tasks) s
      ⟨.fault e, tasks, s.closing path⟩ :=
  ⟨_, ⟨h.closing, trivial⟩, .closing rfl fun _ _ hp => hp,
    fun _ hl hu _ => absurd hu (Nat.not_lt.2 hl)⟩

/-! ## All steps -/

theorem drop_leads (h : Ready textOnly settled (task :: tasks) s) (e : Fault) :
    Leads textOnly settled (task :: tasks) s (drop e task tasks s) := by
  cases task with
  | form module? levels scope rest stop? =>
    cases module? with
    | none => exact .of_pop rfl (.fault (h.pop rfl) e)
    | some path => exact giveUp_leads h _
  | _ => exact .of_pop rfl (.fault (h.pop rfl) e)

/-- The next expression of a module or of a text. -/
theorem form_leads {module? : Option Path} {levels : Nat} {expr : Value} {rest : List Value}
    {stop? : Option ReadingStop}
    (h : Ready textOnly settled (.form module? levels scope (expr :: rest) stop? :: tasks) s) :
    Leads textOnly settled (.form module? levels scope (expr :: rest) stop? :: tasks) s
      ⟨.expr levels expr scope, .form module? levels scope rest stop? :: tasks, s⟩ := by
  have hstart := start?_form module? levels scope rest (expr :: rest) stop?
  have hstarts := starts_form module? levels scope rest (expr :: rest) stop? tasks
  have hloads := loads_form module? levels scope rest (expr :: rest) stop? tasks
  have hbase : base (.form module? levels scope rest stop? :: tasks) =
      base (.form module? levels scope (expr :: rest) stop? :: tasks) := by
    rw [base, base, hstarts]
  cases h.layered with
  | cons placed older below =>
    have hvalues (ht : textOnly) := placed.values ht
    refine ⟨settled, ⟨⟨h.settled_lt, .cons ⟨?_, fun ht v hv => ?_⟩ ?_ below, h.modules, ?_, ?_,
      h.apart, h.core, ?_⟩, ⟨?_, fun ht => ?_⟩⟩, ?_, fun _ hl hu _ => absurd hu (Nat.not_lt.2 hl)⟩
    · rw [hbase]
      exact placed.stands
    · rw [hbase]
      exact hvalues ht v (List.mem_cons_of_mem _ hv)
    · rw [hstart]
      exact older
    · rw [hloads]
      exact h.loading
    · rw [hloads]
      exact h.nodup
    · rw [hstarts]
      exact h.closed
    · change Stands settled (base (.form module? levels scope rest stop? :: tasks)) _ _
      rw [hbase]
      exact placed.stands
    · change expr.Fits settled (Within settled (base (.form module? levels scope rest stop? :: tasks)) _)
      rw [hbase]
      exact hvalues ht expr List.mem_cons_self
    · refine ⟨fun _ hid => hid, fun _ _ => rfl, fun id hid => ⟨hid.1, hid.2.1, ?_⟩,
        fun _ _ hm => hm, Nat.le_refl _⟩
      rw [hstarts]
      exact hid.2.2

/-- What a task that is no load holds has its place where the tasks below it work. -/
theorem Ready.top (h : Ready textOnly settled (task :: tasks) s) (hn : task.start? = none) :
    Here settled tasks s task.scope ∧ ∀ v ∈ task.values, Suits textOnly settled tasks s v := by
  cases h.layered with
  | cons placed _ _ =>
    rw [base_cons_of_none hn] at placed
    exact ⟨placed.stands, fun v hv ht => placed.values ht v hv⟩

theorem resume_leads {setting : Setting} (hk : setting.keepsModules = true)
    (h : Ready textOnly settled (task :: tasks) s)
    (hv : Suits textOnly settled (task :: tasks) s v) :
    Leads textOnly settled (task :: tasks) s (resume setting v task tasks s) := by
  have hvalue (hn : task.start? = none) : Suits textOnly settled tasks s v := by
    rwa [Suits, base_cons_of_none hn] at hv
  cases task with
  | head levels scope args =>
    obtain ⟨hs, hargs⟩ := h.top rfl
    exact .of_pop rfl (continueCall_leads (h.pop rfl) levels hs (hvalue rfl)
      (List.forall_mem_nil _) hargs)
  | argument levels scope f done rest =>
    obtain ⟨hs, hvalues⟩ := h.top rfl
    have hf := hvalues f List.mem_cons_self
    have hdone : ∀ w ∈ v :: done, Suits textOnly settled tasks s w := by
      intro w hw
      rcases List.mem_cons.1 hw with rfl | hw
      · exact hvalue rfl
      · exact hvalues w (List.mem_cons_of_mem _ (List.mem_append_left _ hw))
    have hrest : ∀ w ∈ rest, Suits textOnly settled tasks s w := fun w hw =>
      hvalues w (List.mem_cons_of_mem _ (List.mem_append_right _ hw))
    exact .of_pop rfl (continueCall_leads (h.pop rfl) levels hs hf hdone hrest)
  | definition scope name =>
    exact .of_pop rfl (define_leads (h.pop rfl) (h.top rfl).1 name (hvalue rfl))
  | branch levels scope consequence alternative? =>
    obtain ⟨hs, hvalues⟩ := h.top rfl
    refine .of_pop rfl ?_
    simp only [resume]
    split
    · exact .expr (h.pop rfl) (levels - 1) hs (hvalues consequence List.mem_cons_self)
    · cases alternative? with
      | some alternative =>
        exact .expr (h.pop rfl) (levels - 1) hs
          (hvalues alternative (List.mem_cons_of_mem _ List.mem_cons_self))
      | none => exact .value (h.pop rfl) (.of_isCode Value.isCode_nil)
  | specifier levels scope =>
    refine .of_pop rfl ?_
    simp only [resume]
    split
    · exact .fault (h.pop rfl) _
    · exact enterRequire_leads hk (h.pop rfl) levels (h.top rfl).1 _
  | form module? levels scope rest stop? =>
    cases rest with
    | cons expr rest => exact form_leads h
    | nil =>
      cases module? with
      | none =>
        cases stop? with
        | none => exact .of_pop rfl (.value (h.pop rfl) (hvalue rfl))
        | some stop => exact .of_pop rfl (.fault (h.pop rfl) _)
      | some path =>
        cases stop? with
        | none => exact finish_leads h setting
        | some stop => exact giveUp_leads h _

/-- **From an orderly moment an orderly moment follows.** -/
theorem next_leads {setting : Setting} (hk : setting.keepsModules = true) {m' : Machine}
    (h : Orderly textOnly settled m) (hn : m.next setting = some m') :
    Leads textOnly settled m.tasks m.store m' := by
  obtain ⟨control, tasks, s⟩ := m
  have hr := h.ready
  have hc := h.control
  cases control with
  | expr levels e scope =>
    cases levels with
    | zero =>
      cases hn
      exact .fault hr .tooDeep
    | succ levels =>
      cases hn
      exact enterExpr_leads hr levels hc.1 hc.2
  | value v =>
    cases tasks with
    | nil => cases hn
    | cons task tasks =>
      cases hn
      exact resume_leads hk hr hc
  | fault e =>
    cases tasks with
    | nil => cases hn
    | cons task tasks =>
      cases hn
      exact drop_leads hr e

end Steps

end Machine

end SmallLisp
