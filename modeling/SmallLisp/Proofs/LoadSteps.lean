import SmallLisp.Proofs.FrozenModules
import SmallLisp.Proofs.PlainFaults

/-! # What a step does to the loads in progress

Only four things can happen to the registry of modules while a machine runs, and each of them is
one step of the machine (`Machine.LoadStep`): a load begins, because a `require` asks for a file
whose module is neither kept nor being loaded; a load is over and its module is kept; a load is
given up because of a fault; or nothing happens to the registry at all.  In the same steps the row
of loads in progress, which can be read off the tasks, gets longer by one, shorter by one, or stays.

What can come of a `require` and of a load at once is said once, by `Machine.RequireShape` and
`Machine.LoadShape`.  What a step may complain about is told along with this: that a module requires
itself is never said without saying of which load it is the failure (`Machine.Control.Tells`).  And
a fault, once it is there, passes through all loads in progress to the end of the run
(`Machine.runs_fault`).
-/
namespace SmallLisp
open Evaluation

/-! ## Complaints about circles -/

/-- The bare complaint that a module requires itself, not yet the failure of a load. -/
def Fault.isCircle : Fault → Bool
  | .lisp (.circularRequire _) => true
  | _ => false

/-- A computation that does not end with the bare complaint about a circle. -/
def NoCircle {α : Type} (result : Except Fault α) : Prop :=
  ∀ f, result = .error f → f.isCircle = false

theorem isCircle_of_isOfLoad {f : Fault} (h : f.isOfLoad = false) : f.isCircle = false := by
  cases f with
  | lisp e =>
    cases e with
    | circularRequire path => cases h
    | _ => rfl
  | _ => rfl

theorem isCircle_leaving (f : Fault) (path : Path) : (f.leaving path).isCircle = false := by
  cases f <;> rfl

/-! ## Faults that pass through loads -/

/-- What becomes of a fault that passes through loads inside one another, the outermost first: an
error of the language becomes the failure of each of them, and any other fault stays as it is. -/
def Fault.through (paths : List Path) : Fault → Fault
  | .lisp e => .lisp (paths.foldr .failedModule e)
  | f => f

@[simp] theorem Fault.through_nil (f : Fault) : f.through [] = f := by
  cases f <;> rfl

theorem Fault.through_append (f : Fault) (outer inner : List Path) :
    f.through (outer ++ inner) = (f.through inner).through outer := by
  cases f with
  | lisp e => exact congrArg Fault.lisp List.foldr_append
  | _ => rfl

theorem Fault.through_singleton (f : Fault) (path : Path) : f.through [path] = f.leaving path := by
  cases f <;> rfl

/-- The load of a path is refused in a state: the file is being loaded already, or it cannot be
read.  The paths are those of the loads that fail by this alone, and the fault is the reason. -/
inductive Refuses (setting : Setting) (s : Store) (path : Path) : List Path → Fault → Prop
  | circular (hk : s.kept? setting path = none) (hl : path ∈ s.registry.loading) :
      Refuses setting s path [path] (.lisp (.circularRequire path))
  | unreadable {e : PathFault} (hk : s.kept? setting path = none)
      (hn : path ∉ s.registry.loading)
      (hread : setting.files.readText setting.here path = .error e) :
      Refuses setting s path [] (pathFault path e)

theorem Refuses.isCircle {setting : Setting} {s : Store} {path : Path} {own : List Path}
    {root : Fault} (h : Refuses setting s path own root) : (root.through own).isCircle = false := by
  cases h with
  | circular => rfl
  | @unreadable e =>
    rw [Fault.through_nil]
    exact isCircle_of_isOfLoad (isOfLoad_pathFault path e)

/-! ## Steps -/

/-- A `require` of the file at a path begins a load of that path. -/
theorem Asks.enterRequire_eq {setting : Setting} {s : Store} {scope : FrameId}
    {specifier : String} {path : Path} (h : Asks setting s scope specifier path) (levels : Nat)
    (tasks : List Machine.Task) :
    Machine.enterRequire setting levels scope specifier tasks s =
      Machine.enterLoad setting levels path tasks s := by
  rw [Machine.enterRequire, h.unbound, h.resolves]

namespace Machine

/-- No fault is about to be passed on that is the bare complaint about a circle. -/
def Control.Tells : Control → Prop
  | .fault f => f.isCircle = false
  | _ => True

/-- If a fault is about to be passed on, it is a plain one. -/
def Control.Plain : Control → Prop
  | .fault f => f.isPlain = true
  | _ => True

theorem Control.Plain.tells {c : Control} (h : c.Plain) : c.Tells := by
  cases c with
  | fault f => exact isCircle_of_isOfLoad (Fault.isOfLoad_of_isPlain h)
  | _ => trivial

/-- Above certain tasks there are only tasks with a certain property. -/
def Adds (m : Machine) (p : Task → Prop) (tasks : List Task) : Prop :=
  ∃ added, m.tasks = added ++ tasks ∧ ∀ task ∈ added, p task

theorem adds_nothing {p : Task → Prop} {tasks : List Task} {m : Machine} (h : m.tasks = tasks) :
    m.Adds p tasks :=
  ⟨[], h, nofun⟩

theorem adds_one {p : Task → Prop} {task : Task} {tasks : List Task} {m : Machine}
    (h : m.tasks = task :: tasks) (ht : p task) : m.Adds p tasks :=
  ⟨[task], h, List.forall_mem_singleton.2 ht⟩

/-- What a machine comes to that has nothing to do with a load: what was put above the given tasks
is no load, the registry is that of the given store, and what went wrong, if anything did, is
plain. -/
structure Quiet (tasks : List Task) (s : Store) (m : Machine) : Prop where
  above : m.Adds (fun task => task.start? = none) tasks
  registry : m.store.registry = s.registry
  plain : m.control.Plain

/-- The three things that can come of a load at once: its module is kept, it is refused, or the
evaluation of the file begins. -/
inductive LoadShape (setting : Setting) (levels : Nat) (path : Path) (tasks : List Task)
    (s : Store) : Machine → Prop
  | kept (m : Module) (hk : s.kept? setting path = some m) :
      LoadShape setting levels path tasks s ⟨.value (.module m), tasks, s⟩
  | refused {own : List Path} {root : Fault} (hr : Refuses setting s path own root) :
      LoadShape setting levels path tasks s ⟨.fault (root.through own), tasks, s⟩
  | begins {text : List Char} (hk : s.kept? setting path = none)
      (hn : s.registry.isLoading path = false)
      (hread : setting.files.readText setting.here path = .ok text) :
      LoadShape setting levels path tasks s ⟨.value .nil,
        .form (some path) (levels - 4) (Prelude.rootOf s.heap)
          (Script.ofText setting.nestingLimit (Text.trimStart text)).forms
          (Script.ofText setting.nestingLimit (Text.trimStart text)).stop? :: tasks,
        s.opening path⟩

/-- What one step of a machine does to the loads in progress and to the registry. -/
inductive LoadStep (setting : Setting) : Machine → Machine → Prop
  /-- Nothing is loaded or kept. -/
  | quiet {m m' : Machine} (hl : loads m'.tasks = loads m.tasks)
      (hr : m'.store.registry = m.store.registry)
      (ht : m.control.Tells → m'.control.Tells) : LoadStep setting m m'
  /-- A `require` asks for a file, and its load begins. -/
  | begins {v : Value} {specifier : String} {path : Path} {levels : Nat} {scope : FrameId}
      {tasks : List Task} {s : Store} {m' : Machine} (hv : specifier? v = some specifier)
      (ha : Asks setting s scope specifier path) (hk : s.kept? setting path = none)
      (hn : s.registry.isLoading path = false) (hl : loads m'.tasks = path :: loads tasks)
      (hr : m'.store.registry = s.registry.beginLoad path) (hc : m'.control = .value .nil) :
      LoadStep setting ⟨.value v, .specifier levels scope :: tasks, s⟩ m'
  /-- The last expression of a file has been evaluated, and the module is kept. -/
  | completes (path : Path) (v : Value) (levels : Nat) (scope : FrameId) (tasks : List Task)
      (s : Store) :
      LoadStep setting ⟨.value v, .form (some path) levels scope [] none :: tasks, s⟩
        ⟨.value (.module ⟨path.text, scope⟩), tasks,
          (s.closing path).keeping setting path ⟨path.text, scope⟩⟩
  /-- A load is given up. -/
  | fails (path : Path) (control : Control) {levels : Nat} {scope : FrameId} {rest : List Value}
      {stop? : Option ReadingStop} (tasks : List Task) (s : Store) {f : Fault}
      (hf : f.isCircle = false) :
      LoadStep setting ⟨control, .form (some path) levels scope rest stop? :: tasks, s⟩
        ⟨.fault f, tasks, s.closing path⟩

/-- The three things that can come of a `require` at once: a module is bound to the specifier, the
specifier leads nowhere, or a file is asked for. -/
inductive RequireShape (setting : Setting) (levels : Nat) (scope : FrameId) (specifier : String)
    (tasks : List Task) (s : Store) : Machine → Prop
  | bound (m : Module) (hb : (s.heap.get? scope specifier).bind Value.module? = some m) :
      RequireShape setting levels scope specifier tasks s ⟨.value (.module m), tasks, s⟩
  | nowhere {f : Fault} (hb : (s.heap.get? scope specifier).bind Value.module? = none)
      (hp : modulePath setting specifier = .error f) :
      RequireShape setting levels scope specifier tasks s ⟨.fault f, tasks, s⟩
  | asks {path : Path} (ha : Asks setting s scope specifier path) :
      RequireShape setting levels scope specifier tasks s (enterLoad setting levels path tasks s)

section Steps
variable {setting : Setting} {tasks : List Task} {s : Store} {limit : Nat}

namespace Quiet

theorem same {control : Control} {t : Store} (hr : t.registry = s.registry)
    (hp : control.Plain) : Quiet tasks s ⟨control, tasks, t⟩ :=
  ⟨adds_nothing rfl, hr, hp⟩

theorem fault {f : Fault} (hf : f.isPlain = true) : Quiet tasks s ⟨.fault f, tasks, s⟩ :=
  .same rfl hf

theorem value (v : Value) : Quiet tasks s ⟨.value v, tasks, s⟩ :=
  .same rfl trivial

theorem push (levels : Nat) (e : Value) (scope : FrameId) {task : Task}
    (hn : task.start? = none) : Quiet tasks s ⟨.expr levels e scope, task :: tasks, s⟩ :=
  ⟨adds_one rfl hn, rfl, trivial⟩

/-- As many loads are in progress as above the given tasks. -/
theorem loads {m : Machine} (h : Quiet tasks s m) : loads m.tasks = Machine.loads tasks := by
  obtain ⟨added, htasks, hadded⟩ := h.above
  rw [htasks]
  clear htasks
  induction added with
  | nil => rfl
  | cons task added ih =>
    obtain ⟨htask, hrest⟩ := List.forall_mem_cons.1 hadded
    exact (loads_cons_of_none htask).trans (ih hrest)

theorem after {result : Except Fault Value} (h : PlainFaults result) :
    Quiet tasks s (after tasks (result, s)) := by
  cases result with
  | error f => exact fault (h f rfl)
  | ok v => exact value v

/-- What is quiet above the tasks below a task is a quiet step if the task is no load. -/
theorem loadStep {task : Task} {control : Control} {m' : Machine} (hn : task.start? = none)
    (h : Quiet tasks s m') : LoadStep setting ⟨control, task :: tasks, s⟩ m' :=
  .quiet (h.loads.trans (loads_cons_of_none hn).symm) h.registry fun _ => h.plain.tells

end Quiet

/-- A fault above a task that is no load. -/
theorem LoadStep.of_fault {task : Task} {control : Control} {f : Fault}
    (hn : task.start? = none) (hf : f.isCircle = false) :
    LoadStep setting ⟨control, task :: tasks, s⟩ ⟨.fault f, tasks, s⟩ :=
  .quiet (loads_cons_of_none hn).symm rfl fun _ => hf

theorem enter_quiet (levels : Nat) (f : Value) (args : List Value) :
    Quiet tasks s (enter limit levels f args tasks s) := by
  cases f with
  | fn params body scope =>
    rw [enter]
    split
    · exact .same rfl trivial
    · exact .fault rfl
  | native g =>
    obtain ⟨result, out, hrun⟩ := run_callNative limit g args
    have hresult := plainFaults_callNative (hrun s)
    rw [enter, hrun]
    cases result with
    | error f => exact .same rfl (hresult f rfl)
    | ok v => exact .same rfl trivial
  | _ => exact .fault (isPlain_notAFunction _)

theorem continueCall_quiet (levels : Nat) (scope : FrameId) (f : Value) (done rest : List Value) :
    Quiet tasks s (continueCall limit levels scope f done rest tasks s) := by
  cases rest with
  | nil => exact enter_quiet levels f done.reverse
  | cons expr rest => exact .push _ _ _ rfl

theorem enterForm_quiet (levels : Nat) (scope : FrameId) (form : SpecialForm)
    (args : List Value) : Quiet tasks s (enterForm limit levels scope form args tasks s) := by
  cases formShape form args with
  | quote v => exact .value v
  | malformed h =>
    rw [enterForm_malformed h]
    exact .fault rfl
  | lambda params body => exact .after (plainFaults_lambdaResult scope params body)
  | define target expr =>
    rw [enterForm]
    rcases hb : boundName limit target with f | name
    · exact .fault (plainFaults_boundName target f hb)
    · exact .push _ _ _ rfl
  | conditional condition consequence alternative? =>
    rw [enterForm_conditional]
    exact .push _ _ _ rfl
  | require expr => exact .push _ _ _ rfl

theorem enterExpr_quiet (levels : Nat) (e : Value) (scope : FrameId) :
    Quiet tasks s (enterExpr limit levels e scope tasks s) := by
  cases exprShape e with
  | symbol name => exact .after (plainFaults_resolve s.heap scope name)
  | constant h =>
    rw [enterExpr_constant h]
    exact .value e
  | form hf args =>
    rw [enterExpr_form hf]
    exact enterForm_quiet levels scope _ args
  | call ho args =>
    rcases enterExpr_call limit levels ho args scope tasks s with ⟨word, rfl, hw⟩ | ⟨hw, -⟩
    · rw [hw]
      rcases hf : Scope.resolveHead s.heap scope word with e | f
      · exact .fault (isPlain_resolveHead hf)
      · exact continueCall_quiet levels scope f [] args
    · rw [hw]
      exact .push _ _ _ rfl

theorem enterLoad_shape (setting : Setting) (levels : Nat) (path : Path) (tasks : List Task)
    (s : Store) :
    LoadShape setting levels path tasks s (enterLoad setting levels path tasks s) := by
  unfold enterLoad
  split
  next m hm => exact .kept m hm
  next hk =>
    by_cases hl : s.registry.isLoading path = true
    · rw [if_pos hl]
      exact .refused (.circular hk (Registry.isLoading_iff.1 hl))
    · rw [if_neg hl]
      split
      next e he =>
        have hrefused := Refuses.unreadable hk (mt Registry.isLoading_iff.2 hl) he
        rw [← (pathFault path e).through_nil]
        exact .refused hrefused
      next text htext => exact .begins hk (Bool.eq_false_iff.2 hl) htext

theorem enterRequire_shape (setting : Setting) (levels : Nat) (scope : FrameId)
    (specifier : String) (tasks : List Task) (s : Store) :
    RequireShape setting levels scope specifier tasks s
      (enterRequire setting levels scope specifier tasks s) := by
  unfold enterRequire
  split
  next m hb => exact .bound m hb
  next hb =>
    split
    next path hp => exact .asks ⟨hb, hp⟩
    next f hp => exact .nowhere hb hp

/-- A `require` that asks for the file at a path. -/
theorem enterLoad_loadStep {v : Value} {specifier : String} {path : Path} (levels : Nat)
    {scope : FrameId} (hv : specifier? v = some specifier)
    (ha : Asks setting s scope specifier path) :
    LoadStep setting ⟨.value v, .specifier levels scope :: tasks, s⟩
      (enterLoad setting levels path tasks s) := by
  have hshape := enterLoad_shape setting levels path tasks s
  generalize enterLoad setting levels path tasks s = m' at hshape
  cases hshape with
  | kept m => exact (Quiet.value _).loadStep rfl
  | refused hr => exact .of_fault rfl hr.isCircle
  | begins hk hn => exact .begins hv ha hk hn rfl rfl rfl

theorem resume_loadStep (v : Value) (task : Task) :
    LoadStep setting ⟨.value v, task :: tasks, s⟩ (resume setting v task tasks s) := by
  cases task with
  | head levels scope args => exact (continueCall_quiet _ _ _ _ _).loadStep rfl
  | argument levels scope f done rest => exact (continueCall_quiet _ _ _ _ _).loadStep rfl
  | definition scope name => exact .quiet rfl rfl fun _ => trivial
  | branch levels scope consequence alternative? =>
    simp only [resume]
    split
    · exact .quiet rfl rfl fun _ => trivial
    · cases alternative? <;> exact .quiet rfl rfl fun _ => trivial
  | specifier levels scope =>
    simp only [resume]
    rcases hv : specifier? v with _ | specifier
    · exact (Quiet.fault (isPlain_wrongType _ v)).loadStep rfl
    · have hshape := enterRequire_shape setting levels scope specifier tasks s
      simp only
      generalize enterRequire setting levels scope specifier tasks s = m' at hshape ⊢
      cases hshape with
      | bound => exact (Quiet.value _).loadStep rfl
      | nowhere _ hp => exact .of_fault rfl (isCircle_of_isOfLoad (isOfLoad_of_modulePath hp))
      | asks ha => exact enterLoad_loadStep levels hv ha
  | form module? levels scope rest stop? =>
    cases rest with
    | cons expr rest => exact .quiet (loads_form ..) rfl fun _ => trivial
    | nil =>
      cases module? with
      | none =>
        rcases stop? with _ | _ | _
        · exact .quiet rfl rfl fun _ => trivial
        · exact .quiet rfl rfl fun _ => rfl
        · exact .quiet rfl rfl fun _ => rfl
      | some path =>
        cases stop? with
        | none => exact .completes path v levels scope tasks s
        | some stop => exact .fails path _ tasks s (isCircle_leaving _ path)

theorem drop_loadStep (f : Fault) (task : Task) :
    LoadStep setting ⟨.fault f, task :: tasks, s⟩ (drop f task tasks s) := by
  cases task with
  | form module? levels scope rest stop? =>
    cases module? with
    | none => exact .quiet rfl rfl id
    | some path => exact .fails path _ tasks s (isCircle_leaving f path)
  | _ => exact .quiet rfl rfl id

/-- **A step of a machine does one of four things to the loads in progress.** -/
theorem next_loadStep {m m' : Machine} (h : m.next setting = some m') : LoadStep setting m m' := by
  obtain ⟨control, tasks, s⟩ := m
  cases control with
  | expr levels e scope =>
    cases levels with
    | zero =>
      cases h
      exact .quiet rfl rfl fun _ => rfl
    | succ levels =>
      cases h
      have hq : Quiet tasks s (enterExpr setting.writingLimit levels e scope tasks s) :=
        enterExpr_quiet levels e scope
      exact .quiet hq.loads hq.registry fun _ => hq.plain.tells
  | value v =>
    cases tasks with
    | nil => cases h
    | cons task tasks =>
      cases h
      exact resume_loadStep v task
  | fault f =>
    cases tasks with
    | nil => cases h
    | cons task tasks =>
      cases h
      exact drop_loadStep f task

theorem LoadStep.tells {m m' : Machine} (h : LoadStep setting m m') (ht : m.control.Tells) :
    m'.control.Tells := by
  cases h with
  | quiet _ _ htells => exact htells ht
  | begins _ _ _ _ _ _ hc =>
    rw [hc]
    trivial
  | completes => trivial
  | fails _ _ _ _ hf => exact hf

/-- A run does not come to the bare complaint about a circle if it does not begin with it. -/
theorem Runs.tells {m m' : Machine} (h : Runs setting m m') (ht : m.control.Tells) :
    m'.control.Tells := by
  induction h with
  | refl => exact ht
  | tail _ hs ih => exact (next_loadStep hs).tells ih

/-- **A fault passes through all loads in progress** and is where the run ends. -/
theorem runs_fault (setting : Setting) (f : Fault) (tasks : List Task) (s : Store) :
    ∃ t, Runs setting ⟨.fault f, tasks, s⟩ ⟨.fault (f.through (loads tasks).reverse), [], t⟩ := by
  induction tasks generalizing f s with
  | nil => exact ⟨s, by rw [loads, List.reverse_nil, Fault.through_nil]⟩
  | cons task tasks ih =>
    cases task with
    | form module? levels scope rest stop? =>
      cases module? with
      | none => exact (ih f s).imp fun _ ht => .head rfl ht
      | some path =>
        obtain ⟨t, ht⟩ := ih (f.leaving path) (s.closing path)
        rw [← Fault.through_singleton, ← Fault.through_append] at ht
        refine ⟨t, .head rfl ?_⟩
        rw [loads, List.reverse_cons]
        exact ht
    | _ => exact (ih f s).imp fun _ ht => .head rfl ht

end Steps

end Machine

end SmallLisp
