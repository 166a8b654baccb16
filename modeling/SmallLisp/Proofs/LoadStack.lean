import Mathlib.Data.List.Chain
import SmallLisp.Proofs.LoadSteps
import SmallLisp.Proofs.ReadingLoops

/-! # The loads in progress, and circles

The files that count as being loaded are at every moment exactly those whose evaluation has begun
and is not over, the last one first; no file is among them twice, and none has a module that is
kept.  What is evaluated while no file is being loaded leaves none behind, whatever comes of it.

So a load complains that a module requires itself if and only if the evaluation of that very file
is in progress (`Evaluation.load_circular_iff`).  Each load in progress was asked for by the
evaluation of the file below it, and a run whose requires stay inside a graph without cycles never
comes to that complaint, however often a file is required along different branches
(`Process.RequiresWithin.cycle_of_mem`).  `Process.Reachable.loads_exact` puts this together.
-/
namespace SmallLisp
open Evaluation

namespace Evaluation

variable {setting : Setting} {levels : Nat} {path : Path} {s : Store}

/-- An evaluation does not end with the bare complaint about a circle. -/
theorem noCircle_eval (setting : Setting) (levels : Nat) (e : Value) (scope : FrameId)
    (s : Store) : NoCircle ((eval setting levels e scope).run s).1 := by
  intro f hf
  have hrun := Machine.runs_eval setting levels e scope [] s
  rw [Machine.after, hf] at hrun
  exact hrun.tells trivial

theorem noCircle_evalForms (setting : Setting) (levels : Nat) (scope : FrameId) (last : Value)
    (forms : List Value) (s : Store) :
    NoCircle ((evalForms (eval setting levels) scope last forms).run s).1 := by
  induction forms generalizing last s with
  | nil => nofun
  | cons form rest ih =>
    have hfirst := noCircle_eval setting levels form scope s
    rw [run_evalForms_cons]
    rcases hv : (eval setting levels form scope).run s with ⟨f | v, t⟩
    · rw [hv] at hfirst
      exact hfirst
    · exact ih v t

/-- A failure inside the file of a module is not the complaint that the module requires itself. -/
theorem runFile_not_circular {scope : FrameId} {text : List Char} {e : Fault} {t : Store}
    (h : (runFile setting (eval setting levels) scope path text).run s = (.error e, t)) :
    e ≠ .lisp (.failedModule path (.circularRequire path)) := by
  -- the failure is that of something bare, and nothing bare is about a circle
  suffices hbare : ∃ f : Fault, f.isCircle = false ∧ e = f.leaving path by
    obtain ⟨f, hf, rfl⟩ := hbare
    intro he
    cases f with
    | lisp source =>
      cases he
      cases hf
    | _ => cases he
  rw [runFile, run_runModule] at h
  have hforms := noCircle_evalForms setting levels scope .nil
    (Script.ofText setting.nestingLimit (Text.trimStart text)).forms s
  rcases hr : (evalForms (eval setting levels) scope .nil
    (Script.ofText setting.nestingLimit (Text.trimStart text)).forms).run s with ⟨f | v, u⟩
  · rw [hr] at h hforms
    cases h
    exact ⟨f, hforms f rfl, rfl⟩
  · rw [hr] at h
    rcases hs : (Script.ofText setting.nestingLimit (Text.trimStart text)).stop? with _ | stop
    · rw [hs] at h
      cases h
    · rw [hs] at h
      cases h
      refine ⟨stop.inModule path, ?_, rfl⟩
      cases stop <;> rfl

/-- **A load complains about a circle exactly if the path is being loaded.** -/
theorem load_circular_iff (hk : setting.keepsModules = true) (ha : s.registry.Apart) :
    ((load setting (eval setting levels) path).run s).1 =
        .error (.lisp (.failedModule path (.circularRequire path))) ↔
      path ∈ s.registry.loading := by
  rw [← Registry.isLoading_iff]
  constructor
  · intro h
    by_contra hn
    have hn : s.registry.isLoading path = false := Bool.eq_false_iff.2 hn
    rcases hm : s.kept? setting path with _ | m
    · rcases hread : setting.files.readText setting.here path with e | text
      · rw [run_load_unreadable hm hn hread] at h
        cases e <;> cases h
      · rw [run_load_file hm hn hread] at h
        rcases hr : (runFile setting (eval setting levels) (Prelude.rootOf s.heap) path text).run
          (s.opening path) with ⟨e | _, t⟩
        · rw [hr] at h
          cases h
          exact runFile_not_circular hr rfl
        · rw [hr] at h
          cases h
    · rw [run_load_kept hm] at h
      cases h
  · intro h
    have hnone : s.kept? setting path = none := by
      rw [Store.kept?, if_pos hk]
      exact ha path h
    rw [run_load_circular hnone h]

end Evaluation

namespace Process

variable {code : Value → Prop} {edge : Path → Path → Prop} {P Q : Process}

/-! ## Who required whom -/

/-- At a moment a `require` asks for the file at `inner`, while of the files being loaded the one
at `outer` is the last. -/
inductive Requires (outer inner : Path) : Process → Prop
  | intro {roots : List FrameId} {setting : Setting} {v : Value} {levels : Nat} {scope : FrameId}
      {specifier : String} {tasks : List Machine.Task} {s : Store}
      (hv : specifier? v = some specifier) (ha : Asks setting s scope specifier inner)
      (ho : (Machine.loads tasks).head? = some outer) :
      Requires outer inner ⟨roots, setting, ⟨.value v, .specifier levels scope :: tasks, s⟩⟩

/-- The last moment of a run of which the requires stay inside a graph. -/
inductive RequiresWithin (code : Value → Prop) (edge : Path → Path → Prop) : Process → Prop
  | start (setting : Setting) (hk : setting.keepsModules = true) :
      RequiresWithin code edge (initial setting)
  | step {P Q : Process} (hP : RequiresWithin code edge P)
      (hedge : ∀ outer inner, Requires outer inner P → edge outer inner) (hs : Step code P Q) :
      RequiresWithin code edge Q

/-- Of the files being loaded each was required by the evaluation of the one below it. -/
theorem RequiresWithin.chain (h : RequiresWithin code edge P) :
    (Machine.loads P.machine.tasks).IsChain fun inner outer => edge outer inner := by
  induction h with
  | start setting hk => exact .nil
  | @step P Q hP hedge hs ih =>
    cases hs with
    | @work m hm =>
      obtain ⟨roots, setting, machine⟩ := P
      cases Machine.next_loadStep hm with
      | quiet hl _ _ =>
        change (Machine.loads m.tasks).IsChain _
        rw [hl]
        exact ih
      | begins hv ha _ _ hl _ _ =>
        change (Machine.loads m.tasks).IsChain _
        rw [hl]
        refine List.isChain_cons.2 ⟨fun outer ho => ?_, ih⟩
        exact hedge _ _ (.intro hv ha ho)
      | completes => exact (List.isChain_cons.1 ih).2
      | fails => exact (List.isChain_cons.1 ih).2
    | interpreter hi => exact .nil
    | script setting hi hk hr hc => exact .nil
    | @call setting f args hi hk hf ha =>
      have hq : Machine.Quiet [] P.store
          (.ofCall setting.writingLimit setting.depthLimit f args P.store) :=
        Machine.enter_quiet _ f args
      change (Machine.loads (Machine.ofCall setting.writingLimit setting.depthLimit f args
        P.store).tasks).IsChain _
      rw [hq.loads]
      exact .nil

/-- In a row of elements each of which follows the next one, every element leads to the first. -/
theorem reflTransGen_of_mem_chain {α : Type} {r : α → α → Prop} {first : α} {l : List α}
    (h : (first :: l).IsChain fun a b => r b a) {x : α} (hx : x ∈ first :: l) :
    Relation.ReflTransGen r x first := by
  induction l generalizing first with
  | nil =>
    obtain rfl := List.mem_singleton.1 hx
    exact .refl
  | cons second rest ih =>
    obtain ⟨hstep, hrest⟩ := List.isChain_cons_cons.1 h
    rcases List.mem_cons.1 hx with rfl | hx
    · exact .refl
    · exact (ih hrest hx).tail hstep

/-- A file that is being loaded while it is required lies on a cycle. -/
theorem RequiresWithin.cycle_of_mem (h : RequiresWithin code edge P) {path : Path}
    (hedge : ∀ outer, (Machine.loads P.machine.tasks).head? = some outer → edge outer path)
    (hp : path ∈ Machine.loads P.machine.tasks) : Relation.TransGen edge path path := by
  have hchain := h.chain
  rcases hl : Machine.loads P.machine.tasks with _ | ⟨first, rest⟩
  · rw [hl] at hp
    cases hp
  · rw [hl] at hchain hp hedge
    exact .tail' (reflTransGen_of_mem_chain hchain hp) (hedge first rfl)

/-! ## Everything about the loads in progress -/

/-- What is evaluated while no file is being loaded leaves none behind. -/
theorem loading_eq_nil_of_eval {setting : Setting} {levels : Nat} {e : Value} {scope : FrameId}
    {s : Store} (h : s.registry.loading = []) :
    ((eval setting levels e scope).run s).2.registry.loading = [] :=
  (eval_evolves setting levels e scope s).registry.loading.trans h

/-- **The loads in progress are known exactly, and so are circles.**  At every moment the paths that
count as being loaded are those of the files whose evaluation is in progress, the last one first,
each of them once and without a module that is kept.  None is left when nothing is in progress any
more, nor after an evaluation that began while there was none.  A load complains about a circle if
and only if its path is among them, and never in a run whose requires stay inside a graph without
cycles. -/
theorem Reachable.loads_exact (hP : Reachable code P) :
    P.store.registry.loading = Machine.loads P.machine.tasks ∧
    (Machine.loads P.machine.tasks).Nodup ∧
    (∀ path ∈ Machine.loads P.machine.tasks, P.store.registry.get? path = none) ∧
    (P.Idle → P.store.registry.loading = []) ∧
    (Machine.loads P.machine.tasks = [] →
      ∀ (setting : Setting) (levels : Nat) (e : Value) (scope : FrameId),
        ((eval setting levels e scope).run P.store).2.registry.loading = []) ∧
    ∀ (setting : Setting) (levels : Nat) (path : Path), setting.keepsModules = true →
      (((load setting (eval setting levels) path).run P.store).1 =
          .error (.lisp (.failedModule path (.circularRequire path))) ↔
        path ∈ Machine.loads P.machine.tasks) ∧
      ∀ edge : Path → Path → Prop, RequiresWithin code edge P →
        (∀ outer, (Machine.loads P.machine.tasks).head? = some outer → edge outer path) →
        (∀ p, ¬ Relation.TransGen edge p p) →
        ((load setting (eval setting levels) path).run P.store).1 ≠
          .error (.lisp (.failedModule path (.circularRequire path))) := by
  obtain ⟨settled, ho⟩ := reachable_orderly (fun h : False => h.elim) hP
  have hr := ho.machine.ready
  have hloading : P.store.registry.loading = Machine.loads P.machine.tasks := hr.loading
  refine ⟨hloading, hr.nodup, fun path hp => ?_, fun hi => ?_, fun hnone setting levels e scope => ?_,
    fun setting levels path hk => ?_⟩
  · exact hr.apart path (Registry.isLoading_iff.2 (hloading ▸ hp))
  · rw [hloading, hi.tasks]
    rfl
  · exact loading_eq_nil_of_eval (hloading.trans hnone)
  · have hiff : ((load setting (eval setting levels) path).run P.store).1 =
        .error (.lisp (.failedModule path (.circularRequire path))) ↔
          path ∈ Machine.loads P.machine.tasks :=
      hloading ▸ load_circular_iff hk hr.apart
    refine ⟨hiff, fun edge hw hedge hacyclic hcircle => ?_⟩
    exact hacyclic path (hw.cycle_of_mem hedge (hiff.1 hcircle))

end Process

/-! ## A file that requires itself -/

namespace SelfFile

/-- The text of a file that requires the file itself. -/
def text : List Char := "(require \"a\")".toList

/-- The expression in the file. -/
def form : Value := .list [.sym SpecialForm.require.keyword, .str "a"]

def setting : Setting := .ofFile (text.map fun c => c.toUInt8)

def path : Path := ⟨.root, ["a.lisp"]⟩

/-- One interpreter is open. -/
def before : Store := { Store.initial with heap := Prelude.install Heap.empty }

/-- The file is being loaded, and asks for itself. -/
def asking : Process :=
  ⟨[4], setting, ⟨.value (.str "a"), [.specifier 974 9, .form (some path) 975 9 [] none,
    .form none 980 4 [] none], before.opening path⟩⟩

theorem isCode_form : form.IsCode := by
  refine Value.isCode_list_iff.2 (List.forall_mem_cons.2 ⟨Value.isCode_sym _, ?_⟩)
  exact List.forall_mem_singleton.2 (Value.isCode_str _)

theorem ofText_text : Script.ofText setting.nestingLimit text = ⟨[form], none⟩ :=
  ReadingLoop.script_of_require (by decide) (by decide +kernel)

/-- The load of the file begins. -/
theorem enterLoad_eq (tasks : List Machine.Task) :
    Machine.enterLoad setting 979 path tasks before =
      ⟨.value .nil, .form (some path) 975 9 [form] none :: tasks, before.opening path⟩ := by
  have hnew : before.kept? setting path = none := rfl
  have hidle : before.registry.isLoading path = false := rfl
  have hread : setting.files.readText setting.here path = .ok text :=
    Setting.readText_ofFile _ (by decide +kernel)
  have htrim : Text.trimStart text = text := by decide +kernel
  simp only [Machine.enterLoad, hnew, hidle, hread, htrim, ofText_text]
  rfl

/-- The file comes to the point at which it asks for itself. -/
theorem runs_form (tasks : List Machine.Task) :
    Machine.Runs setting
      ⟨.value .nil, .form (some path) 975 9 [form] none :: tasks, before.opening path⟩
      ⟨.value (.str "a"), .specifier 974 9 :: .form (some path) 975 9 [] none :: tasks,
        before.opening path⟩ :=
  .head rfl (.head (congrArg some (Machine.enterExpr_form
    (SpecialForm.ofKeyword?_keyword .require) _ _ _ _ _)) (.head rfl .refl))

theorem asks {s : Store} {scope : FrameId}
    (hn : (s.heap.get? scope "a").bind Value.module? = none) : Asks setting s scope "a" path :=
  ⟨hn, Setting.modulePath_ofFile _⟩

theorem reachable_asking : Process.Reachable Value.IsCode asking := by
  have hscript : Process.Step Value.IsCode ⟨[4], setting, ⟨.value .nil, [], before⟩⟩
      ⟨[4], setting, .ofScript 980 4 ⟨[form], none⟩ before⟩ :=
    .script setting rfl rfl List.mem_cons_self (List.forall_mem_singleton.2 isCode_form)
  let rest : List Machine.Task := [.form none 980 4 [] none]
  have houter : Machine.Runs setting (.ofScript 980 4 ⟨[form], none⟩ before)
      ⟨.value (.str "a"), .specifier 979 4 :: rest, before⟩ :=
    .head rfl (.head (congrArg some (Machine.enterExpr_form
      (SpecialForm.ofKeyword?_keyword .require) _ _ _ _ _)) (.head rfl .refl))
  have hasks : Asks setting before 4 "a" path := asks (by decide +kernel)
  have hbegin : Machine.next setting ⟨.value (.str "a"), .specifier 979 4 :: rest, before⟩ =
      some ⟨.value .nil, .form (some path) 975 9 [form] none :: rest, before.opening path⟩ := by
    rw [← enterLoad_eq]
    exact congrArg some (hasks.enterRequire_eq 979 rest)
  have hruns : Machine.Runs setting (.ofScript 980 4 ⟨[form], none⟩ before) asking.machine :=
    houter.trans (.head hbegin (runs_form rest))
  exact ⟨setting, rfl, .head (.interpreter rfl) (.head hscript (Process.later_of_runs hruns))⟩

end SelfFile

/-- While a file that requires itself is evaluated, its path is the only one that is being loaded,
and the load that it asks for complains about the circle. -/
theorem Process.loads_exact_of_self_require :
    let P := SelfFile.asking
    Reachable Value.IsCode P ∧
    P.store.registry.loading = [SelfFile.path] ∧
    ((load SelfFile.setting (eval SelfFile.setting 970) SelfFile.path).run P.store).1 =
      .error (.lisp (.failedModule SelfFile.path (.circularRequire SelfFile.path))) := by
  intro P
  have hexact := SelfFile.reachable_asking.loads_exact
  have hloads : Machine.loads P.machine.tasks = [SelfFile.path] := rfl
  refine ⟨SelfFile.reachable_asking, hexact.1, ?_⟩
  obtain ⟨-, -, -, -, -, hload⟩ := hexact
  exact (hload SelfFile.setting 970 SelfFile.path rfl).1.2 (hloads ▸ List.mem_singleton_self _)

end SmallLisp
