import SmallLisp.Proofs.LoadStack

/-! # Loads that fail

A load that fails leaves no trace of its module, whichever expression failed, at whatever depth,
and in whatever way.  Its module is not kept, the loads in progress are what they were, and so is
every frame that was there.  What is kept that was not kept before are the modules of other files
whose evaluation came to its end meanwhile; a file that was given up is not among them.

The moments of a load are those of the machine that makes this load alone, above no tasks
(`Machine.Balanced` says how they lie above the loads that were in progress before).  Two ways lead
out of the row of loads in progress, and each is one kind of moment: a file has been evaluated to
its end (`Machine.Completes`), or it is given up (`Machine.GivesUp`).

Since nothing of the failed module is kept, the next load of the same file reads it and evaluates
it again from the beginning (`Evaluation.loadAnew`).
`Process.Reachable.failed_load_leaves_no_trace` puts this together.
-/
namespace SmallLisp
open Evaluation

namespace Evaluation

variable {setting : Setting} {eval : Evaluator} {levels : Nat} {path : Path} {s t : Store}
  {f : Fault}

/-- The load of a file as if for the first time: the file is read, and its expressions are
evaluated in a scope that has nothing but the prelude. -/
def loadAnew (setting : Setting) (eval : Evaluator) (path : Path) (s : Store) :
    Except Fault Module × Store :=
  match setting.files.readText setting.here path with
  | .error e => (.error (pathFault path e), s)
  | .ok text =>
    match (runFile setting eval (Prelude.rootOf s.heap) path text).run (s.opening path) with
    | (.error e, t) => (.error e, t.closing path)
    | (.ok _, t) =>
      (.ok ⟨path.text, Prelude.rootOf s.heap⟩,
        (t.closing path).keeping setting path ⟨path.text, Prelude.rootOf s.heap⟩)

theorem run_load_anew (hm : s.kept? setting path = none)
    (hl : s.registry.isLoading path = false) :
    (load setting eval path).run s = loadAnew setting eval path s := by
  rcases hread : setting.files.readText setting.here path with e | text
  · rw [run_load_unreadable hm hl hread, loadAnew, hread]
  · rw [run_load_file hm hl hread]
    simp only [loadAnew, hread]
    rcases (runFile setting eval (Prelude.rootOf s.heap) path text).run (s.opening path)
      with ⟨_ | _, t⟩ <;> rfl

/-- A load that fails does not keep its module. -/
theorem get?_eq_none_of_load_fails (hk : setting.keepsModules = true) (ha : s.registry.Apart)
    (hf : (load setting (Evaluation.eval setting levels) path).run s = (.error f, t)) :
    t.registry.get? path = none := by
  rcases hm : s.kept? setting path with _ | m
  · have hget : s.registry.get? path = none := kept?_eq_none hk hm
    by_cases hl : s.registry.isLoading path = true
    · rw [run_load_circular hm hl] at hf
      cases hf
      exact hget
    · have hl : s.registry.isLoading path = false := Bool.eq_false_iff.2 hl
      rcases hread : setting.files.readText setting.here path with e | text
      · rw [run_load_unreadable hm hl hread] at hf
        cases hf
        exact hget
      · rw [run_load_file hm hl hread] at hf
        have hfile := runModule_evolves (eval_evolves setting levels) path
          (Prelude.rootOf s.heap) (Script.ofText setting.nestingLimit (Text.trimStart text))
          (s.opening path)
        rw [← runFile] at hfile
        rcases hr : (runFile setting (Evaluation.eval setting levels) (Prelude.rootOf s.heap) path
          text).run (s.opening path) with ⟨e | _, u⟩
        · rw [hr] at hf hfile
          cases hf
          -- until the end of its load the path was one that was being loaded
          have happart : u.registry.Apart :=
            hfile.registry.apart hk (Registry.Grows.apart_beginLoad ha hget)
          refine happart path ?_
          rw [hfile.registry.isLoading]
          simp only [Store.opening, Registry.isLoading_beginLoad, decide_true, Bool.true_or]
        · rw [hr] at hf
          cases hf
  · rw [run_load_kept hm] at hf
    cases hf

end Evaluation

namespace Machine

/-- A file has been evaluated to its end, and its load is about to end with a module. -/
inductive Completes (path : Path) (m : Module) : Machine → Prop
  | intro {v : Value} {levels : Nat} {tasks : List Task} {s : Store} (hm : m.name = path.text) :
      Completes path m ⟨.value v, .form (some path) levels m.scope [] none :: tasks, s⟩

/-- A load is given up: because of a fault in the evaluation of its file, or because the rest of
the file cannot be read. -/
inductive GivesUp (path : Path) : Machine → Prop
  | fault {f : Fault} {levels : Nat} {scope : FrameId} {rest : List Value}
      {stop? : Option ReadingStop} {tasks : List Task} {s : Store} :
      GivesUp path ⟨.fault f, .form (some path) levels scope rest stop? :: tasks, s⟩
  | unread {v : Value} {levels : Nat} {scope : FrameId} {stop : ReadingStop} {tasks : List Task}
      {s : Store} :
      GivesUp path ⟨.value v, .form (some path) levels scope [] (some stop) :: tasks, s⟩

/-- The loads of a machine lie above those that were in progress before it was started. -/
structure Balanced (outside : List Path) (m : Machine) : Prop where
  loading : m.store.registry.loading = loads m.tasks ++ outside
  nodup : (loads m.tasks ++ outside).Nodup
  apart : m.store.registry.Apart

variable {setting : Setting} {outside : List Path} {m m' : Machine} {path : Path} {mod : Module}

/-- When the innermost load is over, the others are balanced. -/
theorem Balanced.closing {control control' : Control} {levels : Nat} {scope : FrameId}
    {rest : List Value} {stop? : Option ReadingStop} {tasks : List Task} {s : Store}
    (h : Balanced outside ⟨control, .form (some path) levels scope rest stop? :: tasks, s⟩) :
    Balanced outside ⟨control', tasks, s.closing path⟩ := by
  have hnodup : path ∉ loads tasks ++ outside ∧ (loads tasks ++ outside).Nodup :=
    List.nodup_cons.1 h.nodup
  refine ⟨loading_endLoad_of_cons h.loading hnodup.1, hnodup.2, fun other ho => ?_⟩
  have ho' : (s.registry.endLoad path).isLoading other = true := ho
  rw [Registry.isLoading_endLoad, Bool.and_eq_true] at ho'
  exact h.apart other ho'.2

theorem Balanced.step (hk : setting.keepsModules = true) (h : Balanced outside m)
    (hs : LoadStep setting m m') : Balanced outside m' := by
  cases hs with
  | quiet hl hr _ =>
    refine ⟨?_, ?_, ?_⟩
    · rw [hl, hr]
      exact h.loading
    · rw [hl]
      exact h.nodup
    · rw [hr]
      exact h.apart
  | @begins v specifier path levels scope tasks s m' _ _ hkept hn hl hr _ =>
    have hloading : s.registry.loading = loads tasks ++ outside := h.loading
    have hnot : path ∉ loads tasks ++ outside := by
      rw [← hloading, ← Registry.isLoading_iff, hn]
      exact Bool.false_ne_true
    refine ⟨?_, ?_, ?_⟩
    · rw [hl, hr, Registry.beginLoad, if_neg (by simp [hn])]
      exact congrArg (path :: ·) hloading
    · rw [hl]
      exact List.nodup_cons.2 ⟨hnot, h.nodup⟩
    · rw [hr]
      exact Registry.Grows.apart_beginLoad h.apart (kept?_eq_none hk hkept)
  | completes path v levels scope tasks s =>
    have hc : Balanced outside ⟨.value (.module ⟨path.text, scope⟩), tasks, s.closing path⟩ :=
      h.closing
    have hpath : path ∉ loads tasks ++ outside := (List.nodup_cons.1 h.nodup).1
    rw [Store.keeping, if_pos hk]
    refine ⟨hc.loading, hc.nodup, fun other ho => ?_⟩
    have hmem : other ∈ loads tasks ++ outside := hc.loading ▸ Registry.isLoading_iff.1 ho
    have hne : path ≠ other := fun he => hpath (he ▸ hmem)
    exact (Registry.get?_insert _ _ _ _).trans ((if_neg hne).trans (hc.apart other ho))
  | fails => exact h.closing

theorem Balanced.runs (hk : setting.keepsModules = true) (h : Balanced outside m)
    (hr : Runs setting m m') : Balanced outside m' := by
  induction hr with
  | refl => exact h
  | tail _ hs ih => exact ih.step hk (next_loadStep hs)

/-- The load of a file begins balanced above the loads in progress. -/
theorem balanced_enterLoad (hk : setting.keepsModules = true) {s : Store} (levels : Nat)
    (path : Path) (ha : s.registry.Apart) (hn : s.registry.loading.Nodup) :
    Balanced s.registry.loading (enterLoad setting levels path [] s) := by
  have hshape := enterLoad_shape setting levels path [] s
  generalize enterLoad setting levels path [] s = m at hshape ⊢
  cases hshape with
  | kept => exact ⟨rfl, hn, ha⟩
  | refused => exact ⟨rfl, hn, ha⟩
  | begins hkept hl =>
    refine ⟨?_, ?_, ?_⟩
    · simp only [Store.opening, Registry.beginLoad, hl, Bool.false_eq_true, if_false]
      rfl
    · refine List.nodup_cons.2 ⟨fun hmem => ?_, hn⟩
      rw [Registry.isLoading_iff.2 hmem] at hl
      cases hl
    · exact Registry.Grows.apart_beginLoad ha (kept?_eq_none hk hkept)

/-- When the load of a file begins, nothing is kept yet that was not. -/
theorem get?_enterLoad (setting : Setting) (levels : Nat) (path other : Path) (s : Store) :
    (enterLoad setting levels path [] s).store.registry.get? other = s.registry.get? other := by
  have hshape := enterLoad_shape setting levels path [] s
  generalize enterLoad setting levels path [] s = m at hshape ⊢
  cases hshape with
  | begins => exact Registry.Grows.get?_beginLoad _ _ _
  | _ => rfl

/-- A file whose load is given up at some moment has no module at that moment. -/
theorem Balanced.get?_of_givesUp (h : Balanced outside m) (hg : m.GivesUp path) :
    m.store.registry.get? path = none := by
  have hmem : path ∈ loads m.tasks := by
    cases hg with
    | fault => exact List.mem_cons_self
    | unread => exact List.mem_cons_self
  refine h.apart path (Registry.isLoading_iff.2 ?_)
  rw [h.loading]
  exact List.mem_append_left _ hmem

/-- The only way for a module to become one that is kept is that its file has been evaluated. -/
theorem LoadStep.kept (hs : LoadStep setting m m')
    (hget : m'.store.registry.get? path = some mod) :
    m.store.registry.get? path = some mod ∨ m.Completes path mod := by
  cases hs with
  | quiet _ hr _ =>
    rw [hr] at hget
    exact .inl hget
  | begins _ _ _ _ _ hr _ =>
    rw [hr, Registry.Grows.get?_beginLoad] at hget
    exact .inl hget
  | completes other v levels scope tasks s =>
    rw [Store.keeping] at hget
    by_cases hk : setting.keepsModules = true
    · simp only [if_pos hk, Registry.get?_insert] at hget
      by_cases hother : other = path
      · rw [if_pos hother] at hget
        cases hget
        subst hother
        exact .inr (.intro rfl)
      · rw [if_neg hother] at hget
        exact .inl hget
    · rw [if_neg hk] at hget
      exact .inl hget
  | fails => exact .inl hget

/-- A module that is kept at the end of a run and not at its beginning is one whose file has been
evaluated on the way. -/
theorem Runs.kept (hr : Runs setting m m') (hget : m'.store.registry.get? path = some mod) :
    m.store.registry.get? path = some mod ∨ ∃ c, Runs setting m c ∧ c.Completes path mod := by
  induction hr with
  | refl => exact .inl hget
  | tail hr hs ih =>
    rcases (next_loadStep hs).kept hget with hb | hc
    · exact ih hb
    · exact .inr ⟨_, hr, hc⟩

/-- From a fault on nothing is kept that was not kept. -/
theorem Runs.get?_of_fault {f : Fault} (hr : Runs setting m m') (hf : m.control = .fault f)
    (path : Path) : m'.store.registry.get? path = m.store.registry.get? path := by
  suffices h : (∃ f', m'.control = .fault f') ∧
      m'.store.registry.get? path = m.store.registry.get? path from h.2
  induction hr with
  | refl => exact ⟨⟨f, hf⟩, rfl⟩
  | @tail b c _ hs ih =>
    obtain ⟨⟨f', hf'⟩, hget⟩ := ih
    obtain ⟨control, tasks, s⟩ := b
    cases hf'
    rcases tasks with _ | ⟨task, tasks⟩
    · cases hs
    · cases hs
      rcases task with _ | _ | _ | _ | _ | ⟨_ | other, _, _, _, _⟩ <;> exact ⟨⟨_, rfl⟩, hget⟩

/-- A file whose load is given up has no module at the end of the run either. -/
theorem Balanced.get?_after_givesUp {f : Fault} {tasks : List Task} {t : Store}
    (h : Balanced outside m) (hg : m.GivesUp path) (hr : Runs setting m ⟨.fault f, tasks, t⟩) :
    t.registry.get? path = none := by
  have hnone := h.get?_of_givesUp hg
  cases hg with
  | fault => exact (hr.get?_of_fault rfl path).trans hnone
  | unread =>
    rcases hr.cases_head with heq | ⟨c, hc, hrest⟩
    · cases heq
    · cases hc
      exact (Runs.get?_of_fault hrest rfl path).trans hnone

/-- A load that fails is a run of the machine to its fault. -/
theorem runs_of_load_fails {levels : Nat} {s t : Store} {f : Fault}
    (hf : (load setting (eval setting levels) path).run s = (.error f, t)) :
    Runs setting (enterLoad setting (levels + 4) path [] s) ⟨.fault f, [], t⟩ := by
  have hsimulates : Simulates setting (levels + 4 - 4) (eval setting levels) :=
    runs_eval setting levels
  have h := runs_enterLoad hsimulates path [] s
  rw [hf] at h
  exact h

/-- A run goes through every moment of another one up to its end. -/
theorem Runs.to_done {a b : Machine} (ha : Runs setting m a) (hb : Runs setting m b)
    (hd : b.next setting = none) : Runs setting a b := by
  induction ha using Relation.ReflTransGen.head_induction_on with
  | refl => exact hb
  | head hs _ ih =>
    rcases hb.cases_head with rfl | ⟨c, hc, hcb⟩
    · rw [hd] at hs
      cases hs
    · rw [hs] at hc
      cases hc
      exact ih hcb

end Machine

namespace Process

variable {code : Value → Prop} {P Q R : Process} {path : Path} {mod : Module}

/-- A module that is kept at a later moment and not at an earlier one is one whose file has been
evaluated in between. -/
theorem Later.kept (h : Later code R Q) (hget : Q.store.registry.get? path = some mod) :
    R.store.registry.get? path = some mod ∨
      ∃ C, Later code R C ∧ Later code C Q ∧ Completes path C := by
  induction h with
  | refl => exact .inl hget
  | @tail B Q hl hs ih =>
    have hbefore : B.store.registry.get? path = some mod ∨ Completes path B := by
      cases hs with
      | @work m hm =>
        rcases (Machine.next_loadStep hm).kept hget with hb | hc
        · exact .inl hb
        · obtain ⟨roots, setting, machine⟩ := B
          cases hc
          exact .inr .intro
      | interpreter hi => exact .inl hget
      | script setting hi hk hr hc => exact .inl hget
      | @call setting f args hi hk hf ha =>
        have hq : Machine.Quiet [] B.store
            (.ofCall setting.writingLimit setting.depthLimit f args B.store) :=
          Machine.enter_quiet _ f args
        rw [store, hq.registry] at hget
        exact .inl hget
    rcases hbefore with hb | hc
    · rcases ih hb with hr | ⟨C, hRC, hCB, hC⟩
      · exact .inl hr
      · exact .inr ⟨C, hRC, hCB.tail hs, hC⟩
    · exact .inr ⟨B, hl, .single hs, hc⟩

/-- A file has no module as long as its evaluation does not come to its end. -/
theorem Later.get?_eq_none (h : Later code R Q) (hR : R.store.registry.get? path = none)
    (hnot : ∀ C, Later code R C → Later code C Q → ¬ Completes path C) :
    Q.store.registry.get? path = none := by
  rcases hm : Q.store.registry.get? path with _ | m
  · rfl
  · rcases h.kept hm with hR' | ⟨C, hRC, hCQ, hC⟩
    · rw [hR] at hR'
      cases hR'
    · exact absurd hC (hnot C hRC hCQ)

/-- A file without a module has not been evaluated to its end before. -/
theorem Reachable.not_completes_before (hP : Reachable code P) (hl : Later code P Q)
    (hn : ¬ Completes path Q) (hget : Q.store.registry.get? path = none) : ¬ Completes path P := by
  intro hc
  rcases hl.cases_head with rfl | ⟨R, hs, hrest⟩
  · exact hn hc
  · obtain ⟨m, hm⟩ := hP.kept_of_completes hc hs
    have hkept := ((hP.later (.single hs)).frozen hm hrest).kept
    rw [hget] at hkept
    cases hkept

/-- At any moment of a run, the load of a file begins balanced. -/
theorem Reachable.balanced_enterLoad (hP : Reachable code P) {setting : Setting}
    (hk : setting.keepsModules = true) (levels : Nat) (path : Path) :
    Machine.Balanced P.store.registry.loading
      (Machine.enterLoad setting levels path [] P.store) := by
  obtain ⟨settled, ho⟩ := reachable_orderly (fun h : False => h.elim) hP
  have hready := ho.machine.ready
  refine Machine.balanced_enterLoad hk levels path hready.apart ?_
  rw [show P.store.registry.loading = Machine.loads P.machine.tasks from hready.loading]
  exact hready.nodup

/-- **A load that fails leaves no trace of its module.**  However it fails, its module is not kept
afterwards, the loads in progress are what they were, no frame that was there has changed, and
what was kept is kept.  What is kept that was not is the module of a file that was evaluated to its
end inside the failing load; no file whose load was given up there has a module.  As long as no
evaluation of the file comes to its end, every load of it that is not inside a load of it reads the
file and evaluates it from the beginning, in a scope that did not exist. -/
theorem Reachable.failed_load_leaves_no_trace (hP : Reachable code P) {setting : Setting}
    (hk : setting.keepsModules = true) {levels : Nat} {f : Fault} {t : Store}
    (hf : (load setting (eval setting levels) path).run P.store = (.error f, t)) :
    let start := Machine.enterLoad setting (levels + 4) path [] P.store
    t.registry.get? path = none ∧
    t.registry.loading = P.store.registry.loading ∧
    (∀ id, id < P.store.heap.size → t.heap.frames[id]? = P.store.heap.frames[id]?) ∧
    (∀ other m, P.store.registry.get? other = some m → t.registry.get? other = some m) ∧
    Machine.Runs setting start ⟨.fault f, [], t⟩ ∧
    (∀ other m, t.registry.get? other = some m → P.store.registry.get? other = some m ∨
      ∃ c, Machine.Runs setting start c ∧ c.Completes other m) ∧
    (∀ other c, Machine.Runs setting start c → c.GivesUp other →
      t.registry.get? other = none) ∧
    ∀ R Q : Process, R.store = t → Later code R Q →
      (∀ C, Later code R C → Later code C Q → ¬ Completes path C) →
      Q.store.registry.isLoading path = false →
      Q.store.heap.size ≤ Prelude.rootOf Q.store.heap ∧
      ∀ (setting' : Setting) (levels' : Nat),
        (load setting' (eval setting' levels') path).run Q.store =
          loadAnew setting' (eval setting' levels') path Q.store := by
  intro start
  obtain ⟨settled, ho⟩ := reachable_orderly (fun h : False => h.elim) hP
  have happart : P.store.registry.Apart := ho.machine.ready.apart
  have hgone : t.registry.get? path = none := get?_eq_none_of_load_fails hk happart hf
  -- no frame is one that the load may write into
  have hevolves := load_evolves (eval_evolves setting levels) path P.store.heap.size
    (fun _ => False) P.store
  rw [hf] at hevolves
  have hruns : Machine.Runs setting start ⟨.fault f, [], t⟩ := Machine.runs_of_load_fails hf
  have hbalanced : Machine.Balanced P.store.registry.loading start :=
    hP.balanced_enterLoad hk (levels + 4) path
  refine ⟨hgone, hevolves.registry.loading, fun id hid => ?_, hevolves.registry.kept hk happart,
    hruns, fun other m hm => ?_, fun other c hc hg => ?_, fun R Q hR hQ hnot hl => ?_⟩
  · exact hevolves.frames id hid (Nat.ne_of_lt hid)
  · rcases hruns.kept hm with hstart | hc
    · rw [Machine.get?_enterLoad] at hstart
      exact .inl hstart
    · exact .inr hc
  · exact (hbalanced.runs hk hc).get?_after_givesUp hg (hc.to_done hruns rfl)
  · refine ⟨Heap.size_le_rootOf _, fun setting' levels' => run_load_anew ?_ hl⟩
    have hnone : Q.store.registry.get? path = none :=
      hQ.get?_eq_none (hR ▸ hgone) hnot
    rw [Store.kept?]
    split
    · exact hnone
    · rfl

end Process

namespace SelfFile

/-- The failure of a load of the file that is not inside another one. -/
def failure : Fault := .lisp (.failedModule path (.failedModule path (.circularRequire path)))

/-- The state after such a load. -/
def afterwards : Store := (before.opening path).closing path

/-- The file, asking for itself, is given up. -/
theorem runs_failure (tasks : List Machine.Task) :
    Machine.Runs setting
      ⟨.value (.str "a"), .specifier 974 9 :: .form (some path) 975 9 [] none :: tasks,
        before.opening path⟩
      ⟨.fault failure, tasks, afterwards⟩ := by
  have hkept : (before.opening path).kept? setting path = none := rfl
  have hloading : (before.opening path).registry.isLoading path = true := by decide
  have hasks : Asks setting (before.opening path) 9 "a" path := asks (by decide +kernel)
  refine .head (congrArg some (hasks.enterRequire_eq 974 _)) ?_
  simp only [Machine.enterLoad, hkept, hloading, if_true]
  exact .single rfl

theorem run_load :
    (load setting (eval setting 975) path).run before = (.error failure, afterwards) := by
  have hruns : Machine.Runs setting (Machine.enterLoad setting 979 path [] before)
      ⟨.fault failure, [], afterwards⟩ := by
    rw [enterLoad_eq]
    exact (runs_form []).trans (runs_failure [])
  have hsimulates : Machine.Simulates setting (979 - 4) (eval setting 975) :=
    Machine.runs_eval setting 975
  have hload := Machine.runs_enterLoad hsimulates path [] before
  rcases hrun : (load setting (eval setting 975) path).run before with ⟨f | m, t⟩
  · rw [hrun] at hload
    cases hload.done_unique hruns rfl rfl
    rfl
  · rw [hrun] at hload
    cases hload.done_unique hruns rfl rfl

/-- The load has failed, and so has the evaluation that asked for it. -/
def failed : Process := ⟨[4], setting, ⟨.fault failure, [], afterwards⟩⟩

theorem later_failed : Process.Later Value.IsCode asking failed :=
  Process.later_of_runs ((runs_failure [.form none 980 4 [] none]).tail rfl)

end SelfFile

/-- The load of a file that requires itself fails and leaves no trace: if it is loaded again, it is
read and evaluated again. -/
theorem Process.failed_load_of_self_require :
    let P : Process := ⟨[4], SelfFile.setting, ⟨.value .nil, [], SelfFile.before⟩⟩
    let R := SelfFile.failed
    Reachable Value.IsCode P ∧
    (load SelfFile.setting (eval SelfFile.setting 975) SelfFile.path).run P.store =
      (.error SelfFile.failure, R.store) ∧
    R.store.registry.get? SelfFile.path = none ∧
    R.store.registry.loading = [] ∧
    ∀ levels, (load SelfFile.setting (eval SelfFile.setting levels) SelfFile.path).run R.store =
      loadAnew SelfFile.setting (eval SelfFile.setting levels) SelfFile.path R.store := by
  intro P R
  have hP : Reachable Value.IsCode P := ⟨SelfFile.setting, rfl, .single (.interpreter rfl)⟩
  have hidle : ¬ Completes SelfFile.path SelfFile.failed := by
    intro hc
    cases hc
  obtain ⟨hgone, hloading, -, -, -, -, -, hagain⟩ :=
    hP.failed_load_leaves_no_trace rfl SelfFile.run_load
  refine ⟨hP, SelfFile.run_load, hgone, hloading, ?_⟩
  refine (hagain R R rfl .refl (fun C hRC hCR => ?_) rfl).2 SelfFile.setting
  have hC : Reachable Value.IsCode C :=
    (SelfFile.reachable_asking.later SelfFile.later_failed).later hRC
  exact hC.not_completes_before hCR hidle hgone

end SmallLisp
