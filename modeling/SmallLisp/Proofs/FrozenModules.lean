import SmallLisp.Proofs.Process

/-! # One module for each file, and frozen

When a `require` has given a module for a file, that module stays the one for the file: it is kept
under the path of the file, every later `require` of the path gives it without looking at the file
and without evaluating anything, and its frame holds what it held when its load was over, whatever
is evaluated afterwards.  So no file is evaluated to its end twice.

All of this is said of whole runs of a process: in any interpreters, with files and working
directories that change between evaluations, and at moments in the middle of an evaluation as well
(`Process.Returns.frozen`).
-/
namespace SmallLisp
open Evaluation

/-- In a scope a specifier means the file at a path: no module is bound to it, and it resolves to
that path. -/
structure Asks (setting : Setting) (s : Store) (scope : FrameId) (specifier : String)
    (path : Path) : Prop where
  unbound : (s.heap.get? scope specifier).bind Value.module? = none
  resolves : modulePath setting specifier = .ok path

/-- A `require` of the file at a path loads that path. -/
theorem Asks.run_load {setting : Setting} {s : Store} {scope : FrameId} {specifier : String}
    {path : Path} (h : Asks setting s scope specifier path) (eval : Evaluator) :
    (require setting eval scope specifier).run s = (load setting eval path).run s := by
  rw [run_require, h.unbound, h.resolves]

/-- If modules are kept, the module that a `require` gives for a file is kept. -/
theorem Asks.kept {setting : Setting} {eval : Evaluator} {s t : Store} {scope : FrameId}
    {specifier : String} {path : Path} {m : Module} (h : Asks setting s scope specifier path)
    (hk : setting.keepsModules = true)
    (hrun : (require setting eval scope specifier).run s = (.ok m, t)) :
    t.registry.get? path = some m := by
  rw [h.run_load] at hrun
  exact kept_of_load hk hrun

/-- The module of a file that is kept is given as it is. -/
theorem Asks.run_eq {setting : Setting} {s : Store} {scope : FrameId} {specifier : String}
    {path : Path} {m : Module} (h : Asks setting s scope specifier path)
    (hk : setting.keepsModules = true) (hm : s.registry.get? path = some m) (eval : Evaluator) :
    (require setting eval scope specifier).run s = (.ok m, s) := by
  rw [h.run_load, Evaluation.run_load]
  simp only [Store.kept?, if_pos hk, hm]

namespace Process

variable {code : Value → Prop} {P Q R : Process} {path : Path} {m : Module}

/-- At the first moment a `require` is about to look for the module of a path, and at the second
it has given that module. -/
inductive Returns (path : Path) (m : Module) : Process → Process → Prop
  | intro {roots : List FrameId} {setting : Setting} {v : Value} {levels : Nat} {scope : FrameId}
      {specifier : String} {tasks : List Machine.Task} {s t : Store}
      (hv : specifier? v = some specifier) (ha : Asks setting s scope specifier path)
      (hrun : (require setting (eval setting (levels - 4)) scope specifier).run s = (.ok m, t)) :
      Returns path m ⟨roots, setting, ⟨.value v, .specifier levels scope :: tasks, s⟩⟩
        ⟨roots, setting, ⟨.value (.module m), tasks, t⟩⟩

/-- The last expression of a module's file has been evaluated, and so the whole file. -/
inductive Completes (path : Path) : Process → Prop
  | intro {roots : List FrameId} {setting : Setting} {v : Value} {levels : Nat} {scope : FrameId}
      {tasks : List Machine.Task} {s : Store} :
      Completes path
        ⟨roots, setting, ⟨.value v, .form (some path) levels scope [] none :: tasks, s⟩⟩

/-- The module of a path at a moment is the one of an earlier moment, and its frame is as it was
then. -/
structure Frozen (path : Path) (m : Module) (R Q : Process) : Prop where
  kept : Q.store.registry.get? path = some m
  frame : Q.store.heap.frames[m.scope]? = R.store.heap.frames[m.scope]?
  /-- Whatever the files are and however expressions are evaluated, a `require` of the path gives
  the module and changes nothing. -/
  required : ∀ (setting : Setting) (eval : Evaluator) (scope : FrameId) (specifier : String),
    setting.keepsModules = true → Asks setting Q.store scope specifier path →
      (require setting eval scope specifier).run Q.store = (.ok m, Q.store)

/-- What a `require` returns, it returns at a later moment of the run. -/
theorem Returns.later (h : Returns path m P R) : Later code P R := by
  cases h with
  | @intro roots setting v levels scope specifier tasks s t hv ha hrun =>
    have hruns := Machine.runs_enterRequire (Machine.runs_eval setting (levels - 4)) scope specifier
      tasks s
    rw [hrun] at hruns
    refine later_of_runs (P := ⟨roots, setting, _⟩) (.head ?_ hruns)
    simp only [Machine.next, Machine.resume, hv]

/-- A module that is kept at some moment is kept ever after, with its frame as it is. -/
theorem Reachable.frozen (hP : Reachable code P) (hm : P.store.registry.get? path = some m)
    (hQ : Later code P Q) : Frozen path m P Q := by
  obtain ⟨settled, ho⟩ := reachable_orderly (fun h : False => h.elim) hP
  obtain ⟨settled', ho', ha⟩ := ho.later (fun h : False => h.elim) hQ
  have hkept := ha.kept path m hm
  refine ⟨hkept, ha.frames _ (ho.machine.ready.modules path m hm), ?_⟩
  intro setting eval scope specifier hk hasks
  exact hasks.run_eq hk hkept eval

/-- While a module is kept, its file is not evaluated to its end. -/
theorem Reachable.not_completes (hP : Reachable code P)
    (hm : P.store.registry.get? path = some m) : ¬ Completes path P := by
  rintro ⟨⟩
  obtain ⟨settled, ho⟩ := reachable_orderly (fun h : False => h.elim) hP
  have hr := ho.machine.ready
  have hl := hr.apart path (Registry.isLoading_iff.2 (by rw [hr.loading]; exact List.mem_cons_self))
  rw [store] at hm
  rw [hl] at hm
  cases hm

/-- When a file has been evaluated to its end, its module is kept. -/
theorem Reachable.kept_of_completes (hP : Reachable code P) (hc : Completes path P)
    (hs : Step code P Q) : ∃ m, Q.store.registry.get? path = some m := by
  obtain ⟨settled, ho⟩ := reachable_orderly (fun h : False => h.elim) hP
  have hk := ho.keeps
  cases hc
  rename_i roots setting v levels scope tasks s
  cases hs with
  | work hm =>
    cases hm
    refine ⟨⟨path.text, scope⟩, ?_⟩
    change ((s.closing path).keeping setting path ⟨path.text, scope⟩).registry.get? path = _
    rw [Store.keeping, if_pos hk]
    exact (Registry.get?_insert _ _ _ _).trans (if_pos rfl)
  | interpreter hi => cases hi
  | script _ hi => cases hi
  | call _ hi => cases hi

/-- **One module for each file, frozen once it is loaded.**  From the moment at which a `require`
has given a module for a path, every `require` of that path gives this module and does nothing
else, the frame of the module stays exactly as it is, no module that is kept is replaced by
another, and the file is not evaluated to its end again. -/
theorem Returns.module_frozen (hP : Reachable code P) (hr : Returns path m P R)
    (hQ : Later code R Q) :
    Frozen path m R Q ∧
    (∀ other m', R.store.registry.get? other = some m' → Frozen other m' R Q) ∧
    ¬ Completes path Q ∧
    ∀ other C C', Completes other Q → Step code Q C → Later code C C' → ¬ Completes other C' := by
  have hR : Reachable code R := hP.later hr.later
  have hkept : R.store.registry.get? path = some m := by
    obtain ⟨settled, ho⟩ := reachable_orderly (fun h : False => h.elim) hP
    have hk := ho.keeps
    cases hr with
    | intro hv ha hrun => exact ha.kept hk hrun
  have hfrozen := hR.frozen hkept hQ
  refine ⟨hfrozen, fun other m' hm' => hR.frozen hm' hQ, (hR.later hQ).not_completes hfrozen.kept, ?_⟩
  intro other C C' hc hs hl
  obtain ⟨m', hm'⟩ := (hR.later hQ).kept_of_completes hc hs
  have hC : Reachable code C := (hR.later hQ).later (.single hs)
  exact (hC.later hl).not_completes (hC.frozen hm' hl).kept

end Process

/-! ## A module in an empty file -/

/-- The usual limits, and one file `a.lisp` directly below the root. -/
def Setting.ofFile (bytes : List UInt8) : Setting :=
  Setting.standard ⟨⟨[(["a.lisp"], .file bytes)]⟩⟩ (.ofLocation [])

namespace Setting
variable (bytes : List UInt8)

theorem modulePath_ofFile : modulePath (ofFile bytes) "a" = .ok ⟨.root, ["a.lisp"]⟩ := by
  have hcandidate : candidatePath (ofFile bytes) "a" = .ok ⟨.root, ["a.lisp"]⟩ := by rfl
  have hname : (ofFile bytes).files.lookUpInFull [] "a.lisp" = .ok (.file bytes) := by rfl
  have hcanonical : (ofFile bytes).files.canonical [] ⟨.root, ["a.lisp"]⟩ = .ok ["a.lisp"] := by
    have horigin : FileTree.origin [] ⟨.root, ["a.lisp"]⟩ = [] := rfl
    rw [FileTree.canonical, horigin, FileTree.canonicalFrom, if_neg (by decide), hname]
    simp only [FileTree.canonicalFrom, List.nil_append]
  rw [modulePath, hcandidate]
  simp only [bind, Except.bind, hcanonical]
  rfl

theorem readText_ofFile {text : List Char} (h : Text.decode bytes = .ok text) :
    (ofFile bytes).files.readText (ofFile bytes).here ⟨.root, ["a.lisp"]⟩ = .ok text := by
  have hstart : (ofFile bytes).here.start ⟨.root, ["a.lisp"]⟩ = .ok ([], ["a.lisp"]) := by rfl
  have hname : (ofFile bytes).files.lookUp [] "a.lisp" = .ok (.file bytes) := by rfl
  have hwalk : (ofFile bytes).files.walk (ofFile bytes).here ⟨.root, ["a.lisp"]⟩ =
      .ok ["a.lisp"] := by
    rw [FileTree.walk, hstart]
    simp only [bind, Except.bind]
    rw [FileTree.walkFrom, if_neg (by decide), hname]
    simp only [FileTree.walkFrom, List.nil_append]
  have hnode : (ofFile bytes).files.node? ["a.lisp"] = some (.file bytes) := rfl
  rw [FileTree.readText, FileTree.read, hwalk]
  simp only [bind, Except.bind, hnode, pure, Except.pure, h]

end Setting

namespace Process

/-- An interpreter is opened, and then a module in an empty file is required: it stays the one for
its file. -/
theorem module_frozen_of_empty_file :
    let setting := Setting.ofFile []
    let path : Path := ⟨.root, ["a.lisp"]⟩
    let m : Module := ⟨path.text, 9⟩
    let s : Store := { Store.initial with heap := Prelude.install Heap.empty }
    let t : Store := ((s.opening path).closing path).keeping setting path m
    let rest : List Machine.Task := [.form none 980 4 [] none]
    let P : Process := ⟨[4], setting, ⟨.value (.str "a"), .specifier 979 4 :: rest, s⟩⟩
    let R : Process := ⟨[4], setting, ⟨.value (.module m), rest, t⟩⟩
    let Q : Process := ⟨[4], setting, ⟨.value (.module m), [], t⟩⟩
    Reachable Value.IsCode P ∧ Returns path m P R ∧ Later Value.IsCode R Q ∧
    Frozen path m R Q ∧
    (∀ other m', R.store.registry.get? other = some m' → Frozen other m' R Q) ∧
    ¬ Completes path Q ∧
    ∀ other C C', Completes other Q → Step Value.IsCode Q C → Later Value.IsCode C C' →
      ¬ Completes other C' := by
  intro setting path m s t rest P R Q
  let form : Value := .list [.sym SpecialForm.require.keyword, .str "a"]
  have hcode : form.IsCode := by
    refine Value.isCode_list_iff.2 fun v hv => ?_
    rcases List.mem_cons.1 hv with rfl | hv
    · exact Value.isCode_sym _
    · rw [List.mem_singleton.1 hv]
      exact Value.isCode_str _
  have hscript : Step Value.IsCode ⟨[4], setting, ⟨.value .nil, [], s⟩⟩
      ⟨[4], setting, .ofScript 980 4 ⟨[form], none⟩ s⟩ := by
    refine .script setting rfl rfl List.mem_cons_self fun v hv => ?_
    rw [List.mem_singleton.1 hv]
    exact hcode
  have hruns : Machine.Runs setting (.ofScript 980 4 ⟨[form], none⟩ s) P.machine :=
    .head rfl (.head (congrArg some (Machine.enterExpr_form
      (SpecialForm.ofKeyword?_keyword .require) _ _ _ _ _)) (.head rfl .refl))
  have hP : Reachable Value.IsCode P :=
    ⟨setting, rfl, .head (.interpreter rfl) (.head hscript (later_of_runs hruns))⟩
  have hasks : Asks setting s 4 "a" path := ⟨by decide +kernel, Setting.modulePath_ofFile []⟩
  have hdecode : Text.decode [] = .ok [] := by decide +kernel
  have hread : setting.files.readText setting.here path = .ok [] :=
    Setting.readText_ofFile [] hdecode
  have hnew : s.kept? setting path = none := rfl
  have hidle : s.registry.isLoading path = false := rfl
  have htrim : Text.trimStart [] = [] := rfl
  have hrun : (require setting (eval setting 975) 4 "a").run s = (.ok m, t) := by
    rw [run_require, hasks.unbound, hasks.resolves]
    simp only [run_load_file hnew hidle hread, runFile, htrim, Script.ofText_nil, run_runModule]
    rfl
  have hr : Returns path m P R := .intro rfl hasks hrun
  have hQ : Later Value.IsCode R Q := .single (.work rfl)
  exact ⟨hP, hr, hQ, hr.module_frozen hP hQ⟩

end Process

end SmallLisp
