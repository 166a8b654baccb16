import SmallLisp.Program
import SmallLisp.Proofs.LoadSteps
import SmallLisp.Proofs.PathFaults
import SmallLisp.Proofs.ReadingLoops

/-! # What ends an evaluation

An evaluation that gives no value ends with an error of the language or because it went too deep,
and both can be told to the user and survived.  There is one exception: a fault of a path passes
through everything, the modules that are being loaded included, and ends the console and the
program with it.

Such a fault comes from one place only, a `require` that looks for the file of its specifier
(`Store.fileFault?`); no other step of an evaluation makes one (`Machine.origin_of_fault`).  And
from there it always reaches the end (`Machine.runs_of_isOfPath`).  So an evaluation ends with a
fault of a path exactly if on its way a module is required whose file is missed like this
(`Machine.script_fault_iff`), which takes the character U+0000 in the specifier, the working
directory or a link, or else a link that leads back to itself.

What stands around an evaluation tells every other failure and goes on (`report`).
`Interpreter.failures_told` puts this together for the console and for programs.
-/
namespace SmallLisp
open Evaluation

/-- The fault with which looking for the file of a specifier ends: the specifier leads nowhere, or
the file that it leads to is to be read and cannot be. -/
def Store.fileFault? (setting : Setting) (specifier : String) (s : Store) : Option Fault :=
  match modulePath setting specifier with
  | .error f => some f
  | .ok path =>
    if (s.kept? setting path).isNone ∧ s.registry.isLoading path = false then
      match setting.files.readText setting.here path with
      | .error e => some (pathFault path e)
      | .ok _ => none
    else none

theorem Store.explained_of_fileFault {setting : Setting} {specifier : String} {s : Store}
    {f : Fault} (h : s.fileFault? setting specifier = some f) : f.Explained setting specifier := by
  unfold Store.fileFault? at h
  split at h
  next f' hpath =>
    cases h
    exact explained_of_modulePath hpath
  next path hpath =>
    split at h
    · split at h
      next e hread =>
        cases h
        exact explained_of_readText hpath hread
      · cases h
    · cases h

theorem Fault.isOfPath_of_isPlain {f : Fault} (h : f.isPlain = true) : f.isOfPath = false := by
  cases f with
  | nullInPath => cases h
  | linkLoop path => cases h
  | _ => rfl

theorem Fault.through_of_isOfPath {f : Fault} (h : f.isOfPath = true) (paths : List Path) :
    f.through paths = f := by
  cases f with
  | lisp e => cases h
  | _ => rfl

theorem Fault.eq_of_leaving {f g : Fault} {path : Path} (h : f.leaving path = g)
    (hg : g.isOfPath = true) : f = g := by
  subst h
  cases f with
  | lisp e => cases hg
  | _ => rfl

namespace Machine

/-- At a moment a module is required by a specifier to which none is bound, and the search for its
file ends with a fault. -/
inductive MissesFile (setting : Setting) (specifier : String) (f : Fault) : Machine → Prop
  | intro {v : Value} {levels : Nat} {scope : FrameId} {tasks : List Task} {s : Store}
      (hv : specifier? v = some specifier)
      (hu : (s.heap.get? scope specifier).bind Value.module? = none)
      (hf : s.fileFault? setting specifier = some f) :
      MissesFile setting specifier f ⟨.value v, .specifier levels scope :: tasks, s⟩

section Steps
variable {setting : Setting} {specifier : String} {f : Fault} {m m' : Machine}

theorem enterRequire_of_fileFault {levels : Nat} {scope : FrameId} {s : Store}
    (hu : (s.heap.get? scope specifier).bind Value.module? = none)
    (hf : s.fileFault? setting specifier = some f) (tasks : List Task) :
    enterRequire setting levels scope specifier tasks s = ⟨.fault f, tasks, s⟩ := by
  rw [enterRequire, hu]
  unfold Store.fileFault? at hf
  split at hf
  next f' hpath =>
    cases hf
    simp only [hpath]
  next path hpath =>
    split at hf
    next hnew =>
      split at hf
      next e hread =>
        cases hf
        simp only [hpath, enterLoad, Option.isNone_iff_eq_none.1 hnew.1, hnew.2, hread,
          Bool.false_eq_true, if_false]
      · cases hf
    · cases hf

/-- A `require` that ends with a fault of a path at once has missed its file. -/
theorem fileFault_of_enterRequire {levels : Nat} {scope : FrameId} {s : Store} {tasks : List Task}
    (h : (enterRequire setting levels scope specifier tasks s).control = .fault f)
    (hf : f.isOfPath = true) :
    (s.heap.get? scope specifier).bind Value.module? = none ∧
      s.fileFault? setting specifier = some f := by
  have hshape := enterRequire_shape setting levels scope specifier tasks s
  generalize enterRequire setting levels scope specifier tasks s = m' at hshape h
  cases hshape with
  | bound => cases h
  | nowhere hu hp =>
    cases h
    refine ⟨hu, ?_⟩
    unfold Store.fileFault?
    rw [hp]
  | @asks path ha =>
    refine ⟨ha.unbound, ?_⟩
    unfold Store.fileFault?
    rw [ha.resolves]
    have hload := enterLoad_shape setting levels path tasks s
    generalize enterLoad setting levels path tasks s = m' at hload h
    cases hload with
    | refused hr =>
      cases hr with
      | circular =>
        cases h
        cases hf
      | unreadable hk hn hread =>
        rw [Fault.through_nil] at h
        cases h
        have hidle := Bool.eq_false_iff.2 (mt Registry.isLoading_iff.1 hn)
        simp only [if_pos (And.intro (Option.isNone_iff_eq_none.2 hk) hidle), hread]
    | _ => cases h

/-- A value that a task gets leads to a fault of a path only if it is the specifier of a module
whose file is missed. -/
theorem missesFile_of_resume {v : Value} {task : Task} {tasks : List Task} {s : Store}
    (h : (resume setting v task tasks s).control = .fault f) (hf : f.isOfPath = true) :
    ∃ specifier, MissesFile setting specifier f ⟨.value v, task :: tasks, s⟩ := by
  have hplain : (resume setting v task tasks s).control.Plain →
      ∃ specifier, MissesFile setting specifier f ⟨.value v, task :: tasks, s⟩ := by
    intro hp
    rw [h] at hp
    rw [Fault.isOfPath_of_isPlain hp] at hf
    cases hf
  cases task with
  | head levels scope args =>
    have hquiet : Quiet tasks s
        (continueCall setting.writingLimit levels scope v [] args tasks s) :=
      continueCall_quiet levels scope v [] args
    exact hplain hquiet.plain
  | argument levels scope g done rest =>
    have hquiet : Quiet tasks s
        (continueCall setting.writingLimit levels scope g (v :: done) rest tasks s) :=
      continueCall_quiet levels scope g (v :: done) rest
    exact hplain hquiet.plain
  | definition scope name => exact hplain trivial
  | branch levels scope consequence alternative? =>
    refine hplain ?_
    simp only [resume]
    split
    · trivial
    · split <;> trivial
  | specifier levels scope =>
    simp only [resume] at h
    split at h
    · cases h
      rw [Fault.isOfPath_of_isPlain (isPlain_wrongType _ v)] at hf
      cases hf
    next specifier hv =>
      obtain ⟨hu, hfault⟩ := fileFault_of_enterRequire h hf
      exact ⟨specifier, .intro hv hu hfault⟩
  | form module? levels scope rest stop? =>
    cases rest with
    | cons expr rest => exact hplain trivial
    | nil =>
      rcases module? with _ | path <;> rcases stop? with _ | _ | _
      · cases h
      · exact hplain rfl
      · exact hplain rfl
      · cases h
      · cases h
        cases hf
      · exact hplain rfl

/-- **Only a `require` makes a fault of a path**: any other step passes one on at most. -/
theorem origin_of_fault (h : m.next setting = some m') (hm' : m'.control = .fault f)
    (hf : f.isOfPath = true) :
    m.control = .fault f ∨ ∃ specifier, m.MissesFile setting specifier f := by
  obtain ⟨control, tasks, s⟩ := m
  cases control with
  | expr levels e scope =>
    exfalso
    cases levels with
    | zero =>
      cases h
      cases hm'
      cases hf
    | succ levels =>
      cases h
      have hquiet : Quiet tasks s (enterExpr setting.writingLimit levels e scope tasks s) :=
        enterExpr_quiet levels e scope
      have hplain := hquiet.plain
      rw [hm'] at hplain
      rw [Fault.isOfPath_of_isPlain hplain] at hf
      cases hf
  | value v =>
    cases tasks with
    | nil => cases h
    | cons task tasks =>
      cases h
      exact .inr (missesFile_of_resume hm' hf)
  | fault g =>
    cases tasks with
    | nil => cases h
    | cons task tasks =>
      cases h
      refine .inl (congrArg Control.fault ?_)
      simp only [drop] at hm'
      split at hm'
      · cases hm'
        exact Fault.eq_of_leaving rfl hf
      · cases hm'
        rfl

/-- A fault of a path, once it is there, is where the evaluation ends. -/
theorem runs_of_isOfPath (setting : Setting) (hf : f.isOfPath = true) (tasks : List Task)
    (s : Store) :
    ∃ t, Runs setting ⟨.fault f, tasks, s⟩ ⟨.fault f, [], t⟩ := by
  have hruns := runs_fault setting f tasks s
  rwa [Fault.through_of_isOfPath hf] at hruns

theorem MissesFile.runs (h : m.MissesFile setting specifier f) (hf : f.isOfPath = true) :
    ∃ t, Runs setting m ⟨.fault f, [], t⟩ := by
  cases h with
  | @intro v levels scope tasks s hv hu hfault =>
    obtain ⟨t, ht⟩ := runs_of_isOfPath setting hf tasks s
    refine ⟨t, .of_next ?_ ht⟩
    simp only [next, resume, hv, enterRequire_of_fileFault hu hfault]

/-- A run that comes to a fault of a path has begun with it or has come by a moment at which a file
is missed. -/
theorem Runs.origin_of_fault (h : Runs setting m m') (hm' : m'.control = .fault f)
    (hf : f.isOfPath = true) :
    m.control = .fault f ∨ ∃ specifier between, Runs setting m between ∧
      between.MissesFile setting specifier f := by
  induction h with
  | refl => exact .inl hm'
  | tail hruns hs ih =>
    rcases Machine.origin_of_fault hs hm' hf with hcontrol | ⟨specifier, hmisses⟩
    · exact ih hcontrol
    · exact .inr ⟨specifier, _, hruns, hmisses⟩

end Steps

/-- **An evaluation ends with a fault of a path exactly if a file is missed on its way.** -/
theorem script_fault_iff (setting : Setting) (levels : Nat) (scope : FrameId) (script : Script)
    (s : Store) {f : Fault} (hf : f.isOfPath = true) :
    (∃ t, (runScript (Evaluation.eval setting levels) scope script).run s = (.error f, t)) ↔
      ∃ specifier m, Runs setting (ofScript levels scope script s) m ∧
        m.MissesFile setting specifier f := by
  have hruns := runs_script setting levels scope script s
  constructor
  · rintro ⟨t, hrun⟩
    rw [hrun] at hruns
    rcases hruns.origin_of_fault rfl hf with hcontrol | hmisses
    · cases hcontrol
    · exact hmisses
  · rintro ⟨specifier, m, hm, hmisses⟩
    obtain ⟨t, ht⟩ := hmisses.runs hf
    have hend := hruns.done_unique (hm.trans ht) (next_after_nil _) rfl
    rcases hrun : (runScript (Evaluation.eval setting levels) scope script).run s with ⟨g | v, u⟩
    · rw [hrun] at hend
      cases hend
      exact ⟨u, rfl⟩
    · rw [hrun] at hend
      cases hend

end Machine

/-! ## Interpreters and what stands around them -/

/-- The state in which a line has been printed. -/
def Store.printing (channel : Channel) (line : String) (s : Store) : Store :=
  { s with printed := ⟨channel, line ++ "\n"⟩ :: s.printed }

namespace Interpreter

/-- While an interpreter evaluates a text, a module is required whose file is missed. -/
def MissesFile (setting : Setting) (interpreter : Interpreter) (text : List Char) (s : Store)
    (specifier : String) (f : Fault) : Prop :=
  interpreter.echoes = false ∧ ∃ m : Machine,
    Machine.Runs setting (.ofScript setting.depthLimit interpreter.scope
      (Script.ofText setting.nestingLimit text) s) m ∧
    m.MissesFile setting specifier f

variable {setting : Setting} {interpreter : Interpreter} {text : List Char} {s : Store}

theorem explained_of_missesFile {specifier : String} {f : Fault}
    (h : interpreter.MissesFile setting text s specifier f) : f.Explained setting specifier := by
  obtain ⟨-, m, -, hm⟩ := h
  cases hm with
  | intro hv hu hf => exact Store.explained_of_fileFault hf

/-- To give expressions back as they are goes wrong at most because of the text. -/
theorem isOfPath_of_echo {script : Script} {scope : FrameId} {f : Fault} {t : Store}
    (h : (runScript echo scope script).run s = (.error f, t)) : f.isOfPath = false := by
  rw [run_runScript, run_evalForms_echo] at h
  rcases hstop : script.stop? with _ | _ | _
  · rw [hstop] at h
    cases h
  · rw [hstop] at h
    cases h
    rfl
  · rw [hstop] at h
    cases h
    rfl

theorem fault_iff {f : Fault} (hf : f.isOfPath = true) :
    (∃ t, (interpreter.eval setting text).run s = (.error f, t)) ↔
      ∃ specifier, interpreter.MissesFile setting text s specifier f := by
  unfold MissesFile Interpreter.eval Interpreter.evaluator evaluateText
  cases interpreter.echoes with
  | true =>
    refine iff_of_false ?_ (fun ⟨_, h, _⟩ => nomatch h)
    rintro ⟨t, h⟩
    rw [isOfPath_of_echo h] at hf
    cases hf
  | false =>
    have hiff := Machine.script_fault_iff setting setting.depthLimit interpreter.scope
      (Script.ofText setting.nestingLimit text) s hf
    simpa [evaluate] using hiff

end Interpreter

/-- What is made of the outcome of an evaluation: a value is shown if it has a text, and what went
wrong is told on a channel, unless it is a fault of a path. -/
def report {α : Type} (limit : Nat) (shown : Value → Store → Store) (good bad : α)
    (channel : Channel) : Except Fault Value × Store → Except Fault α × Store
  | (.ok v, t) => if v.isWritable limit then (.ok good, shown v t) else (.error .tooDeep, t)
  | (.error f, t) =>
    if f.isOfPath then (.error f, t) else (.ok bad, t.printing channel ("Error: " ++ f.message))

section Report
variable {α : Type} (limit : Nat) (shown : Value → Store → Store) (good bad : α) (channel : Channel)
  {f : Fault} {t : Store}

theorem report_of_told (h : f.isOfPath = false) :
    report limit shown good bad channel (.error f, t) =
      (.ok bad, t.printing channel ("Error: " ++ f.message)) := by
  rw [report, h]
  rfl

/-- What gets through is a fault of a path, or a value had no text. -/
theorem report_eq_error_iff {outcome : Except Fault Value × Store} :
    report limit shown good bad channel outcome = (.error f, t) ↔
      outcome = (.error f, t) ∧ f.isOfPath = true ∨
      f = .tooDeep ∧ ∃ v, outcome = (.ok v, t) ∧ v.isWritable limit = false := by
  rcases outcome with ⟨g | v, u⟩
  · rw [report]
    cases hg : g.isOfPath with
    | true =>
      rw [if_pos rfl]
      refine ⟨fun h => .inl ?_, ?_⟩
      · cases h
        exact ⟨rfl, hg⟩
      · rintro (⟨h, -⟩ | ⟨-, _, h, -⟩)
        · cases h
          rfl
        · cases h
    | false =>
      refine ⟨nofun, ?_⟩
      rintro (⟨h, hf⟩ | ⟨-, _, h, -⟩)
      · cases h
        rw [hg] at hf
        cases hf
      · cases h
  · rw [report]
    cases hv : v.isWritable limit with
    | true =>
      refine ⟨nofun, ?_⟩
      rintro (⟨h, -⟩ | ⟨-, _, h, hw⟩)
      · cases h
      · cases h
        rw [hv] at hw
        cases hw
    | false =>
      refine ⟨fun h => ?_, ?_⟩
      · cases h
        exact .inr ⟨rfl, v, rfl, hv⟩
      · rintro (⟨h, -⟩ | ⟨rfl, _, h, -⟩)
        · cases h
        · cases h
          rfl

end Report

/-- How the console shows a value. -/
def Console.showing (console : Console) (v : Value) (t : Store) : Store :=
  t.printing .console (String.ofList
    (if console.color then Highlight.text v.readable.toList else v.readable.toList))

theorem Console.run_evaluate (setting : Setting) (console : Console) (text : List Char)
    (s : Store) :
    (console.evaluate setting text).run s =
      report setting.writingLimit console.showing () () .console
        ((console.interpreter.eval setting text).run s) := by
  change console.evaluate setting text s = _
  rw [Console.evaluate]
  rcases (console.interpreter.eval setting text).run s with ⟨(e | _ | _ | _) | v, t⟩
  · rfl
  · rfl
  · rfl
  · rfl
  · simp only [Action.run_bind, Action.run_ofExcept, Value.writeReadable, report]
    by_cases hw : v.isWritable setting.writingLimit = true
    · simp only [hw, if_true]
      rfl
    · simp only [hw]
      rfl

/-- What the evaluation of a text gives in a new interpreter. -/
def Program.outcome (setting : Setting) (text : List Char) (s : Store) :
    Except Fault Value × Store :=
  (Interpreter.eval setting ⟨Prelude.rootOf s.heap, false⟩ text).run
    { s with heap := Prelude.install s.heap }

/-- A program evaluates its text in an interpreter of its own. -/
theorem Program.run_runText (setting : Setting) (text : List Char) (s : Store) :
    (Program.runText setting text).run s =
      report setting.writingLimit (fun v t => t.printing .output v.readable) 0 1 .error
        (Program.outcome setting text s) := by
  have hnew : (Interpreter.new setting false []).run s =
      (.ok ⟨Prelude.rootOf s.heap, false⟩, { s with heap := Prelude.install s.heap }) := by
    rw [Interpreter.new, Action.run_bind, Action.run_newPrelude]
    simp only [Action.run_bind, Action.run_discard, Interpreter.eval, evaluateText,
      Script.ofText_nil]
    rfl
  rw [Program.runText, Action.run_bind, hnew]
  simp only [Program.outcome, ExceptT.run]
  rcases Interpreter.eval setting ⟨Prelude.rootOf s.heap, false⟩ text
    { s with heap := Prelude.install s.heap } with ⟨(e | _ | _ | _) | v, t⟩
  · rfl
  · rfl
  · rfl
  · rfl
  · change (Action.ofExcept (v.writeReadable setting.writingLimit) >>= _ : Action Nat).run t = _
    simp only [Action.run_bind, Action.run_ofExcept, Value.writeReadable, report]
    by_cases hw : v.isWritable setting.writingLimit = true
    · simp only [hw, if_true]
      rfl
    · simp only [hw]
      rfl

/-- **A failed evaluation is told and survived, unless a file is missed.**  In any state, the
evaluation of a text ends with a fault of a path exactly if a module is required on the way whose
file is missed with this fault.  The fault has its reason then in the specifier, in the working
directory or in a link: a character U+0000, or a link that leads back to itself.  Any other failure
is an error of the language or exhaustion: the console tells it and stays, and a program tells it on
its error channel and ends with the code 1.  Besides the faults of paths, only a value that is too
deep to be written gets through either.

To tell a failure is to print a line, which always succeeds (`Action.printLine`): the channels are
taken to accept every text, and strings hold no lone surrogates that could not be printed. -/
theorem Interpreter.failures_told (setting : Setting) (text : List Char) (s : Store) :
    (∀ (interpreter : Interpreter) (f : Fault), f.isOfPath = true →
      ((∃ t, (interpreter.eval setting text).run s = (.error f, t)) ↔
        ∃ specifier, interpreter.MissesFile setting text s specifier f)) ∧
    (∀ (interpreter : Interpreter) (specifier : String) (f : Fault),
      interpreter.MissesFile setting text s specifier f → f.Explained setting specifier) ∧
    (∀ (console : Console) (f : Fault) (t : Store),
      ((console.interpreter.eval setting text).run s = (.error f, t) → f.isOfPath = false →
        (console.evaluate setting text).run s =
          (.ok (), t.printing .console ("Error: " ++ f.message))) ∧
      ((console.evaluate setting text).run s = (.error f, t) ↔
        (console.interpreter.eval setting text).run s = (.error f, t) ∧ f.isOfPath = true ∨
        f = .tooDeep ∧ ∃ v, (console.interpreter.eval setting text).run s = (.ok v, t) ∧
          v.isWritable setting.writingLimit = false)) ∧
    ∀ (f : Fault) (t : Store),
      (Program.outcome setting text s = (.error f, t) → f.isOfPath = false →
        (Program.runText setting text).run s =
          (.ok 1, t.printing .error ("Error: " ++ f.message))) ∧
      ((Program.runText setting text).run s = (.error f, t) ↔
        Program.outcome setting text s = (.error f, t) ∧ f.isOfPath = true ∨
        f = .tooDeep ∧ ∃ v, Program.outcome setting text s = (.ok v, t) ∧
          v.isWritable setting.writingLimit = false) := by
  refine ⟨fun _ _ => fault_iff, fun _ _ _ => explained_of_missesFile, fun console f t => ?_,
    fun f t => ?_⟩
  · rw [Console.run_evaluate]
    refine ⟨fun h htold => ?_, report_eq_error_iff ..⟩
    rw [h, report_of_told _ _ _ _ _ htold]
  · rw [Program.run_runText]
    refine ⟨fun h htold => ?_, report_eq_error_iff ..⟩
    rw [h, report_of_told _ _ _ _ _ htold]

/-! ## A specifier with the character U+0000 in it -/

namespace NullSpecifier

def specifier : String := "a\x00b"

/-- The text of an expression that requires a module by the specifier. -/
def text : List Char := "(require \"a\x00b\")".toList

/-- The expression in the text. -/
def form : Value := .list [.sym SpecialForm.require.keyword, .str specifier]

/-- There are no files. -/
def setting : Setting := .standard FileTree.empty (.ofLocation [])

def console : Console := .new ⟨4, false⟩ false false

/-- One interpreter is open. -/
def before : Store := { Store.initial with heap := Prelude.install Heap.empty }

theorem modulePath_specifier : modulePath setting specifier = .error .nullInPath := by
  have hcandidate : candidatePath setting specifier = .ok ⟨.root, ["a\x00b.lisp"]⟩ := by rfl
  have hname : setting.files.lookUpInFull [] "a\x00b.lisp" = .error .null := by rfl
  have hcanonical : setting.files.canonical [] ⟨.root, ["a\x00b.lisp"]⟩ = .error .null := by
    have horigin : FileTree.origin [] ⟨.root, ["a\x00b.lisp"]⟩ = [] := rfl
    rw [FileTree.canonical, horigin, FileTree.canonicalFrom, if_neg (by decide), hname]
  rw [modulePath, hcandidate]
  simp only [bind, Except.bind, hcanonical]
  rfl

/-- The file of the specifier is missed while the text is evaluated. -/
theorem missesFile :
    console.interpreter.MissesFile setting text before specifier .nullInPath := by
  have hfault : before.fileFault? setting specifier = some .nullInPath := by
    unfold Store.fileFault?
    rw [modulePath_specifier]
  refine ⟨rfl, ⟨.value (.str specifier), [.specifier 979 4, .form none 980 4 [] none], before⟩, ?_,
    .intro rfl (by decide +kernel) hfault⟩
  rw [ReadingLoop.script_of_require (by decide) (by decide +kernel : text = form.readable.toList)]
  exact .head rfl (.head (congrArg some (Machine.enterExpr_form
    (SpecialForm.ofKeyword?_keyword .require) _ _ _ _ _)) (.head rfl .refl))

end NullSpecifier

/-- A required specifier with the character U+0000 in it ends the evaluation with a fault that is no
error of the language, and the console with it. -/
theorem Console.null_not_survived :
    let s := NullSpecifier.before
    ∃ t, (NullSpecifier.console.interpreter.eval NullSpecifier.setting NullSpecifier.text).run s =
        (.error .nullInPath, t) ∧
      (NullSpecifier.console.evaluate NullSpecifier.setting NullSpecifier.text).run s =
        (.error .nullInPath, t) := by
  intro s
  obtain ⟨t, ht⟩ := (Interpreter.fault_iff rfl).2 ⟨_, NullSpecifier.missesFile⟩
  refine ⟨t, ht, ?_⟩
  rw [run_evaluate, ht]
  rfl

end SmallLisp
