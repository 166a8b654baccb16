import Mathlib.Logic.Relation
import SmallLisp.Proofs.Running

/-! # Evaluation step by step

An evaluation as the evaluator gives it has a beginning and an end.  What holds *while* it goes on
(which module files are being loaded at a moment, in which scope code is running, what a frame
holds between two calls) needs the moments in between, and here they are: a machine that makes an
evaluation one small step at a time.

The state of the machine is what it is about to do (`Control`), the tasks that wait for the value
of that, the innermost first (`Task`), and the store.  A value goes to the innermost task; a fault
drops one task after the other, and where it drops the loading of a module it ends that load.  So
the files being loaded at a moment can be read off the tasks (`loads`), whoever looks.

The machine is no second evaluator: started on an expression above any tasks, it comes to the
result and the store that the evaluator gives, above the same tasks (`runs_eval`); likewise for
calls (`runs_call`) and for whole texts (`runs_script`).
-/
namespace SmallLisp
open Evaluation

namespace Machine

/-- What a machine is about to do. -/
inductive Control where
  /-- Evaluate an expression, on so many levels. -/
  | expr (levels : Nat) (e : Value) (scope : FrameId)
  | value (v : Value)
  | fault (f : Fault)

/-- What waits for a value.  The levels are those below the expression that made the task. -/
inductive Task where
  /-- A call waits for what is called. -/
  | head (levels : Nat) (scope : FrameId) (args : List Value)
  /-- A call waits for an argument; of those before it the last one stands first. -/
  | argument (levels : Nat) (scope : FrameId) (f : Value) (done rest : List Value)
  | definition (scope : FrameId) (name : String)
  | branch (levels : Nat) (scope : FrameId) (consequence : Value) (alternative? : Option Value)
  | specifier (levels : Nat) (scope : FrameId)
  /-- A module, or else a text, waits for the value of one of its expressions. -/
  | form (module? : Option Path) (levels : Nat) (scope : FrameId) (rest : List Value)
      (stop? : Option ReadingStop)

/-- A result as a machine holds it. -/
def Control.ofResult : Except Fault Value → Control
  | .ok v => .value v
  | .error f => .fault f

end Machine

/-- A moment of an evaluation. -/
structure Machine where
  control : Machine.Control
  tasks : List Machine.Task
  store : Store

namespace Machine

/-- The moment at which an action has ended above some tasks. -/
def after (tasks : List Task) (outcome : Except Fault Value × Store) : Machine :=
  ⟨.ofResult outcome.1, tasks, outcome.2⟩

/-! ## The steps -/

/-- A call with evaluated arguments. -/
def enter (limit levels : Nat) (f : Value) (args : List Value) (tasks : List Task) (s : Store) :
    Machine :=
  match f with
  | .fn params body scope =>
    if args.length = params.length then
      ⟨.expr (levels - 2) body s.heap.size, tasks,
        s.entering scope (Table.empty.insertAll (params.zip args))⟩
    else ⟨.fault (.lisp (.wrongArity (.function params.length) args.length)), tasks, s⟩
  | .native g => after tasks ((callNative limit g args).run s)
  | v => ⟨.fault (.notAFunction limit v), tasks, s⟩

/-- The next argument of a call, or the call itself if there is none left. -/
def continueCall (limit levels : Nat) (scope : FrameId) (f : Value) (done rest : List Value)
    (tasks : List Task) (s : Store) : Machine :=
  match rest with
  | [] => enter limit levels f done.reverse tasks s
  | expr :: rest => ⟨.expr (levels - 1) expr scope, .argument levels scope f done rest :: tasks, s⟩

/-- A special form. -/
def enterForm (limit levels : Nat) (scope : FrameId) (form : SpecialForm) (args : List Value)
    (tasks : List Task) (s : Store) : Machine :=
  match form, args with
  | .quote, [v] => ⟨.value v, tasks, s⟩
  | .define, [target, expr] =>
    match boundName limit target with
    | .error f => ⟨.fault f, tasks, s⟩
    | .ok name => ⟨.expr (levels - 1) expr scope, .definition scope name :: tasks, s⟩
  | .lambda, [params, body] => after tasks (lambdaResult limit scope params body, s)
  | .conditional, [condition, consequence] =>
    ⟨.expr (levels - 1) condition scope, .branch levels scope consequence none :: tasks, s⟩
  | .conditional, [condition, consequence, alternative] =>
    ⟨.expr (levels - 1) condition scope,
      .branch levels scope consequence (some alternative) :: tasks, s⟩
  | .require, [expr] => ⟨.expr (levels - 1) expr scope, .specifier levels scope :: tasks, s⟩
  | form, args => ⟨.fault (.lisp (.wrongArity (.form form) args.length)), tasks, s⟩

/-- An expression with so many levels below it. -/
def enterExpr (limit levels : Nat) (e : Value) (scope : FrameId) (tasks : List Task) (s : Store) :
    Machine :=
  match e with
  | .sym name => after tasks ((Scope.resolve s.heap scope name).mapError .lisp, s)
  | .list (.sym word :: args) =>
    match SpecialForm.ofKeyword? word with
    | some form => enterForm limit levels scope form args tasks s
    | none =>
      match Scope.resolveHead s.heap scope word with
      | .error e => ⟨.fault (.lisp e), tasks, s⟩
      | .ok f => continueCall limit levels scope f [] args tasks s
  | .list (head :: args) => ⟨.expr levels head scope, .head levels scope args :: tasks, s⟩
  | v => ⟨.value v, tasks, s⟩

variable (setting : Setting)

/-- The next expression of a module or of a text, or its end if there is none left. -/
def continueForms (module? : Option Path) (levels : Nat) (scope : FrameId) (last : Value)
    (rest : List Value) (stop? : Option ReadingStop) (tasks : List Task) (s : Store) : Machine :=
  match rest with
  | form :: rest =>
    ⟨.expr levels form scope, .form module? levels scope rest stop? :: tasks, s⟩
  | [] =>
    match module?, stop? with
    | none, none => ⟨.value last, tasks, s⟩
    | none, some stop => ⟨.fault (stopFault stop), tasks, s⟩
    | some path, none =>
      ⟨.value (.module ⟨path.text, scope⟩), tasks,
        (s.closing path).keeping setting path ⟨path.text, scope⟩⟩
    | some path, some stop =>
      ⟨.fault ((stop.inModule path).leaving path), tasks, s.closing path⟩

/-- The loading of a module. -/
def enterLoad (levels : Nat) (path : Path) (tasks : List Task) (s : Store) : Machine :=
  match s.kept? setting path with
  | some m => ⟨.value (.module m), tasks, s⟩
  | none =>
    if s.registry.isLoading path then
      ⟨.fault (.lisp (.failedModule path (.circularRequire path))), tasks, s⟩
    else
      match setting.files.readText setting.here path with
      | .error e => ⟨.fault (pathFault path e), tasks, s⟩
      | .ok text =>
        let script := Script.ofText setting.nestingLimit (Text.trimStart text)
        -- the load is under way from here on, even if there is no expression to evaluate
        ⟨.value .nil,
          .form (some path) (levels - 4) (Prelude.rootOf s.heap) script.forms script.stop? :: tasks,
          s.opening path⟩

/-- The module that a specifier means. -/
def enterRequire (levels : Nat) (scope : FrameId) (specifier : String) (tasks : List Task)
    (s : Store) : Machine :=
  match (s.heap.get? scope specifier).bind Value.module? with
  | some m => ⟨.value (.module m), tasks, s⟩
  | none =>
    match modulePath setting specifier with
    | .ok path => enterLoad setting levels path tasks s
    | .error f => ⟨.fault f, tasks, s⟩

/-- A task that gets its value. -/
def resume (v : Value) (task : Task) (tasks : List Task) (s : Store) : Machine :=
  match task with
  | .head levels scope args => continueCall setting.writingLimit levels scope v [] args tasks s
  | .argument levels scope f done rest =>
    continueCall setting.writingLimit levels scope f (v :: done) rest tasks s
  | .definition scope name => ⟨.value v, tasks, s.defining scope name v⟩
  | .branch levels scope consequence alternative? =>
    if v.isTruthy then ⟨.expr (levels - 1) consequence scope, tasks, s⟩
    else
      match alternative? with
      | some alternative => ⟨.expr (levels - 1) alternative scope, tasks, s⟩
      | none => ⟨.value .nil, tasks, s⟩
  | .specifier levels scope =>
    match specifier? v with
    | none => ⟨.fault (.wrongType setting.writingLimit .modulePath v), tasks, s⟩
    | some name => enterRequire setting levels scope name tasks s
  | .form module? levels scope rest stop? =>
    continueForms setting module? levels scope v rest stop? tasks s

/-- A task that is dropped because of a fault. -/
def drop (f : Fault) (task : Task) (tasks : List Task) (s : Store) : Machine :=
  match task with
  | .form (some path) _ _ _ _ => ⟨.fault (f.leaving path), tasks, s.closing path⟩
  | _ => ⟨.fault f, tasks, s⟩

/-- The next moment; `none` if the machine is done. -/
def next (m : Machine) : Option Machine :=
  match m.control, m.tasks with
  | .expr 0 _ _, tasks => some ⟨.fault .tooDeep, tasks, m.store⟩
  | .expr (levels + 1) e scope, tasks =>
    some (enterExpr setting.writingLimit levels e scope tasks m.store)
  | .value v, task :: tasks => some (resume setting v task tasks m.store)
  | .fault f, task :: tasks => some (drop f task tasks m.store)
  | .value _, [] | .fault _, [] => none

/-- A machine about to call a value with evaluated arguments, the body of a function on so many
levels. -/
def ofCall (limit levels : Nat) (f : Value) (args : List Value) (s : Store) : Machine :=
  enter limit (levels + 2) f args [] s

/-- A machine about to evaluate a text. -/
def ofScript (levels : Nat) (scope : FrameId) (script : Script) (s : Store) : Machine :=
  ⟨.value .nil, [.form none levels scope script.forms script.stop?], s⟩

/-- The files being loaded, the last one first. -/
def loads : List Task → List Path
  | [] => []
  | .form (some path) _ _ _ _ :: tasks => path :: loads tasks
  | _ :: tasks => loads tasks

/-- A text that goes on belongs to the same load. -/
theorem loads_form (module? : Option Path) (levels : Nat) (scope : FrameId)
    (rest rest' : List Value) (stop? : Option ReadingStop) (tasks : List Task) :
    loads (.form module? levels scope rest stop? :: tasks) =
      loads (.form module? levels scope rest' stop? :: tasks) := by
  cases module? <;> rfl

/-- Zero or more steps of the machine. -/
abbrev Runs : Machine → Machine → Prop :=
  Relation.ReflTransGen fun m m' => m.next setting = some m'

/-! ## The machine and the evaluator -/

variable {setting}

theorem Runs.of_next {m m' m'' : Machine} (h : m.next setting = some m')
    (hr : Runs setting m' m'') : Runs setting m m'' :=
  .head h hr

/-- A machine that is done is where every run from it ends. -/
theorem Runs.eq_of_done {m m' : Machine} (h : Runs setting m m') (hd : m.next setting = none) :
    m' = m := by
  induction h with
  | refl => rfl
  | tail _ hs ih =>
    subst ih
    rw [hd] at hs
    cases hs

/-- Two runs from one moment to the end come to the same end. -/
theorem Runs.done_unique {m a b : Machine} (ha : Runs setting m a) (hb : Runs setting m b)
    (hda : a.next setting = none) (hdb : b.next setting = none) : a = b := by
  induction ha using Relation.ReflTransGen.head_induction_on with
  | refl => exact (hb.eq_of_done hda).symm
  | head hs _ ih =>
    rcases hb.cases_head with rfl | ⟨c, hc, hcb⟩
    · rw [hdb] at hs
      cases hs
    · rw [hs] at hc
      cases hc
      exact ih hcb

theorem next_after_nil (outcome : Except Fault Value × Store) :
    (after [] outcome).next setting = none := by
  rcases outcome with ⟨_ | _, s⟩ <;> rfl

/-- An evaluator of which every evaluation is one that the machine makes on so many levels. -/
def Simulates (setting : Setting) (levels : Nat) (eval : Evaluator) : Prop :=
  ∀ (e : Value) (scope : FrameId) (tasks : List Task) (s : Store),
    Runs setting ⟨.expr levels e scope, tasks, s⟩ (after tasks ((eval e scope).run s))

section Parts
variable {eval evalModule : Evaluator} {levels limit : Nat}

theorem runs_enter (he : Simulates setting (levels - 2) eval) (f : Value) (args : List Value)
    (tasks : List Task) (s : Store) :
    Runs setting (enter setting.writingLimit levels f args tasks s)
      (after tasks ((call setting.writingLimit eval f args).run s)) := by
  cases f with
  | fn params body scope =>
    rw [run_call_fn, enter]
    split
    · exact he _ _ _ _
    · exact .refl
  | _ => exact .refl

theorem runs_continueCall {eval' : Evaluator} (he : Simulates setting (levels - 1) eval)
    (he' : Simulates setting (levels - 2) eval') (scope : FrameId) (f : Value)
    (done rest : List Value) (tasks : List Task) (s : Store) :
    Runs setting (continueCall setting.writingLimit levels scope f done rest tasks s)
      (after tasks
        (match (evalEach eval scope rest).run s with
          | (.error e, t) => (.error e, t)
          | (.ok vs, t) => (call setting.writingLimit eval' f (done.reverse ++ vs)).run t)) := by
  induction rest generalizing done s with
  | nil =>
    have h := runs_enter he' f done.reverse tasks s
    simpa only [continueCall, evalEach, Action.run_pure, List.append_nil] using h
  | cons expr rest ih =>
    have h := he expr scope (.argument levels scope f done rest :: tasks) s
    rw [run_evalEach_cons]
    rcases hv : (eval expr scope).run s with ⟨e | v, t⟩
    · rw [hv] at h
      exact h.tail rfl
    · rw [hv] at h
      have hrest := ih (v :: done) t
      rw [List.reverse_cons] at hrest
      rcases hvs : (evalEach eval scope rest).run t with ⟨e | vs, u⟩
      · rw [hvs] at hrest
        simp only [hvs]
        exact (h.tail rfl).trans hrest
      · rw [hvs] at hrest
        simp only [hvs]
        simp only [List.append_assoc, List.singleton_append] at hrest
        exact (h.tail rfl).trans hrest

theorem runs_continueForms (module? : Option Path) (he : Simulates setting levels eval)
    (scope : FrameId) (last : Value) (rest : List Value) (stop? : Option ReadingStop)
    (tasks : List Task) (s : Store) :
    Runs setting (continueForms setting module? levels scope last rest stop? tasks s)
      (match (evalForms eval scope last rest).run s with
        | (.error e, t) => drop e (.form module? levels scope [] stop?) tasks t
        | (.ok v, t) => continueForms setting module? levels scope v [] stop? tasks t) := by
  induction rest generalizing last s with
  | nil => exact .refl
  | cons form rest ih =>
    have h := he form scope (.form module? levels scope rest stop? :: tasks) s
    rw [run_evalForms_cons]
    rcases hv : (eval form scope).run s with ⟨e | v, t⟩
    · rw [hv] at h
      cases module? <;> exact h.tail rfl
    · rw [hv] at h
      exact (h.tail rfl).trans (ih v t)

theorem runs_enterLoad (he : Simulates setting (levels - 4) eval) (path : Path)
    (tasks : List Task) (s : Store) :
    Runs setting (enterLoad setting levels path tasks s)
      (match (load setting eval path).run s with
        | (.error e, t) => ⟨.fault e, tasks, t⟩
        | (.ok m, t) => ⟨.value (.module m), tasks, t⟩) := by
  rw [run_load, enterLoad]
  rcases s.kept? setting path with _ | m
  · simp only
    by_cases hl : s.registry.isLoading path = true
    · simp only [hl, if_true]
      exact .refl
    · simp only [hl, Bool.false_eq_true, if_false]
      rcases setting.files.readText setting.here path with e | text
      · exact .refl
      · simp only
        have h := runs_continueForms (some path) he (Prelude.rootOf s.heap) .nil
          (Script.ofText setting.nestingLimit (Text.trimStart text)).forms
          (Script.ofText setting.nestingLimit (Text.trimStart text)).stop? tasks (s.opening path)
        rw [run_runModule]
        rcases hv : (evalForms eval (Prelude.rootOf s.heap) .nil
          (Script.ofText setting.nestingLimit (Text.trimStart text)).forms).run (s.opening path)
          with ⟨e | v, t⟩
        · rw [hv] at h
          exact .head rfl h
        · rw [hv] at h
          refine (Runs.of_next rfl h).trans ?_
          cases (Script.ofText setting.nestingLimit (Text.trimStart text)).stop? <;> exact .refl
  · exact .refl

theorem runs_enterRequire (he : Simulates setting (levels - 4) eval) (scope : FrameId)
    (specifier : String) (tasks : List Task) (s : Store) :
    Runs setting (enterRequire setting levels scope specifier tasks s)
      (match (require setting eval scope specifier).run s with
        | (.error e, t) => ⟨.fault e, tasks, t⟩
        | (.ok m, t) => ⟨.value (.module m), tasks, t⟩) := by
  rw [run_require, enterRequire]
  rcases (s.heap.get? scope specifier).bind Value.module? with _ | m
  · rcases modulePath setting specifier with f | path
    · exact .refl
    · exact runs_enterLoad he path tasks s
  · exact .refl

theorem enterForm_malformed {form : SpecialForm} {args : List Value}
    (h : form.accepts args.length = false) (levels : Nat) (scope : FrameId) (tasks : List Task)
    (s : Store) :
    enterForm limit levels scope form args tasks s =
      ⟨.fault (.lisp (.wrongArity (.form form) args.length)), tasks, s⟩ := by
  unfold enterForm
  split
  case h_7 => rfl
  all_goals simp [SpecialForm.accepts] at h

theorem enterForm_conditional (levels : Nat) (scope : FrameId) (condition consequence : Value)
    (alternative? : Option Value) (tasks : List Task) (s : Store) :
    enterForm limit levels scope .conditional (condition :: consequence :: alternative?.toList)
        tasks s =
      ⟨.expr (levels - 1) condition scope,
        .branch levels scope consequence alternative? :: tasks, s⟩ := by
  cases alternative? <;> rfl

/-- When the condition has its value, the branch that it picks is evaluated in its place. -/
theorem runs_conditional (he : Simulates setting (levels - 1) eval) (scope : FrameId)
    (condition consequence : Value) (alternative? : Option Value) (tasks : List Task) (s : Store) :
    Runs setting
      (enterForm setting.writingLimit levels scope .conditional
        (condition :: consequence :: alternative?.toList) tasks s)
      (after tasks ((evalForm setting eval evalModule scope .conditional
        (condition :: consequence :: alternative?.toList)).run s)) := by
  have h := he condition scope (.branch levels scope consequence alternative? :: tasks) s
  rw [run_conditional_form, enterForm_conditional]
  rcases hv : (eval condition scope).run s with ⟨e | v, t⟩
  · rw [hv] at h
    exact h.tail rfl
  · rw [hv] at h
    refine (h.tail rfl).trans ?_
    simp only [resume]
    split
    · exact he consequence scope tasks t
    · cases alternative? with
      | none => exact .refl
      | some alternative => exact he alternative scope tasks t

/-- When the specifier has its value, the module that it stands for is required. -/
theorem runs_require (he : Simulates setting (levels - 1) eval)
    (hm : Simulates setting (levels - 4) evalModule) (scope : FrameId) (expr : Value)
    (tasks : List Task) (s : Store) :
    Runs setting (enterForm setting.writingLimit levels scope .require [expr] tasks s)
      (after tasks ((evalForm setting eval evalModule scope .require [expr]).run s)) := by
  have h := he expr scope (.specifier levels scope :: tasks) s
  rw [run_require_form]
  rcases hv : (eval expr scope).run s with ⟨e | v, t⟩
  · rw [hv] at h
    exact h.tail rfl
  · rw [hv] at h
    refine (h.tail rfl).trans ?_
    simp only [resume]
    rcases specifier? v with _ | name
    · exact .refl
    · have hq := runs_enterRequire hm scope name tasks t
      simp only
      rcases hu : (require setting evalModule scope name).run t with ⟨e | m, u⟩
      all_goals
        rw [hu] at hq
        exact hq

theorem runs_enterForm (he : Simulates setting (levels - 1) eval)
    (hm : Simulates setting (levels - 4) evalModule) (scope : FrameId) (form : SpecialForm)
    (args : List Value) (tasks : List Task) (s : Store) :
    Runs setting (enterForm setting.writingLimit levels scope form args tasks s)
      (after tasks ((evalForm setting eval evalModule scope form args).run s)) := by
  cases formShape form args with
  | quote v => exact .refl
  | malformed h =>
    rw [run_malformed_form setting eval evalModule scope s h, enterForm_malformed h]
    exact .refl
  | lambda params body =>
    rw [run_lambda_form]
    exact .refl
  | define target expr =>
    rw [run_define_form, enterForm]
    rcases boundName setting.writingLimit target with f | name
    · exact .refl
    · have h := he expr scope (.definition scope name :: tasks) s
      simp only
      rcases hv : (eval expr scope).run s with ⟨e | v, t⟩
      all_goals
        rw [hv] at h
        exact h.tail rfl
  | conditional condition consequence alternative? =>
    exact runs_conditional he scope condition consequence alternative? tasks s
  | require expr => exact runs_require he hm scope expr tasks s

end Parts

variable {limit : Nat}

theorem enterExpr_constant {v : Value} (h : v.isConstant = true) (levels : Nat) (scope : FrameId)
    (tasks : List Task) (s : Store) :
    enterExpr limit levels v scope tasks s = ⟨.value v, tasks, s⟩ := by
  unfold enterExpr
  split
  case h_4 => rfl
  all_goals cases h

theorem enterExpr_form {word : String} {form : SpecialForm}
    (h : SpecialForm.ofKeyword? word = some form) (levels : Nat) (args : List Value)
    (scope : FrameId) (tasks : List Task) (s : Store) :
    enterExpr limit levels (.list (.sym word :: args)) scope tasks s =
      enterForm limit levels scope form args tasks s := by
  simp only [enterExpr, h]

/-- A call's head is a name, which the scope resolves, or else an expression like any other. -/
theorem enterExpr_call (limit levels : Nat) {head : Value} (ho : IsOrdinary head)
    (args : List Value) (scope : FrameId) (tasks : List Task) (s : Store) :
    (∃ word, head = .sym word ∧
      enterExpr limit levels (.list (head :: args)) scope tasks s =
        match Scope.resolveHead s.heap scope word with
        | .error e => ⟨.fault (.lisp e), tasks, s⟩
        | .ok f => continueCall limit levels scope f [] args tasks s) ∨
      (enterExpr limit levels (.list (head :: args)) scope tasks s =
        ⟨.expr levels head scope, .head levels scope args :: tasks, s⟩ ∧
      ∀ eval : Evaluator, evalHead eval scope head = eval head scope) := by
  cases head with
  | sym word =>
    have hw : SpecialForm.ofKeyword? word = none := by
      have := ho word rfl
      rwa [SpecialForm.isKeyword, Option.isSome_eq_false_iff, Option.isNone_iff_eq_none] at this
    refine .inl ⟨word, rfl, ?_⟩
    simp only [enterExpr, hw]
  | _ => exact .inr ⟨rfl, fun _ => rfl⟩

theorem runs_enterExpr {below : Nat → Evaluator} {levels : Nat}
    (he : ∀ k, Simulates setting (levels - k) (below k)) (e : Value) (scope : FrameId)
    (tasks : List Task) (s : Store) :
    Runs setting (enterExpr setting.writingLimit levels e scope tasks s)
      (after tasks ((step setting below e scope).run s)) := by
  cases exprShape e with
  | symbol name =>
    rw [run_step_sym]
    exact .refl
  | constant h =>
    rw [step_constant setting scope below h, enterExpr_constant h]
    exact .refl
  | form hf args =>
    rw [step_form setting scope below hf, enterExpr_form hf]
    exact runs_enterForm (he 1) (he 4) scope _ args tasks s
  | call ho args =>
    rename_i head
    rw [step_call setting scope below ho, run_evalCall]
    have hrest (f : Value) (t : Store) := runs_continueCall (he 1) (he 2) scope f [] args tasks t
    rcases enterExpr_call setting.writingLimit levels ho args scope tasks s
      with ⟨word, rfl, hw⟩ | ⟨hw, hh⟩
    · rw [run_evalHead_sym, hw]
      rcases Scope.resolveHead s.heap scope word with e | f
      · exact .refl
      · exact hrest f s
    · have h := he 0 head scope (.head levels scope args :: tasks) s
      rw [hw, hh]
      rcases hv : (below 0 head scope).run s with ⟨e | f, t⟩
      · rw [hv] at h
        exact h.tail rfl
      · rw [hv] at h
        exact (h.tail rfl).trans (hrest f t)

/-- **The machine makes the evaluations of the evaluator.** -/
theorem runs_eval (setting : Setting) (levels : Nat) :
    Simulates setting levels (Evaluation.eval setting levels) := by
  induction levels using Nat.strongRecOn with
  | ind levels ih =>
    intro e scope tasks s
    cases levels with
    | zero => exact .single rfl
    | succ levels =>
      rw [eval_succ]
      exact Runs.of_next rfl (runs_enterExpr
        (fun k => ih (levels - k) (Nat.lt_succ_of_le (Nat.sub_le _ _))) e scope tasks s)

theorem runs_call (setting : Setting) (levels : Nat) (f : Value) (args : List Value) (s : Store) :
    Runs setting (ofCall setting.writingLimit levels f args s)
      (after [] ((call setting.writingLimit (Evaluation.eval setting levels) f args).run s)) :=
  @runs_enter setting _ (levels + 2) (runs_eval setting levels) f args [] s

theorem runs_script (setting : Setting) (levels : Nat) (scope : FrameId) (script : Script)
    (s : Store) :
    Runs setting (ofScript levels scope script s)
      (after [] ((runScript (Evaluation.eval setting levels) scope script).run s)) := by
  have h := runs_continueForms none (runs_eval setting levels) scope .nil script.forms script.stop?
    [] s
  rw [run_runScript]
  rcases hv : (evalForms (Evaluation.eval setting levels) scope .nil script.forms).run s
    with ⟨e | v, t⟩
  · rw [hv] at h
    exact .head rfl h
  · rw [hv] at h
    refine (Runs.of_next rfl h).trans ?_
    cases script.stop? <;> exact .refl

end Machine

end SmallLisp
