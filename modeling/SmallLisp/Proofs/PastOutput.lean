import SmallLisp.Proofs.Machine

/-! # Evaluation does not look back at what was printed

An evaluation adds to what was printed and never reads it.  So the same evaluation after more was
printed comes to the same result, with the same scopes and modules, and what it prints itself
stands in front of the rest (`Interpreter.run_eval_since`).

A state with more printed before is the state `Store.since` the past.  Each step of the machine
commutes with it (`Machine.next_since`), and with the steps the runs do.  Two states that agree up
to what was printed therefore still do so after the same evaluation (`Interpreter.eval_agrees`).
-/
namespace SmallLisp
open Evaluation

/-- The state in which, before all else, more had been printed. -/
def Store.since (past : List Printed) (s : Store) : Store :=
  { s with printed := s.printed ++ past }

@[simp]
theorem Store.since_heap (past : List Printed) (s : Store) : (s.since past).heap = s.heap := rfl

@[simp]
theorem Store.since_registry (past : List Printed) (s : Store) :
    (s.since past).registry = s.registry := rfl

@[simp]
theorem Store.kept?_since (past : List Printed) (s : Store) (setting : Setting) (path : Path) :
    (s.since past).kept? setting path = s.kept? setting path := rfl

/-- The moment in which, before all else, more had been printed. -/
def Machine.since (past : List Printed) (m : Machine) : Machine :=
  ⟨m.control, m.tasks, m.store.since past⟩

/-- An outcome after more had been printed before all else. -/
def Evaluation.outcomeSince {α : Type} (past : List Printed) (outcome : α × Store) : α × Store :=
  (outcome.1, outcome.2.since past)

namespace Machine
variable {limit : Nat} (past : List Printed) (setting : Setting) (tasks : List Task) (s : Store)

/-! ## Steps -/

theorem enter_since (levels : Nat) (f : Value) (args : List Value) :
    enter limit levels f args tasks (s.since past) =
      (enter limit levels f args tasks s).since past := by
  cases f with
  | fn params body scope =>
    simp only [enter]
    split <;> rfl
  | native g =>
    obtain ⟨result, out, hrun⟩ := run_callNative limit g args
    simp only [enter, hrun, after, since, Store.since, List.append_assoc]
  | _ => rfl

theorem continueCall_since (levels : Nat) (scope : FrameId) (f : Value) (done rest : List Value) :
    continueCall limit levels scope f done rest tasks (s.since past) =
      (continueCall limit levels scope f done rest tasks s).since past := by
  cases rest with
  | nil => exact enter_since past tasks s levels f done.reverse
  | cons expr rest => rfl

theorem enterForm_since (levels : Nat) (scope : FrameId) (form : SpecialForm)
    (args : List Value) :
    enterForm limit levels scope form args tasks (s.since past) =
      (enterForm limit levels scope form args tasks s).since past := by
  unfold enterForm
  split
  case h_2 target expr =>
    cases boundName limit target <;> rfl
  all_goals rfl

theorem enterExpr_since (levels : Nat) (e : Value) (scope : FrameId) :
    enterExpr limit levels e scope tasks (s.since past) =
      (enterExpr limit levels e scope tasks s).since past := by
  unfold enterExpr
  split
  case h_2 word args =>
    rw [Store.since_heap]
    rcases SpecialForm.ofKeyword? word with _ | form
    · rcases Scope.resolveHead s.heap scope word with e | f
      · rfl
      · exact continueCall_since past tasks s levels scope f [] args
    · exact enterForm_since past tasks s levels scope form args
  all_goals rfl

theorem continueForms_since (module? : Option Path) (levels : Nat) (scope : FrameId) (last : Value)
    (rest : List Value) (stop? : Option ReadingStop) :
    continueForms setting module? levels scope last rest stop? tasks (s.since past) =
      (continueForms setting module? levels scope last rest stop? tasks s).since past := by
  cases rest with
  | cons form rest => rfl
  | nil =>
    rcases module? with _ | path <;> rcases stop? with _ | stop
    · rfl
    · rfl
    · simp only [continueForms, Store.keeping]
      split <;> rfl
    · rfl

theorem enterLoad_since (levels : Nat) (path : Path) :
    enterLoad setting levels path tasks (s.since past) =
      (enterLoad setting levels path tasks s).since past := by
  simp only [enterLoad, Store.kept?_since, Store.since_registry]
  rcases s.kept? setting path with _ | m
  · by_cases hl : s.registry.isLoading path = true
    · simp only [hl, if_true]
      rfl
    · simp only [hl, Bool.false_eq_true, if_false]
      rcases setting.files.readText setting.here path with e | text <;> rfl
  · rfl

theorem enterRequire_since (levels : Nat) (scope : FrameId) (specifier : String) :
    enterRequire setting levels scope specifier tasks (s.since past) =
      (enterRequire setting levels scope specifier tasks s).since past := by
  simp only [enterRequire, Store.since_heap]
  rcases (s.heap.get? scope specifier).bind Value.module? with _ | m
  · rcases modulePath setting specifier with f | path
    · rfl
    · exact enterLoad_since past setting tasks s levels path
  · rfl

theorem resume_since (v : Value) (task : Task) :
    resume setting v task tasks (s.since past) = (resume setting v task tasks s).since past := by
  cases task with
  | head levels scope args => exact continueCall_since past tasks s levels scope v [] args
  | argument levels scope f done rest =>
    exact continueCall_since past tasks s levels scope f (v :: done) rest
  | definition scope name => rfl
  | branch levels scope consequence alternative? =>
    simp only [resume]
    split
    · rfl
    · cases alternative? <;> rfl
  | specifier levels scope =>
    simp only [resume]
    split
    · rfl
    · exact enterRequire_since past setting tasks s levels scope _
  | form module? levels scope rest stop? =>
    exact continueForms_since past setting tasks s module? levels scope v rest stop?

theorem drop_since (f : Fault) (task : Task) :
    drop f task tasks (s.since past) = (drop f task tasks s).since past := by
  unfold drop
  split <;> rfl

/-- **What a step does does not depend on what was printed.** -/
theorem next_since (m : Machine) :
    (m.since past).next setting = (m.next setting).map (since past) := by
  obtain ⟨control, tasks, s⟩ := m
  cases control with
  | expr levels e scope =>
    cases levels with
    | zero => rfl
    | succ levels => exact congrArg some (enterExpr_since past tasks s levels e scope)
  | value v =>
    cases tasks with
    | nil => rfl
    | cons task tasks => exact congrArg some (resume_since past setting tasks s v task)
  | fault f =>
    cases tasks with
    | nil => rfl
    | cons task tasks => exact congrArg some (drop_since past tasks s f task)

variable {setting}

theorem eq_of_after_eq {past : List Printed} {a b : Except Fault Value × Store}
    (h : after [] a = (after [] b).since past) : a = outcomeSince past b := by
  obtain ⟨r, s⟩ := a
  obtain ⟨r', t⟩ := b
  cases r <;> cases r' <;> cases h <;> rfl

theorem Runs.since {m m' : Machine} (h : Runs setting m m') :
    Runs setting (m.since past) (m'.since past) := by
  induction h with
  | refl => exact .refl
  | tail _ hs ih =>
    refine ih.tail ?_
    rw [next_since, hs]
    rfl

end Machine

/-! ## Evaluations -/

namespace Interpreter
variable (setting : Setting) (interpreter : Interpreter) (text : List Char)

theorem run_echo_since (past : List Printed) (scope : FrameId) (script : Script) (s : Store) :
    (runScript echo scope script).run (s.since past) =
      outcomeSince past ((runScript echo scope script).run s) := by
  rw [run_runScript, run_runScript, run_evalForms_echo, run_evalForms_echo]
  cases script.stop? <;> rfl

/-- **An evaluation goes the same way whatever was printed before.** -/
theorem run_eval_since (past : List Printed) (s : Store) :
    (interpreter.eval setting text).run (s.since past) =
      outcomeSince past ((interpreter.eval setting text).run s) := by
  unfold Interpreter.eval Interpreter.evaluator evaluateText
  cases interpreter.echoes with
  | true => exact run_echo_since past _ _ s
  | false =>
    have hpast := Machine.runs_script setting setting.depthLimit interpreter.scope
      (Script.ofText setting.nestingLimit text) (s.since past)
    have hrun := (Machine.runs_script setting setting.depthLimit interpreter.scope
      (Script.ofText setting.nestingLimit text) s).since past
    have hdone : ((Machine.after [] ((runScript (Evaluation.eval setting setting.depthLimit)
        interpreter.scope (Script.ofText setting.nestingLimit text)).run s)).since past).next
          setting = none := by
      rw [Machine.next_since, Machine.next_after_nil]
      rfl
    exact Machine.eq_of_after_eq (hpast.done_unique hrun (Machine.next_after_nil _) hdone)

end Interpreter

/-! ## Agreement up to what was printed -/

/-- Two states have the same scopes and the same modules. -/
structure Store.Agrees (s t : Store) : Prop where
  heap : s.heap = t.heap
  registry : s.registry = t.registry

namespace Store.Agrees
variable {s t u : Store}

theorem rfl : s.Agrees s := ⟨Eq.refl _, Eq.refl _⟩

theorem symm (h : s.Agrees t) : t.Agrees s := ⟨h.heap.symm, h.registry.symm⟩

theorem trans (h : s.Agrees t) (h' : t.Agrees u) : s.Agrees u :=
  ⟨h.heap.trans h'.heap, h.registry.trans h'.registry⟩

end Store.Agrees

/-- Where the states agree, the same evaluation gives the same result and again states that
agree. -/
theorem Interpreter.eval_agrees {setting : Setting} {interpreter : Interpreter} {text : List Char}
    {s t s' : Store} {result : Except Fault Value} (h : s.Agrees t)
    (hrun : (interpreter.eval setting text).run s = (result, s')) :
    ∃ t', (interpreter.eval setting text).run t = (result, t') ∧ s'.Agrees t' := by
  obtain ⟨heap, registry, past⟩ := s
  obtain ⟨heap', registry', past'⟩ := t
  obtain ⟨rfl, rfl⟩ := h
  have hs := run_eval_since setting interpreter text past ⟨heap, registry, []⟩
  have ht := run_eval_since setting interpreter text past' ⟨heap, registry, []⟩
  simp only [Store.since, List.nil_append] at hs ht
  rw [hs] at hrun
  cases hrun
  exact ⟨_, ht, rfl, rfl⟩

end SmallLisp
