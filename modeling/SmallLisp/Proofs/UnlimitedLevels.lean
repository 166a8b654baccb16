import Mathlib.Data.List.Forall2
import SmallLisp.Proofs.Machine

/-! # Evaluation without a limit on levels

How deep evaluations may lie inside one another is limited, and an evaluation that goes too deep
ends with a fault.  Without a limit it could go on for ever, and whether it does is a question of
its own.  So here is the machine without a limit (`Machine.nextUnlimited`): it makes the same steps
and never looks at the levels.

A run of that machine to the end is what all evaluations come to that have levels enough
(`Machine.eval_of_unlimitedRuns`), because a step goes down by so many levels at most, and a machine
with levels left does what the machine without a limit does (`Machine.Raised.next`).
-/
namespace SmallLisp
open Evaluation

namespace Machine

/-- Another level is granted to an expression. -/
def Control.granted : Control → Control
  | .expr _ e scope => .expr 1 e scope
  | .value v => .value v
  | .fault f => .fault f

/-- The next moment if levels are not limited; `none` if the machine is done. -/
def nextUnlimited (setting : Setting) (m : Machine) : Option Machine :=
  next setting ⟨m.control.granted, m.tasks, m.store⟩

/-- Zero or more steps without a limit on levels. -/
abbrev UnlimitedRuns (setting : Setting) : Machine → Machine → Prop :=
  Relation.ReflTransGen fun m m' => m.nextUnlimited setting = some m'

/-! ## Machines that differ in their levels -/

/-- The same is about to be done, with so many levels at least. -/
inductive Control.Raised (k : Nat) : Control → Control → Prop
  | expr {levels levels' : Nat} (h : k ≤ levels') (e : Value) (scope : FrameId) :
      Raised k (.expr levels e scope) (.expr levels' e scope)
  | value (v : Value) : Raised k (.value v) (.value v)
  | fault (f : Fault) : Raised k (.fault f) (.fault f)

/-- The same task, with so many levels at least. -/
inductive Task.Raised (k : Nat) : Task → Task → Prop
  | head {levels levels' : Nat} (h : k ≤ levels') (scope : FrameId) (args : List Value) :
      Raised k (.head levels scope args) (.head levels' scope args)
  | argument {levels levels' : Nat} (h : k ≤ levels') (scope : FrameId) (f : Value)
      (done rest : List Value) :
      Raised k (.argument levels scope f done rest) (.argument levels' scope f done rest)
  | definition (scope : FrameId) (name : String) :
      Raised k (.definition scope name) (.definition scope name)
  | branch {levels levels' : Nat} (h : k ≤ levels') (scope : FrameId) (consequence : Value)
      (alternative? : Option Value) :
      Raised k (.branch levels scope consequence alternative?)
        (.branch levels' scope consequence alternative?)
  | specifier {levels levels' : Nat} (h : k ≤ levels') (scope : FrameId) :
      Raised k (.specifier levels scope) (.specifier levels' scope)
  | form {levels levels' : Nat} (h : k ≤ levels') (module? : Option Path) (scope : FrameId)
      (rest : List Value) (stop? : Option ReadingStop) :
      Raised k (.form module? levels scope rest stop?) (.form module? levels' scope rest stop?)

/-- The same machine, with so many levels at least. -/
structure Raised (k : Nat) (m m' : Machine) : Prop where
  control : m.control.Raised k m'.control
  tasks : List.Forall₂ (Task.Raised k) m.tasks m'.tasks
  store : m'.store = m.store

variable {k l levels levels' : Nat} {tasks tasks' : List Task} {task task' : Task} {s : Store}

theorem Task.Raised.mono (h : task.Raised k task') (hl : l ≤ k) : task.Raised l task' := by
  cases h with
  | head h => exact .head (Nat.le_trans hl h) _ _
  | argument h => exact .argument (Nat.le_trans hl h) _ _ _ _
  | definition => exact .definition _ _
  | branch h => exact .branch (Nat.le_trans hl h) _ _ _
  | specifier h => exact .specifier (Nat.le_trans hl h) _
  | form h => exact .form (Nat.le_trans hl h) _ _ _ _

namespace Raised

theorem fault (ht : List.Forall₂ (Task.Raised k) tasks tasks') (f : Fault) :
    Raised k ⟨.fault f, tasks, s⟩ ⟨.fault f, tasks', s⟩ :=
  ⟨.fault f, ht, rfl⟩

theorem value (ht : List.Forall₂ (Task.Raised k) tasks tasks') (v : Value) :
    Raised k ⟨.value v, tasks, s⟩ ⟨.value v, tasks', s⟩ :=
  ⟨.value v, ht, rfl⟩

theorem expr (ht : List.Forall₂ (Task.Raised k) tasks tasks') (h : k ≤ levels') (e : Value)
    (scope : FrameId) :
    Raised k ⟨.expr levels e scope, tasks, s⟩ ⟨.expr levels' e scope, tasks', s⟩ :=
  ⟨.expr h e scope, ht, rfl⟩

theorem after (ht : List.Forall₂ (Task.Raised k) tasks tasks')
    (outcome : Except Fault Value × Store) :
    Raised k (after tasks outcome) (after tasks' outcome) := by
  obtain ⟨result, t⟩ := outcome
  cases result with
  | error f => exact .fault ht f
  | ok v => exact .value ht v

end Raised

section Parts
-- no step goes down by more levels than the evaluation of a module's text does
variable {limit : Nat} (h : k + 4 ≤ levels') (ht : List.Forall₂ (Task.Raised k) tasks tasks')
include h ht

theorem enter_raised (levels : Nat) (f : Value) (args : List Value) :
    Raised k (enter limit levels f args tasks s) (enter limit levels' f args tasks' s) := by
  cases f with
  | fn params body scope =>
    simp only [enter]
    split
    · exact .expr ht (by omega) _ _
    · exact .fault ht _
  | native g => exact .after ht _
  | _ => exact .fault ht _

theorem continueCall_raised (levels : Nat) (scope : FrameId) (f : Value) (done rest : List Value) :
    Raised k (continueCall limit levels scope f done rest tasks s)
      (continueCall limit levels' scope f done rest tasks' s) := by
  cases rest with
  | nil => exact enter_raised h ht levels f done.reverse
  | cons expr rest => exact .expr (.cons (.argument (by omega) _ _ _ _) ht) (by omega) _ _

theorem enterForm_raised (levels : Nat) (scope : FrameId) (form : SpecialForm)
    (args : List Value) :
    Raised k (enterForm limit levels scope form args tasks s)
      (enterForm limit levels' scope form args tasks' s) := by
  cases formShape form args with
  | quote v => exact .value ht v
  | malformed hm =>
    rw [enterForm_malformed hm, enterForm_malformed hm]
    exact .fault ht _
  | lambda params body => exact .after ht _
  | define target expr =>
    simp only [enterForm]
    rcases boundName limit target with f | name
    · exact .fault ht f
    · exact .expr (.cons (.definition _ _) ht) (by omega) _ _
  | conditional condition consequence alternative? =>
    rw [enterForm_conditional, enterForm_conditional]
    exact .expr (.cons (.branch (by omega) _ _ _) ht) (by omega) _ _
  | require expr => exact .expr (.cons (.specifier (by omega) _) ht) (by omega) _ _

theorem enterExpr_raised (levels : Nat) (e : Value) (scope : FrameId) :
    Raised k (enterExpr limit levels e scope tasks s)
      (enterExpr limit levels' e scope tasks' s) := by
  unfold enterExpr
  split
  case h_1 name => exact .after ht _
  case h_2 word args =>
    rcases SpecialForm.ofKeyword? word with _ | form
    · simp only
      rcases Scope.resolveHead s.heap scope word with e | f
      · exact .fault ht _
      · exact continueCall_raised h ht levels scope f [] args
    · exact enterForm_raised h ht levels scope form args
  case h_3 head args _ => exact .expr (.cons (.head (by omega) _ _) ht) (by omega) _ _
  case h_4 => exact .value ht _

theorem continueForms_raised (setting : Setting) (module? : Option Path) (levels : Nat)
    (scope : FrameId) (last : Value) (rest : List Value) (stop? : Option ReadingStop) :
    Raised k (continueForms setting module? levels scope last rest stop? tasks s)
      (continueForms setting module? levels' scope last rest stop? tasks' s) := by
  cases rest with
  | cons form rest => exact .expr (.cons (.form (by omega) _ _ _ _) ht) (by omega) _ _
  | nil =>
    cases module? <;> cases stop?
    · exact .value ht _
    · exact .fault ht _
    · exact ⟨.value _, ht, rfl⟩
    · exact ⟨.fault _, ht, rfl⟩

theorem enterLoad_raised (setting : Setting) (levels : Nat) (path : Path) :
    Raised k (enterLoad setting levels path tasks s)
      (enterLoad setting levels' path tasks' s) := by
  unfold enterLoad
  split
  next m hm => exact .value ht _
  next hk =>
    split
    · exact .fault ht _
    · split
      next e he => exact .fault ht _
      next text htext => exact ⟨.value _, .cons (.form (by omega) _ _ _ _) ht, rfl⟩

theorem enterRequire_raised (setting : Setting) (levels : Nat) (scope : FrameId)
    (specifier : String) :
    Raised k (enterRequire setting levels scope specifier tasks s)
      (enterRequire setting levels' scope specifier tasks' s) := by
  unfold enterRequire
  split
  next m hm => exact .value ht _
  next hn =>
    split
    next path hp => exact enterLoad_raised h ht setting levels path
    next f hp => exact .fault ht f

end Parts

theorem resume_raised (setting : Setting) (v : Value) (h : task.Raised (k + 4) task')
    (ht : List.Forall₂ (Task.Raised k) tasks tasks') :
    Raised k (resume setting v task tasks s) (resume setting v task' tasks' s) := by
  cases h with
  | head h => exact continueCall_raised h ht _ _ v [] _
  | argument h => exact continueCall_raised h ht _ _ _ _ _
  | definition scope name => exact ⟨.value v, ht, rfl⟩
  | branch h scope consequence alternative? =>
    simp only [resume]
    split
    · exact .expr ht (by omega) _ _
    · cases alternative? with
      | none => exact .value ht _
      | some alternative => exact .expr ht (by omega) _ _
  | specifier h scope =>
    simp only [resume]
    rcases specifier? v with _ | specifier
    · exact .fault ht _
    · exact enterRequire_raised h ht setting _ scope specifier
  | form h => exact continueForms_raised h ht setting _ _ _ v _ _

theorem drop_raised (f : Fault) (h : task.Raised k task')
    (ht : List.Forall₂ (Task.Raised k) tasks tasks') :
    Raised k (drop f task tasks s) (drop f task' tasks' s) := by
  cases h with
  | form h module? =>
    cases module? with
    | none => exact .fault ht f
    | some path => exact ⟨.fault _, ht, rfl⟩
  | _ => exact .fault ht f

variable {setting : Setting} {m m' n n' : Machine}

/-- **With levels left a machine does what it does without a limit.** -/
theorem Raised.next (h : m.Raised (k + 5) m') (hn : m.nextUnlimited setting = some n) :
    ∃ n', m'.next setting = some n' ∧ n.Raised k n' := by
  obtain ⟨control, tasks, s⟩ := m
  obtain ⟨control', tasks', s'⟩ := m'
  obtain ⟨hc, ht, rfl⟩ := h
  have hlower : List.Forall₂ (Task.Raised k) tasks tasks' :=
    ht.imp fun _ _ h => h.mono (Nat.le_add_right k 5)
  cases hc with
  | @expr levels levels' hle e scope =>
    obtain ⟨levels', rfl⟩ := Nat.exists_eq_add_of_lt hle
    cases hn
    exact ⟨_, rfl, enterExpr_raised (by omega) hlower 0 e scope⟩
  | value v =>
    cases ht with
    | nil => cases hn
    | cons htask ht =>
      cases hn
      cases hlower with
      | cons _ hlower =>
        exact ⟨_, rfl, resume_raised setting v (htask.mono (Nat.le_succ _)) hlower⟩
  | fault f =>
    cases ht with
    | nil => cases hn
    | cons htask ht =>
      cases hn
      cases hlower with
      | cons htask hlower => exact ⟨_, rfl, drop_raised f htask hlower⟩

/-- A run without a limit is made with so many levels to begin with. -/
theorem exists_raised_of_unlimitedRuns (h : UnlimitedRuns setting m n) :
    ∃ N, ∀ (k : Nat) (m' : Machine), m.Raised (k + N) m' →
      ∃ n', Runs setting m' n' ∧ n.Raised k n' := by
  induction h using Relation.ReflTransGen.head_induction_on with
  | refl => exact ⟨0, fun k m' hm => ⟨m', .refl, hm⟩⟩
  | head hstep _ ih =>
    obtain ⟨N, hN⟩ := ih
    refine ⟨N + 5, fun k m' hm => ?_⟩
    obtain ⟨next', hnext, hraised⟩ := hm.next hstep
    obtain ⟨n', hruns, hn⟩ := hN k next' hraised
    exact ⟨n', .head hnext hruns, hn⟩

theorem eq_after_of_raised {outcome : Except Fault Value × Store}
    (h : Raised k (after [] outcome) n) : n = after [] outcome := by
  obtain ⟨result, t⟩ := outcome
  obtain ⟨control, tasks, s⟩ := n
  obtain ⟨hc, ht, rfl⟩ := h
  cases ht
  cases result with
  | error f =>
    cases hc
    rfl
  | ok v =>
    cases hc
    rfl

theorem after_nil_injective {a b : Except Fault Value × Store} (h : after [] a = after [] b) :
    a = b := by
  obtain ⟨r, s⟩ := a
  obtain ⟨r', t⟩ := b
  cases r <;> cases r' <;> cases h <;> rfl

/-- **A run to the end without a limit is what a text comes to with levels enough.** -/
theorem eval_of_unlimitedRuns {scope : FrameId} {text : List Char} {s : Store}
    {outcome : Except Fault Value × Store}
    (h : UnlimitedRuns setting (ofScript 0 scope (Script.ofText setting.nestingLimit text) s)
      (after [] outcome)) :
    ∃ N, ∀ levels ≥ N,
      (evaluateText setting (eval setting levels) scope text).run s = outcome := by
  obtain ⟨N, hN⟩ := exists_raised_of_unlimitedRuns h
  refine ⟨N, fun levels hle => ?_⟩
  have hstart : Raised (0 + N) (ofScript 0 scope (Script.ofText setting.nestingLimit text) s)
      (ofScript levels scope (Script.ofText setting.nestingLimit text) s) :=
    .value (.cons (.form (by omega) _ _ _ _) .nil) .nil
  obtain ⟨n, hruns, hn⟩ := hN 0 _ hstart
  rw [eq_after_of_raised hn] at hruns
  have hscript := runs_script setting levels scope (Script.ofText setting.nestingLimit text) s
  exact after_nil_injective
    (hscript.done_unique hruns (next_after_nil _) (next_after_nil _))

end Machine

end SmallLisp
