import SmallLisp.Proofs.Running

/-! # Plain faults

Nearly all that can go wrong in an evaluation is an error of the language that says what is wrong
with the values at hand, or exhaustion (`Fault.isPlain`).  What natives, special forms and the
look-up of names complain about is of this kind, one lemma for each of them.  The other faults
come from the loading of modules: that a module requires itself, that its text cannot be read or its
load has failed, and that its path leads nowhere because a name on it has the character U+0000 or a
link leads back to itself.
-/
namespace SmallLisp
open Evaluation

variable {limit : Nat}

/-- Whether a fault is one that only the loading of modules makes: that a module requires itself,
that its text cannot be read, or that its load failed. -/
def Fault.isOfLoad : Fault → Bool
  | .lisp (.circularRequire _) | .lisp (.malformedModule _ _) | .lisp (.failedModule _ _) => true
  | _ => false

/-- Whether a fault is neither one of the loading of modules nor a fault of a path. -/
def Fault.isPlain : Fault → Bool
  | .nullInPath | .linkLoop _ => false
  | f => !f.isOfLoad

theorem Fault.isOfLoad_of_isPlain {f : Fault} (h : f.isPlain = true) : f.isOfLoad = false := by
  cases f with
  | lisp e => simpa only [isPlain, Bool.not_eq_true'] using h
  | _ => rfl

theorem isOfLoad_pathFault (path : Path) (e : PathFault) : (pathFault path e).isOfLoad = false := by
  cases e <;> rfl

/-- A computation that ends with no faults but plain ones. -/
def PlainFaults {α : Type} (result : Except Fault α) : Prop :=
  ∀ f, result = .error f → f.isPlain = true

section Plain
variable {α β : Type}

theorem plainFaults_ok (a : α) : PlainFaults (.ok a : Except Fault α) := by
  intro f hf
  cases hf

theorem plainFaults_error {f : Fault} (h : f.isPlain = true) :
    PlainFaults (.error f : Except Fault α) := by
  intro g hg
  cases hg
  exact h

theorem plainFaults_bind {x : Except Fault α} {f : α → Except Fault β} (hx : PlainFaults x)
    (hf : ∀ a, PlainFaults (f a)) : PlainFaults (x >>= f) := by
  cases x with
  | error e => exact plainFaults_error (hx e rfl)
  | ok a => exact hf a

theorem isPlain_wrongType (expected : Expectation) (v : Value) :
    (Fault.wrongType limit expected v).isPlain = true := by
  unfold Fault.wrongType Value.writeReadable
  by_cases hw : v.isWritable limit = true <;> simp [hw, Fault.isPlain, Fault.isOfLoad]

theorem isPlain_notAFunction (v : Value) : (Fault.notAFunction limit v).isPlain = true := by
  unfold Fault.notAFunction Value.writeReadable
  by_cases hw : v.isWritable limit = true <;> simp [hw, Fault.isPlain, Fault.isOfLoad]

end Plain

namespace Arithmetic

theorem plainFaults_number (v : Value) : PlainFaults (number limit v) := by
  cases v with
  | num x => exact plainFaults_ok x
  | _ => exact plainFaults_error (isPlain_wrongType _ _)

theorem plainFaults_numbers (args : List Value) : PlainFaults (numbers limit args) := by
  induction args with
  | nil => exact plainFaults_ok []
  | cons v rest ih =>
    exact plainFaults_bind (plainFaults_number v) fun x =>
      plainFaults_bind ih fun xs => plainFaults_ok _

theorem plainFaults_divideBy (x : Float) (place : Nat) (args : List Value) :
    PlainFaults (divideBy limit x place args) := by
  induction args generalizing x place with
  | nil => exact plainFaults_ok x
  | cons v rest ih =>
    refine plainFaults_bind (plainFaults_number v) fun y => ?_
    by_cases hy : (y == 0) = true
    · simp only [hy, if_true]
      exact plainFaults_error rfl
    · simp only [hy, Bool.false_eq_true, if_false]
      exact ih _ _

theorem plainFaults_allEqual (x : Float) (args : List Value) :
    PlainFaults (allEqual limit x args) := by
  induction args with
  | nil => exact plainFaults_ok true
  | cons v rest ih =>
    refine plainFaults_bind (plainFaults_number v) fun y => ?_
    by_cases hy : (y == x) = true
    · simp only [hy, if_true]
      exact ih
    · simp only [hy, Bool.false_eq_true, if_false]
      exact plainFaults_ok false

theorem plainFaults_compare (f : Arithmetic) (holds : Float → Float → Bool) (args : List Value) :
    PlainFaults (compare limit f holds args) := by
  rcases args with _ | ⟨v, _ | ⟨w, _ | ⟨u, rest⟩⟩⟩
  · exact plainFaults_error rfl
  · exact plainFaults_error rfl
  · exact plainFaults_bind (plainFaults_number v) fun x =>
      plainFaults_bind (plainFaults_number w) fun y => plainFaults_ok _
  · exact plainFaults_error rfl

theorem plainFaults_apply (f : Arithmetic) (args : List Value) :
    PlainFaults (f.apply limit args) := by
  cases f with
  | add | multiply => exact plainFaults_bind (plainFaults_numbers args) fun xs => plainFaults_ok _
  | less | greater | atMost | atLeast => exact plainFaults_compare _ _ args
  | subtract =>
    rcases args with _ | ⟨v, _ | ⟨w, rest⟩⟩
    · exact plainFaults_error rfl
    · exact plainFaults_bind (plainFaults_number v) fun x => plainFaults_ok _
    · exact plainFaults_bind (plainFaults_number v) fun x =>
        plainFaults_bind (plainFaults_numbers _) fun xs => plainFaults_ok _
  | divide =>
    rcases args with _ | ⟨v, _ | ⟨w, rest⟩⟩
    · exact plainFaults_error rfl
    · refine plainFaults_bind (plainFaults_number v) fun x => ?_
      by_cases hx : (x == 0) = true
      · simp only [hx, if_true]
        exact plainFaults_error rfl
      · simp only [hx, Bool.false_eq_true, if_false]
        exact plainFaults_ok _
    · exact plainFaults_bind (plainFaults_number v) fun x =>
        plainFaults_bind (plainFaults_divideBy x 2 _) fun y => plainFaults_ok _
  | equal =>
    rcases args with _ | ⟨v, _ | ⟨w, rest⟩⟩
    · exact plainFaults_error rfl
    · exact plainFaults_error rfl
    · exact plainFaults_bind (plainFaults_number v) fun x =>
        plainFaults_bind (plainFaults_allEqual x _) fun b => plainFaults_ok _

end Arithmetic

namespace StringFunction

theorem plainFaults_string (v : Value) : PlainFaults (string limit v) := by
  cases v with
  | str s => exact plainFaults_ok _
  | _ => exact plainFaults_error (isPlain_wrongType _ _)

theorem plainFaults_concatAll (args : List Value) : PlainFaults (concatAll limit args) := by
  induction args with
  | nil => exact plainFaults_ok []
  | cons v rest ih =>
    exact plainFaults_bind (plainFaults_string v) fun s =>
      plainFaults_bind ih fun t => plainFaults_ok _

theorem plainFaults_single (f : StringFunction) (args : List Value) :
    PlainFaults (single limit f args) := by
  rcases args with _ | ⟨v, _ | ⟨w, rest⟩⟩
  · exact plainFaults_error rfl
  · exact plainFaults_string v
  · exact plainFaults_error rfl

theorem plainFaults_formatted (s : List Char) (args : List Value) :
    PlainFaults (formatted limit s args) := by
  unfold formatted
  intro f hf
  simp only at hf
  split at hf
  · cases hf
  · cases hf
    rfl

theorem plainFaults_apply (f : StringFunction) (args : List Value) :
    PlainFaults (f.apply limit args) := by
  cases f with
  | concat => exact plainFaults_bind (plainFaults_concatAll args) fun s => plainFaults_ok _
  | reverse | length | upper | lower | trim =>
    exact plainFaults_bind (plainFaults_single _ args) fun s => plainFaults_ok _
  | format =>
    rcases args with _ | ⟨v, rest⟩
    · exact plainFaults_error rfl
    · cases v with
      | str s => exact plainFaults_formatted _ rest
      | _ => exact plainFaults_error (isPlain_wrongType _ _)

end StringFunction

namespace ListFunction

theorem plainFaults_items (v : Value) : PlainFaults (items limit v) := by
  cases v with
  | nil => exact plainFaults_ok []
  | list vs => exact plainFaults_ok vs
  | _ => exact plainFaults_error (isPlain_wrongType _ _)

theorem plainFaults_single (f : ListFunction) (args : List Value) :
    PlainFaults (single limit f args) := by
  rcases args with _ | ⟨v, _ | ⟨w, rest⟩⟩
  · exact plainFaults_error rfl
  · exact plainFaults_items v
  · exact plainFaults_error rfl

theorem plainFaults_apply (f : ListFunction) (args : List Value) :
    PlainFaults (f.apply limit args) := by
  cases f with
  | list => exact plainFaults_ok _
  | cons =>
    rcases args with _ | ⟨v, _ | ⟨w, _ | ⟨u, rest⟩⟩⟩
    · exact plainFaults_error rfl
    · exact plainFaults_error rfl
    · exact plainFaults_bind (plainFaults_items w) fun vs => plainFaults_ok _
    · exact plainFaults_error rfl
  | car | cdr =>
    refine plainFaults_bind (plainFaults_single _ args) fun vs => ?_
    cases vs with
    | nil => exact plainFaults_error rfl
    | cons v rest => exact plainFaults_ok _
  | length | isEmpty =>
    exact plainFaults_bind (plainFaults_single _ args) fun vs => plainFaults_ok _

end ListFunction

namespace Evaluation

theorem plainFaults_callNative {f : Native} {args : List Value} {s t : Store}
    {result : Except Fault Value} (h : (callNative limit f args).run s = (result, t)) :
    PlainFaults result := by
  cases f with
  | arithmetic g =>
    have hg := Action.run_ofExcept (g.apply limit args) s
    cases hg.symm.trans h
    exact g.plainFaults_apply args
  | string g =>
    have hg := Action.run_ofExcept (g.apply limit args) s
    cases hg.symm.trans h
    exact g.plainFaults_apply args
  | list g =>
    have hg := Action.run_ofExcept (g.apply limit args) s
    cases hg.symm.trans h
    exact g.plainFaults_apply args
  | idle name =>
    cases h
    exact plainFaults_ok _
  | log g =>
    rcases run_log limit g args with ⟨line, out, hrun⟩ | hrun
    · rw [hrun] at h
      cases h
      exact plainFaults_ok _
    · rw [hrun] at h
      cases h
      exact plainFaults_error rfl

theorem plainFaults_boundName (target : Value) : PlainFaults (boundName limit target) := by
  cases target with
  | sym name =>
    rw [boundName]
    split
    · exact plainFaults_error rfl
    · exact plainFaults_ok name
  | _ => exact plainFaults_error (isPlain_wrongType _ _)

theorem plainFaults_parameters (params : List Value) : PlainFaults (parameters limit params) := by
  induction params with
  | nil => exact plainFaults_ok []
  | cons v rest ih =>
    cases v with
    | sym name =>
      rw [parameters]
      split
      · exact plainFaults_error rfl
      · exact plainFaults_bind ih fun names => plainFaults_ok _
    | _ => exact plainFaults_error (isPlain_wrongType _ _)

theorem plainFaults_lambdaResult (scope : FrameId) (params body : Value) :
    PlainFaults (lambdaResult limit scope params body) := by
  cases params with
  | list ps =>
    rw [lambdaResult]
    rcases hr : parameters limit ps with e | names
    · exact plainFaults_error (plainFaults_parameters ps e hr)
    · exact plainFaults_ok _
  | _ => exact plainFaults_error (isPlain_wrongType _ _)

theorem plainFaults_resolve (h : Heap) (scope : FrameId) (name : String) :
    PlainFaults ((Scope.resolve h scope name).mapError .lisp) := by
  intro f hf
  unfold Scope.resolve Scope.plain Scope.member at hf
  repeat' split at hf
  all_goals cases hf
  all_goals rfl

theorem isPlain_resolveHead {h : Heap} {scope : FrameId} {name : String} {e : LispError}
    (he : Scope.resolveHead h scope name = .error e) : (Fault.lisp e).isPlain = true := by
  unfold Scope.resolveHead Scope.plain Scope.member at he
  simp only at he
  repeat' split at he
  all_goals cases he
  all_goals rfl

theorem plainFaults_candidatePath (setting : Setting) (specifier : String) :
    PlainFaults (candidatePath setting specifier) := by
  unfold candidatePath
  intro f hf
  simp only at hf
  repeat' split at hf
  all_goals cases hf
  all_goals rfl

/-- What goes wrong when a specifier is resolved is plain or a fault of the path that it names. -/
theorem cases_of_modulePath {setting : Setting} {specifier : String} {f : Fault}
    (h : modulePath setting specifier = .error f) :
    f.isPlain = true ∨ ∃ path e, candidatePath setting specifier = .ok path ∧
      setting.files.canonical [] path = .error e ∧ f = pathFault path e := by
  rw [modulePath] at h
  rcases hc : candidatePath setting specifier with f' | path
  · rw [hc] at h
    cases h
    exact .inl (plainFaults_candidatePath setting specifier _ hc)
  · rw [hc] at h
    simp only [bind, Except.bind] at h
    split at h
    · cases h
    · cases h
      exact .inl rfl
    next e _ he =>
      cases h
      exact .inr ⟨path, e, rfl, he, rfl⟩

theorem isOfLoad_of_modulePath {setting : Setting} {specifier : String} {f : Fault}
    (h : modulePath setting specifier = .error f) : f.isOfLoad = false := by
  rcases cases_of_modulePath h with hplain | ⟨path, e, -, -, rfl⟩
  · exact Fault.isOfLoad_of_isPlain hplain
  · exact isOfLoad_pathFault path e

end Evaluation

end SmallLisp
