import SmallLisp.Proofs.Machine
import SmallLisp.Proofs.NativeLikeness

/-! # Machines in lockstep

Two machines that differ in their frames alone, where frames correspond one to one, make the same
steps: they look up alike values, call alike functions in new frames that correspond, print the
same lines and fail with the same faults.  Only files could tell them apart, for the two may work
under different settings and with different modules kept.  So they stay in lockstep as long as no
`require` looks for a file (`Machine.SeeksFile`), and that is decided by either of them
(`Machine.Twins.runs`).
-/
namespace SmallLisp
open Evaluation

namespace Machine

/-- A `require` is about to look for a file: no module is bound to its specifier. -/
def SeeksFile (m : Machine) : Prop :=
  ∃ v levels scope tasks specifier, m.control = .value v ∧
    m.tasks = .specifier levels scope :: tasks ∧ specifier? v = some specifier ∧
    (m.store.heap.get? scope specifier).bind Value.module? = none

/-- No file is looked for until the machine is done. -/
def SeeksNone (setting : Setting) (m : Machine) : Prop :=
  ∀ b, Runs setting m b → ¬ SeeksFile b

section Twins
variable (rel : FrameId → FrameId → Prop)

/-- Machines about to do alike things. -/
inductive Control.Like : Control → Control → Prop
  | expr {levels : Nat} {e e' : Value} {scope scope' : FrameId} (he : e.Like rel e')
      (hs : rel scope scope') : Like (.expr levels e scope) (.expr levels e' scope')
  | value {v w : Value} (hv : v.Like rel w) : Like (.value v) (.value w)
  | fault (e : Fault) : Like (.fault e) (.fault e)

/-- Tasks that wait for alike values, to do alike things; none of them is a module or a text. -/
inductive Task.Like : Task → Task → Prop
  | head {levels : Nat} {scope scope' : FrameId} {args args' : List Value}
      (hs : rel scope scope') (ha : List.Forall₂ (Value.Like rel) args args') :
      Like (.head levels scope args) (.head levels scope' args')
  | argument {levels : Nat} {scope scope' : FrameId} {f f' : Value}
      {done done' rest rest' : List Value} (hs : rel scope scope') (hf : f.Like rel f')
      (hd : List.Forall₂ (Value.Like rel) done done')
      (hr : List.Forall₂ (Value.Like rel) rest rest') :
      Like (.argument levels scope f done rest) (.argument levels scope' f' done' rest')
  | definition {scope scope' : FrameId} (hs : rel scope scope') (name : String) :
      Like (.definition scope name) (.definition scope' name)
  | branch {levels : Nat} {scope scope' : FrameId} {consequence consequence' : Value}
      {alternative? alternative?' : Option Value} (hs : rel scope scope')
      (hc : consequence.Like rel consequence')
      (ha : Option.Rel (Value.Like rel) alternative? alternative?') :
      Like (.branch levels scope consequence alternative?)
        (.branch levels scope' consequence' alternative?')
  | specifier {levels : Nat} {scope scope' : FrameId} (hs : rel scope scope') :
      Like (.specifier levels scope) (.specifier levels scope')

/-- Stores with alike heaps that both have come as far as the other from where they started. -/
structure Abreast (s₀ s₀' s s' : Store) : Prop where
  heap : s.heap.Alike rel s'.heap
  size : ∃ k, s.heap.size = s₀.heap.size + k ∧ s'.heap.size = s₀'.heap.size + k
  printed : ∃ out, s.printed = out ++ s₀.printed ∧ s'.printed = out ++ s₀'.printed

/-- Machines that differ in their frames alone. -/
structure Twins (s₀ s₀' : Store) (m m' : Machine) : Prop where
  control : Control.Like rel m.control m'.control
  tasks : List.Forall₂ (Task.Like rel) m.tasks m'.tasks
  store : Abreast rel s₀ s₀' m.store m'.store

/-- Frames correspond one to one, and from two stores on all new ones do. -/
structure Matches (s₀ s₀' : Store) : Prop where
  unique : ∀ {a b x y}, rel a b → rel x y → (x = a ↔ y = b)
  fresh : ∀ k, rel (s₀.heap.size + k) (s₀'.heap.size + k)

end Twins

section Steps
variable {rel : FrameId → FrameId → Prop} {s₀ s₀' s s' : Store} {tasks tasks' : List Task}
  {scope scope' : FrameId} {limit : Nat}

theorem Abreast.refl (h : s.heap.Alike rel s'.heap) : Abreast rel s s' s s' :=
  ⟨h, ⟨0, rfl, rfl⟩, ⟨[], rfl, rfl⟩⟩

theorem Abreast.printing (h : Abreast rel s₀ s₀' s s') (out : List Printed) :
    Abreast rel s₀ s₀' { s with printed := out ++ s.printed }
      { s' with printed := out ++ s'.printed } := by
  obtain ⟨before, hb, hb'⟩ := h.printed
  refine ⟨h.heap, h.size, ⟨out ++ before, ?_, ?_⟩⟩
  · rw [List.append_assoc, ← hb]
  · rw [List.append_assoc, ← hb']

theorem Abreast.entering (hm : Matches rel s₀ s₀') (h : Abreast rel s₀ s₀' s s')
    {outer outer' : FrameId} (ho : rel outer outer') {bindings bindings' : Table String Value}
    (hb : bindings.Alike rel bindings') :
    Abreast rel s₀ s₀' (s.entering outer bindings) (s'.entering outer' bindings') ∧
      rel s.heap.size s'.heap.size := by
  obtain ⟨k, hk, hk'⟩ := h.size
  have hnew : rel s.heap.size s'.heap.size := by
    rw [hk, hk']
    exact hm.fresh k
  refine ⟨⟨h.heap.alloc (fun x y hxy => hm.unique hnew hxy) ho hb, ⟨k + 1, ?_, ?_⟩, h.printed⟩, hnew⟩
  · exact (Heap.size_alloc _ _ _).trans (congrArg Nat.succ hk)
  · exact (Heap.size_alloc _ _ _).trans (congrArg Nat.succ hk')

theorem Abreast.defining (hm : Matches rel s₀ s₀') (h : Abreast rel s₀ s₀' s s')
    (hs : rel scope scope') (name : String) {v w : Value} (hv : v.Like rel w) :
    Abreast rel s₀ s₀' (s.defining scope name v) (s'.defining scope' name w) := by
  obtain ⟨k, hk, hk'⟩ := h.size
  refine ⟨h.heap.define (fun x y hxy => hm.unique hs hxy) name hv, ⟨k, ?_, ?_⟩, h.printed⟩
  · exact (Heap.size_define _ _ _ _).trans hk
  · exact (Heap.size_define _ _ _ _).trans hk'

/-! ## Calls -/

theorem Twins.fault (ht : List.Forall₂ (Task.Like rel) tasks tasks')
    (h : Abreast rel s₀ s₀' s s') {e e' : Fault} (he : e = e') :
    Twins rel s₀ s₀' ⟨.fault e, tasks, s⟩ ⟨.fault e', tasks', s'⟩ :=
  he ▸ ⟨.fault e, ht, h⟩

theorem Twins.after (ht : List.Forall₂ (Task.Like rel) tasks tasks')
    (h : Abreast rel s₀ s₀' s s') {result result' : Except Fault Value}
    (hr : Agree (Value.Like rel) result result') :
    Twins rel s₀ s₀' (after tasks (result, s)) (after tasks' (result', s')) := by
  cases hr with
  | ok hv => exact ⟨.value hv, ht, h⟩
  | error e => exact ⟨.fault e, ht, h⟩

theorem Control.Like.agree {result result' : Except Fault Value}
    (h : Control.Like rel (.ofResult result) (.ofResult result')) :
    Agree (Value.Like rel) result result' := by
  rcases result with e | v <;> rcases result' with e' | w
  · cases h
    exact .error e
  · cases h
  · cases h
  · cases h with
    | value hv => exact .ok hv

theorem enter_twins (hm : Matches rel s₀ s₀') (ht : List.Forall₂ (Task.Like rel) tasks tasks')
    (h : Abreast rel s₀ s₀' s s') (levels : Nat) {f f' : Value} {args args' : List Value}
    (hf : f.Like rel f') (ha : List.Forall₂ (Value.Like rel) args args') :
    Twins rel s₀ s₀' (enter limit levels f args tasks s)
      (enter limit levels f' args' tasks' s') := by
  have hnot := hf.notAFunction limit
  cases hf with
  | list _ _ => exact .fault ht h hnot
  | module _ => exact .fault ht h hnot
  | fn hbody hs =>
    simp only [enter, ha.length_eq]
    split
    · obtain ⟨hnext, hnew⟩ := h.entering hm hs (Table.Alike.empty.insertAll_zip _ ha)
      exact ⟨.expr hbody hnew, ht, hnext⟩
    · exact .fault ht h rfl
  | atom hs hl =>
    cases f with
    | native g =>
      obtain ⟨result, result', out, hr, hrun, hrun'⟩ := callNative_alike limit ha g
      simp only [enter, hrun, hrun']
      exact .after ht (h.printing out) hr
    | fn params body scope => cases hs
    | _ => exact .fault ht h rfl

theorem continueCall_twins (hm : Matches rel s₀ s₀')
    (ht : List.Forall₂ (Task.Like rel) tasks tasks') (h : Abreast rel s₀ s₀' s s') (levels : Nat)
    (hs : rel scope scope') {f f' : Value} {done done' rest rest' : List Value}
    (hf : f.Like rel f') (hd : List.Forall₂ (Value.Like rel) done done')
    (hr : List.Forall₂ (Value.Like rel) rest rest') :
    Twins rel s₀ s₀' (continueCall limit levels scope f done rest tasks s)
      (continueCall limit levels scope' f' done' rest' tasks' s') := by
  cases hr with
  | nil => exact enter_twins hm ht h levels hf (List.forall₂_reverse_iff.2 hd)
  | cons he hr => exact ⟨.expr he hs, .cons (.argument hs hf hd hr) ht, h⟩

/-! ## Special forms -/

theorem enterForm_twins (ht : List.Forall₂ (Task.Like rel) tasks tasks')
    (h : Abreast rel s₀ s₀' s s') (levels : Nat) (hs : rel scope scope') (form : SpecialForm)
    {args args' : List Value} (ha : List.Forall₂ (Value.Like rel) args args') :
    Twins rel s₀ s₀' (enterForm limit levels scope form args tasks s)
      (enterForm limit levels scope' form args' tasks' s') := by
  cases formShape form args with
  | malformed hm =>
    rw [enterForm_malformed hm, enterForm_malformed (ha.length_eq ▸ hm), ha.length_eq]
    exact .fault ht h rfl
  | quote v =>
    rcases ha with _ | ⟨hv, _ | _⟩
    exact ⟨.value hv, ht, h⟩
  | lambda params body =>
    rcases ha with _ | ⟨hp, _ | ⟨hb, _ | _⟩⟩
    exact .after ht h (lambdaResult_alike hs hp hb)
  | define target expr =>
    rcases ha with _ | ⟨htarget, _ | ⟨he, _ | _⟩⟩
    simp only [enterForm, boundName_eq htarget]
    split
    · exact .fault ht h rfl
    · exact ⟨.expr he hs, .cons (.definition hs _) ht, h⟩
  | conditional condition consequence alternative? =>
    rw [enterForm_conditional]
    rcases ha with _ | ⟨hcond, _ | ⟨hcons, hrest⟩⟩
    cases alternative? with
    | none =>
      rcases hrest with _ | _
      exact ⟨.expr hcond hs, .cons (.branch hs hcons .none) ht, h⟩
    | some alternative =>
      rcases hrest with _ | ⟨halt, _ | _⟩
      exact ⟨.expr hcond hs, .cons (.branch hs hcons (.some halt)) ht, h⟩
  | require expr =>
    rcases ha with _ | ⟨he, _ | _⟩
    exact ⟨.expr he hs, .cons (.specifier hs) ht, h⟩

theorem enterExpr_twins (hm : Matches rel s₀ s₀') (ht : List.Forall₂ (Task.Like rel) tasks tasks')
    (h : Abreast rel s₀ s₀' s s') (levels : Nat) (hs : rel scope scope') {e e' : Value}
    (he : e.Like rel e') :
    Twins rel s₀ s₀' (enterExpr limit levels e scope tasks s)
      (enterExpr limit levels e' scope' tasks' s') := by
  have hself := he
  cases he with
  | fn _ _ => exact ⟨.value hself, ht, h⟩
  | module _ => exact ⟨.value hself, ht, h⟩
  | atom hsc hl =>
    cases e with
    | sym name => exact .after ht h (Scope.resolve_alike h.heap hs name)
    | list items => exact absurd rfl (hl items)
    | fn params body scope => cases hsc
    | module m => cases hsc
    | _ => exact ⟨.value hself, ht, h⟩
  | list hl hitems =>
    have hvs := Value.Like.list_iff.1 hself
    cases hvs with
    | nil => exact ⟨.value hself, ht, h⟩
    | @cons head head' args args' hhead hargs =>
      have hh := hhead
      cases hhead with
      | atom _ _ =>
        cases head with
        | sym word =>
          rcases hw : SpecialForm.ofKeyword? word with _ | form
          · simp only [enterExpr, hw]
            have hf := Scope.resolveHead_alike h.heap hs word
            revert hf
            rcases Scope.resolveHead s.heap scope word with e | f <;>
              rcases Scope.resolveHead s'.heap scope' word with e' | f'
            · rintro ⟨⟩
              exact .fault ht h rfl
            · rintro ⟨⟩
            · rintro ⟨⟩
            · rintro ⟨hf⟩
              exact continueCall_twins hm ht h levels hs hf .nil hargs
          · simp only [enterExpr, hw]
            exact enterForm_twins ht h levels hs form hargs
        | _ => exact ⟨.expr hh hs, .cons (.head hs hargs) ht, h⟩
      | _ => exact ⟨.expr hh hs, .cons (.head hs hargs) ht, h⟩

/-! ## All steps -/

theorem resume_twins (hm : Matches rel s₀ s₀') (ht : List.Forall₂ (Task.Like rel) tasks tasks')
    (h : Abreast rel s₀ s₀' s s') {setting setting' : Setting}
    (hw : setting.writingLimit = setting'.writingLimit) {task task' : Task}
    (htask : Task.Like rel task task') {v w : Value} (hv : v.Like rel w)
    (hno : ¬ SeeksFile ⟨.value v, task :: tasks, s⟩) :
    Twins rel s₀ s₀' (resume setting v task tasks s) (resume setting' w task' tasks' s') := by
  cases htask with
  | head hs ha =>
    rw [resume, resume, hw]
    exact continueCall_twins hm ht h _ hs hv .nil ha
  | argument hs hf hd hr =>
    rw [resume, resume, hw]
    exact continueCall_twins hm ht h _ hs hf (.cons hv hd) hr
  | definition hs name => exact ⟨.value hv, ht, h.defining hm hs name hv⟩
  | branch hs hc ha =>
    simp only [resume, hv.isTruthy]
    split
    · exact ⟨.expr hc hs, ht, h⟩
    · cases ha with
      | none => exact ⟨.value (.refl_of_isCode Value.isCode_nil), ht, h⟩
      | some ha => exact ⟨.expr ha hs, ht, h⟩
  | @specifier levels scope scope' hs =>
    simp only [resume, specifier?_eq hv, hw]
    rcases hname : specifier? w with _ | name
    · exact .fault ht h (hv.wrongType _ _)
    · -- the specifier is bound to a module, for no file is looked for
      have hbound : (s.heap.get? scope name).bind Value.module? ≠ none := fun hnone =>
        hno ⟨v, levels, scope, tasks, name, rfl, rfl, (specifier?_eq hv).trans hname, hnone⟩
      rcases optionRel_cases (Scope.module?_alike (h.heap.get? hs name)) with
        ⟨hx, -⟩ | ⟨⟨name, id⟩, ⟨name', id'⟩, hx, hy, hsame, hids⟩
      · exact absurd hx hbound
      · obtain rfl : name = name' := hsame
        simp only [enterRequire, hx, hy]
        exact ⟨.value (.module hids), ht, h⟩

/-- **Twins make alike steps**, or are both done, unless a file is looked for. -/
theorem Twins.next (hm : Matches rel s₀ s₀') {m m' : Machine} (h : Twins rel s₀ s₀' m m')
    {setting setting' : Setting} (hw : setting.writingLimit = setting'.writingLimit)
    (hno : ¬ SeeksFile m) :
    Option.Rel (Twins rel s₀ s₀') (m.next setting) (m'.next setting') := by
  obtain ⟨control, tasks, s⟩ := m
  obtain ⟨control', tasks', s'⟩ := m'
  obtain ⟨hc, ht, hs⟩ := h
  cases hc with
  | @expr levels e e' scope scope' he hscope =>
    cases levels with
    | zero => exact .some (.fault ht hs rfl)
    | succ levels =>
      rw [Machine.next, Machine.next, hw]
      exact .some (enterExpr_twins hm ht hs levels hscope he)
  | value hv =>
    cases ht with
    | nil => exact .none
    | cons htask ht => exact .some (resume_twins hm ht hs hw htask hv hno)
  | fault e =>
    cases ht with
    | nil => exact .none
    | cons htask ht =>
      cases htask <;> exact .some (.fault ht hs rfl)

/-- If a machine is about to look for a file, so is its twin. -/
theorem Twins.seeksFile {m m' : Machine} (h : Twins rel s₀ s₀' m m') (hs : SeeksFile m) :
    SeeksFile m' := by
  obtain ⟨v, levels, scope, waiting, specifier, hcontrol, htasks, hv, hnone⟩ := hs
  obtain ⟨control, tasks, s⟩ := m
  obtain ⟨control', tasks', s'⟩ := m'
  obtain ⟨hc, ht, hst⟩ := h
  cases hcontrol
  cases htasks
  cases hc with
  | @value _ w hvw =>
    cases ht with
    | @cons _ _ _ waiting' htask _ =>
      cases htask with
      | @specifier _ _ scope' hscope =>
        refine ⟨w, levels, scope', waiting', specifier, rfl, rfl, (specifier?_eq hvw).symm.trans hv, ?_⟩
        rcases optionRel_cases (Scope.module?_alike (hst.heap.get? hscope specifier)) with
          ⟨-, hy⟩ | ⟨_, _, hx, -⟩
        · exact hy
        · rw [hx] at hnone
          cases hnone

/-- **Twins stay twins to the end**, if one of them never looks for a file. -/
theorem Twins.runs (hm : Matches rel s₀ s₀') {setting setting' : Setting}
    (hw : setting.writingLimit = setting'.writingLimit) {m m' a : Machine}
    (h : Twins rel s₀ s₀' m m') (hr : Runs setting m a)
    (hno : SeeksNone setting m ∨ SeeksNone setting' m') :
    ∃ a', Runs setting' m' a' ∧ Twins rel s₀ s₀' a a' := by
  induction hr with
  | refl => exact ⟨m', .refl, h⟩
  | @tail b c hb hs ih =>
    obtain ⟨b', hb', htwins⟩ := ih
    have hnot : ¬ SeeksFile b := hno.elim (fun hno => hno b hb)
      fun hno hseeks => hno b' hb' (htwins.seeksFile hseeks)
    have hn := htwins.next hm hw hnot
    rw [hs] at hn
    rcases optionRel_cases hn with ⟨hx, -⟩ | ⟨x, c', hx, hc', htwins'⟩
    · cases hx
    · cases hx
      exact ⟨c', hb'.tail hc', htwins'⟩

/-- Two calls with alike arguments in stores with alike heaps end alike. -/
theorem call_alike (hm : Matches rel s s') (h : s.heap.Alike rel s'.heap)
    {setting setting' : Setting} (hw : setting.writingLimit = setting'.writingLimit)
    {levels : Nat} {f f' : Value} {args args' : List Value}
    (hf : f.Like rel f') (ha : List.Forall₂ (Value.Like rel) args args')
    (hno : SeeksNone setting (ofCall setting.writingLimit levels f args s) ∨
      SeeksNone setting' (ofCall setting'.writingLimit levels f' args' s')) :
    Agree (Value.Like rel) ((call setting.writingLimit (eval setting levels) f args).run s).1
        ((call setting'.writingLimit (eval setting' levels) f' args').run s').1 ∧
      Abreast rel s s' ((call setting.writingLimit (eval setting levels) f args).run s).2
        ((call setting'.writingLimit (eval setting' levels) f' args').run s').2 := by
  have hstart : Twins rel s s' (ofCall setting.writingLimit levels f args s)
      (ofCall setting'.writingLimit levels f' args' s') := by
    rw [hw]
    exact enter_twins hm .nil (.refl h) _ hf ha
  have hruns := runs_call setting levels f args s
  obtain ⟨a', hruns', htwins⟩ := hstart.runs hm hw hruns hno
  -- the first call is done, so its twin is, and a machine is done in one way only
  have hidle : ¬ SeeksFile
      (after [] ((call setting.writingLimit (eval setting levels) f args).run s)) := by
    rintro ⟨_, _, _, _, _, _, ht, _⟩
    cases ht
  have hn := htwins.next hm hw hidle
  rw [next_after_nil] at hn
  have hdone : a'.next setting' = none := by
    rcases optionRel_cases hn with ⟨-, hx⟩ | ⟨_, _, hx, _⟩
    · exact hx
    · cases hx
  have ha' := hruns'.done_unique (runs_call setting' levels f' args' s') hdone (next_after_nil ..)
  subst ha'
  exact ⟨htwins.control.agree, htwins.store⟩

end Steps

end Machine

end SmallLisp
