import SmallLisp.Proofs.CanonicalPlaces
import SmallLisp.Proofs.InPlay
import SmallLisp.Proofs.LoadStack
import SmallLisp.Proofs.UnlimitedLevels

/-! # Programs without functions end

If nothing makes a function, an evaluation comes to an end, however many levels it may go down and
however the files require one another (`Evaluation.ends_without_functions`).  That the expressions
are finite is not enough for this, because a `require` puts the expressions of a whole file in the
place of one.  What helps is that a file is not loaded while it is being loaded: the loads in
progress are of different files (`Machine.Loading`), so only so many more can begin inside one
another.

A measure goes down with every step (`Machine.effort_lt`).  A part of an expression costs the more,
the more loads can still begin inside one another (`Machine.price`): where one can begin, it costs
more than all expressions of a file cost inside of that load.  The effort of a machine is the sum of
what is left to be evaluated, each part at the price of its place above the loads in progress.
-/
namespace SmallLisp
open Evaluation

/-- An expression makes a function: a function form stands in it, outside of quotations. -/
inductive Value.MakesFunction : Value → Prop
  | form (args : List Value) : MakesFunction (.list (.sym SpecialForm.lambda.keyword :: args))
  | item {head a : Value} {args : List Value} (hquote : head ≠ .sym SpecialForm.quote.keyword)
      (ha : a ∈ head :: args) (h : MakesFunction a) : MakesFunction (.list (head :: args))

/-- A list makes a function as a function form or in one of its elements. -/
theorem Value.MakesFunction.of_list {head : Value} {args : List Value}
    (h : MakesFunction (.list (head :: args))) :
    head = .sym SpecialForm.lambda.keyword ∨ ∃ a ∈ head :: args, MakesFunction a := by
  generalize hv : Value.list (head :: args) = v at h
  cases h with
  | form args' =>
    injection hv with hitems
    injection hitems with hhead
    exact .inl hhead
  | @item head' a args' _ ha h =>
    injection hv with hitems
    exact .inr ⟨a, hitems ▸ ha, h⟩

mutual

/-- How many parts an expression has. -/
def Value.size : Value → Nat
  | .list items => sizeOfAll items + 1
  | _ => 1

/-- How many parts some expressions have; the end of the list counts as well. -/
def Value.sizeOfAll : List Value → Nat
  | [] => 1
  | v :: rest => v.size + sizeOfAll rest + 1

end

namespace Value

theorem size_pos (v : Value) : 0 < v.size := by
  cases v <;> exact Nat.succ_pos _

theorem sizeOfAll_pos (vs : List Value) : 0 < sizeOfAll vs := by
  cases vs <;> exact Nat.succ_pos _

end Value

namespace Machine

/-! ## Without functions -/

/-- No function stands in a value, and no expression that is evaluated makes one. -/
def Policy.functionless : Policy where
  admits _ u := ∀ params body scope, u ≠ .fn params body scope
  hosts _ _ := True
  evaluates e := ¬ e.MakesFunction
  binds _ := True

theorem Policy.lawful_functionless : Policy.functionless.Lawful where
  admits_grows _ hu := hu
  hosts_grows _ _ := trivial
  hosts_alloc _ _ := trivial
  hosts_install _ := trivial
  admits_builtin _ _ _ _ _ _ _ := nofun
  admits_module _ _ _ _ := nofun
  admits_lambda _ he _ := absurd (.form _) he
  body hf := absurd rfl (hf _ _ _)
  binds_of_free _ := trivial
  evaluates_item he hquote _ ha h := he (.item hquote ha h)

/-! ## Effort -/

/-- What a part of an expression costs while so many more loads can begin inside one another, if the
expressions of a file are not larger than `T`. -/
def price (T : Nat) : Nat → Nat
  | 0 => 1
  | loads + 1 => T * price T loads + 1

theorem price_pos (T : Nat) : ∀ loads, 0 < price T loads
  | 0 => Nat.one_pos
  | _ + 1 => Nat.succ_pos _

/-- How much a task has left to be evaluated. -/
def Task.size : Task → Nat
  | .head _ _ args => Value.sizeOfAll args
  | .argument _ _ _ _ rest => Value.sizeOfAll rest
  | .definition _ _ | .specifier _ _ => 1
  | .branch _ _ consequence alternative? => Value.sizeOfAll (consequence :: alternative?.toList)
  | .form _ _ _ rest _ => Value.sizeOfAll rest

/-- How much is about to be evaluated. -/
def Control.size : Control → Nat
  | .expr _ e _ => e.size
  | .value _ | .fault _ => 0

/-- The price above certain tasks, if there are never more than `F` loads in progress. -/
def rate (F T : Nat) (tasks : List Task) : Nat :=
  price T (F - (loads tasks).length)

/-- The effort for the tasks that wait. -/
def burden (F T : Nat) : List Task → Nat
  | [] => 0
  | task :: tasks => task.size * rate F T (task :: tasks) + burden F T tasks

/-- The effort of all that is left to be done. -/
def effort (F T : Nat) (m : Machine) : Nat :=
  m.control.size * rate F T m.tasks + burden F T m.tasks

/-- The expressions of no file that can be read are larger than `T`. -/
def FilesWithin (setting : Setting) (T : Nat) : Prop :=
  ∀ path text, setting.files.readText setting.here path = .ok text →
    Value.sizeOfAll (Script.ofText setting.nestingLimit (Text.trimStart text)).forms ≤ T

/-- No more than so much is left to be done above certain tasks. -/
def Spends (F T n : Nat) (tasks : List Task) (m : Machine) : Prop :=
  effort F T m ≤ n * rate F T tasks + burden F T tasks

section Effort
variable {F T n limit : Nat} {tasks : List Task} {task : Task} {s : Store} {f : Value}

theorem rate_pos (F T : Nat) (tasks : List Task) : 0 < rate F T tasks :=
  price_pos _ _

theorem rate_cons_of_none (hn : task.start? = none) :
    rate F T (task :: tasks) = rate F T tasks := by
  rw [rate, rate, loads_cons_of_none hn]

theorem Task.size_pos (task : Task) : 0 < task.size := by
  cases task with
  | definition | specifier => exact Nat.one_pos
  | _ => exact Value.sizeOfAll_pos _

/-- Where nothing is about to be evaluated, only the tasks are left. -/
theorem effort_of_settled {m : Machine} (hc : m.control.size = 0) :
    effort F T m = burden F T m.tasks := by
  rw [effort, hc, Nat.zero_mul, Nat.zero_add]

namespace Spends

theorem lt {m : Machine} {k : Nat} (h : Spends F T n tasks m) (hk : n < k) :
    effort F T m < k * rate F T tasks + burden F T tasks := by
  have hrate := (Nat.mul_lt_mul_right (rate_pos F T tasks)).2 hk
  exact Nat.lt_of_le_of_lt h (Nat.add_lt_add_right hrate _)

theorem of_settled {m : Machine} (hc : m.control.size = 0) (ht : m.tasks = tasks) :
    Spends F T n tasks m := by
  rw [Spends, effort_of_settled hc, ht]
  exact Nat.le_add_left _ _

theorem after (outcome : Except Fault Value × Store) :
    Spends F T n tasks (after tasks outcome) := by
  obtain ⟨_ | _, t⟩ := outcome
  · exact of_settled rfl rfl
  · exact of_settled rfl rfl

theorem expr {e : Value} (hle : e.size ≤ n) (levels : Nat) (scope : FrameId) :
    Spends F T n tasks ⟨.expr levels e scope, tasks, s⟩ :=
  Nat.add_le_add_right (Nat.mul_le_mul_right _ hle) _

theorem push {e : Value} (task : Task) (hn : task.start? = none) (hle : e.size + task.size ≤ n)
    (levels : Nat) (scope : FrameId) :
    Spends F T n tasks ⟨.expr levels e scope, task :: tasks, s⟩ := by
  rw [Spends, effort, burden, rate_cons_of_none hn, ← Nat.add_assoc, ← Nat.add_mul]
  exact Nat.add_le_add_right (Nat.mul_le_mul_right _ hle) _

end Spends

/-! ## What the steps cost -/

theorem enter_spends (hf : ∀ params body scope, f ≠ .fn params body scope) (levels : Nat)
    (args : List Value) : Spends F T n tasks (enter limit levels f args tasks s) := by
  cases f with
  | fn params body scope => exact absurd rfl (hf params body scope)
  | native g => exact .after _
  | _ => exact .of_settled rfl rfl

theorem continueCall_spends (hf : ∀ params body scope, f ≠ .fn params body scope) (levels : Nat)
    (scope : FrameId) (done : List Value) {rest : List Value} (hle : Value.sizeOfAll rest ≤ n + 1) :
    Spends F T n tasks (continueCall limit levels scope f done rest tasks s) := by
  cases rest with
  | nil => exact enter_spends hf levels done.reverse
  | cons e rest =>
    have hsize : e.size + (Task.argument levels scope f done rest).size ≤ n := by
      rw [Value.sizeOfAll] at hle
      rw [Task.size]
      omega
    exact .push (.argument levels scope f done rest) rfl hsize _ _

theorem enterForm_spends (levels : Nat) (scope : FrameId) (form : SpecialForm) {args : List Value}
    (hle : Value.sizeOfAll args ≤ n) :
    Spends F T n tasks (enterForm limit levels scope form args tasks s) := by
  cases formShape form args with
  | quote v => exact .of_settled rfl rfl
  | malformed hm =>
    rw [enterForm_malformed hm]
    exact .of_settled rfl rfl
  | lambda params body => exact .after _
  | define target e =>
    simp only [enterForm]
    rcases boundName limit target with f | name
    · exact .of_settled rfl rfl
    · have hsize : e.size + (Task.definition scope name).size ≤ n := by
        simp only [Value.sizeOfAll] at hle
        rw [Task.size]
        omega
      exact .push (.definition scope name) rfl hsize _ _
  | conditional condition consequence alternative? =>
    rw [enterForm_conditional]
    have hsize : condition.size +
        (Task.branch levels scope consequence alternative?).size ≤ n := by
      rw [Value.sizeOfAll] at hle
      rw [Task.size]
      omega
    exact .push (.branch levels scope consequence alternative?) rfl hsize _ _
  | require e =>
    have hsize : e.size + (Task.specifier levels scope).size ≤ n := by
      simp only [Value.sizeOfAll] at hle
      rw [Task.size]
      omega
    exact .push (.specifier levels scope) rfl hsize _ _

theorem enterExpr_spends (hr : Policy.functionless.Ready tasks s) (levels : Nat) {e : Value}
    (scope : FrameId) (hle : e.size ≤ n + 1) :
    Spends F T n tasks (enterExpr limit levels e scope tasks s) := by
  cases exprShape e with
  | symbol name => exact .after _
  | constant hc =>
    rw [enterExpr_constant hc]
    exact .of_settled rfl rfl
  | form hform args =>
    rw [enterExpr_form hform]
    refine enterForm_spends levels scope _ ?_
    rw [Value.size, Value.sizeOfAll] at hle
    omega
  | @call head ho args =>
    rw [Value.size, Value.sizeOfAll] at hle
    have hhead := head.size_pos
    rcases enterExpr_call limit levels ho args scope tasks s with ⟨word, rfl, hw⟩ | ⟨hw, -⟩
    · rw [hw]
      rcases hf : Scope.resolveHead s.heap scope word with e | f
      · exact .of_settled rfl rfl
      · have hnone : f.scope? ≠ none → ∀ params body scope, f ≠ .fn params body scope :=
          hr.allows_resolveHead hf f .self
        refine continueCall_spends (fun params body scope heq => ?_) levels scope [] (by omega)
        exact hnone (heq ▸ nofun) params body scope heq
    · rw [hw]
      have hsize : head.size + (Task.head levels scope args).size ≤ n := by
        rw [Task.size]
        omega
      exact .push (.head levels scope args) rfl hsize _ _

/-- A load costs less than the `require` that it is for. -/
theorem enterRequire_spends {setting : Setting} (hT : FilesWithin setting T)
    (levels : Nat) (scope : FrameId) (specifier : String)
    (hF : (loads (enterRequire setting levels scope specifier tasks s).tasks).length ≤ F) :
    effort F T (enterRequire setting levels scope specifier tasks s) <
      rate F T tasks + burden F T tasks := by
  have hquiet {m : Machine} (h : Spends F T 0 tasks m) :
      effort F T m < rate F T tasks + burden F T tasks := by
    have hlt := h.lt Nat.one_pos
    rwa [Nat.one_mul] at hlt
  have hrequire := enterRequire_shape setting levels scope specifier tasks s
  generalize enterRequire setting levels scope specifier tasks s = m at hrequire hF ⊢
  cases hrequire with
  | bound => exact hquiet (.of_settled rfl rfl)
  | nowhere => exact hquiet (.of_settled rfl rfl)
  | @asks path ha =>
    have hload := enterLoad_shape setting levels path tasks s
    generalize enterLoad setting levels path tasks s = m at hload hF ⊢
    cases hload with
    | kept => exact hquiet (.of_settled rfl rfl)
    | refused => exact hquiet (.of_settled rfl rfl)
    | @begins text hk hn hread =>
      have hdeeper : (loads tasks).length + 1 ≤ F := hF
      obtain ⟨left, hleft⟩ := Nat.exists_eq_add_of_le' hdeeper
      -- inside of the load one load less can begin, and there the whole file has its price
      have hinside : F - ((loads tasks).length + 1) = left := by omega
      have hhere : F - (loads tasks).length = left + 1 := by omega
      have hfile := Nat.mul_le_mul_right (price T left) (hT path text hread)
      rw [effort_of_settled rfl, burden, rate, rate, loads, List.length_cons, hinside, hhere, price,
        Task.size]
      omega

end Effort

/-! ## Loads in progress -/

/-- The loads in progress are of different files, and the registry knows of them. -/
structure Loading (setting : Setting) (m : Machine) : Prop where
  known : ∀ path ∈ loads m.tasks, path ∈ m.store.registry.loading
  nodup : (loads m.tasks).Nodup
  loadable : ∀ path ∈ loads m.tasks, Loadable setting path

section Loads
variable {setting : Setting} {m m' : Machine}

/-- When a load ends, the loads around it are still known to be in progress. -/
theorem mem_loading_endLoad {path other : Path} {r : Registry} (hne : other ≠ path)
    (h : other ∈ r.loading) : other ∈ (r.endLoad path).loading := by
  rw [Registry.endLoad, List.mem_filter]
  exact ⟨h, decide_eq_true hne⟩

theorem mem_loading_beginLoad {path other : Path} {r : Registry} :
    other ∈ (r.beginLoad path).loading ↔ other = path ∨ other ∈ r.loading := by
  rw [← Registry.isLoading_iff, Registry.isLoading_beginLoad, Bool.or_eq_true,
    decide_eq_true_eq, Registry.isLoading_iff]

/-- A load that begins is of a file that can be loaded. -/
theorem loadable_of_begins {v : Value} {specifier : String} {path : Path} {levels : Nat}
    {scope : FrameId} {tasks : List Task} {s : Store} (hv : specifier? v = some specifier)
    (ha : Asks setting s scope specifier path) (hl : loads m'.tasks = path :: loads tasks)
    (hm : next setting ⟨.value v, .specifier levels scope :: tasks, s⟩ = some m') :
    Loadable setting path := by
  have heq : m' = enterLoad setting levels path tasks s := by
    cases hm
    simp only [resume, hv]
    exact ha.enterRequire_eq levels tasks
  have hshape := enterLoad_shape setting levels path tasks s
  rw [← heq] at hshape
  cases hshape with
  | kept => exact absurd hl.symm (List.cons_ne_self _ _)
  | refused => exact absurd hl.symm (List.cons_ne_self _ _)
  | @begins text hk hn hread =>
    obtain ⟨place, hdirect, hplace⟩ := exists_direct_of_modulePath ha.resolves
    exact ⟨place, text, hdirect, hplace, hread⟩

/-- The loads around one that ends are still known to be in progress, and apart. -/
theorem Loading.ended {control : Control} {path : Path} {tasks : List Task} {s t : Store}
    (hnodup : (path :: loads tasks).Nodup)
    (hknown : ∀ other ∈ path :: loads tasks, other ∈ s.registry.loading)
    (hloadable : ∀ other ∈ path :: loads tasks, Loadable setting other)
    (ht : t.registry.loading = (s.registry.endLoad path).loading) :
    Loading setting ⟨control, tasks, t⟩ := by
  obtain ⟨hnew, hnodup⟩ := List.nodup_cons.1 hnodup
  refine ⟨fun other hother => ?_, hnodup, (List.forall_mem_cons.1 hloadable).2⟩
  have hother' := (List.forall_mem_cons.1 hknown).2 other hother
  rw [ht]
  exact mem_loading_endLoad (fun heq => hnew (heq ▸ hother)) hother'

/-- **A step keeps the loads in progress apart.** -/
theorem Loading.next (h : Loading setting m) (hm : m.next setting = some m') :
    Loading setting m' := by
  cases next_loadStep hm with
  | quiet hl hr =>
    refine ⟨fun path hpath => ?_, hl ▸ h.nodup, fun path hpath => h.loadable path (hl ▸ hpath)⟩
    rw [hr]
    exact h.known path (hl ▸ hpath)
  | @begins v specifier path levels scope tasks s m' hv ha hk hn hl hr =>
    have hknown : ∀ other ∈ loads tasks, other ∈ s.registry.loading := h.known
    have hnew : path ∉ loads tasks := fun hpath => by
      have hloading := Registry.isLoading_iff.2 (hknown path hpath)
      rw [hn] at hloading
      cases hloading
    refine ⟨?_, ?_, ?_⟩
    · rw [hl, hr]
      refine List.forall_mem_cons.2 ⟨mem_loading_beginLoad.2 (.inl rfl), fun other hother => ?_⟩
      exact mem_loading_beginLoad.2 (.inr (hknown other hother))
    · rw [hl]
      exact List.nodup_cons.2 ⟨hnew, h.nodup⟩
    · rw [hl]
      exact List.forall_mem_cons.2 ⟨loadable_of_begins hv ha hl hm, h.loadable⟩
  | completes path v levels scope tasks s =>
    exact .ended h.nodup h.known h.loadable (Store.loading_keeping ..)
  | fails path control tasks s => exact .ended h.nodup h.known h.loadable rfl

theorem Loading.nextUnlimited (h : Loading setting m) (hm : m.nextUnlimited setting = some m') :
    Loading setting m' :=
  Loading.next (m := ⟨m.control.granted, m.tasks, m.store⟩) ⟨h.known, h.nodup, h.loadable⟩ hm

theorem Loading.unlimitedRuns (h : Loading setting m) (hm : UnlimitedRuns setting m m') :
    Loading setting m' := by
  induction hm with
  | refl => exact h
  | tail _ hs ih => exact ih.nextUnlimited hs

end Loads

/-! ## Every step takes effort -/

section Runs
variable {setting : Setting} {m m' : Machine} {F T : Nat}

theorem not_fn_of_allows {heap : Heap} {f : Value} (hf : Policy.functionless.Allows heap f)
    (params : List String) (body : Value) (scope : FrameId) : f ≠ .fn params body scope :=
  fun heq => hf f .self (heq ▸ nofun) params body scope heq

/-- Of the two branches one is evaluated at most. -/
theorem branch_spends (v : Value) (levels : Nat) (scope : FrameId) (consequence : Value)
    (alternative? : Option Value) {tasks : List Task} (s : Store) :
    Spends F T (consequence.size + Value.sizeOfAll alternative?.toList) tasks
      (resume setting v (.branch levels scope consequence alternative?) tasks s) := by
  simp only [resume]
  split
  · exact .expr (Nat.le_add_right _ _) _ _
  · cases alternative? with
    | none => exact .of_settled rfl rfl
    | some alternative =>
      refine .expr ?_ _ _
      simp only [Option.toList_some, Value.sizeOfAll]
      omega

/-- The next form of a text is evaluated inside of the same load, so at the same price. -/
theorem rate_form (module? : Option Path) (levels : Nat) (scope : FrameId) (e : Value)
    (rest : List Value) (stop? : Option ReadingStop) (tasks : List Task) :
    rate F T (.form module? levels scope rest stop? :: tasks) =
      rate F T (.form module? levels scope (e :: rest) stop? :: tasks) := by
  rw [rate, rate, loads_form]

/-- A text that goes on after a form has left less of itself than before. -/
theorem form_effort_lt (v : Value) (module? : Option Path) (levels : Nat) (scope : FrameId)
    (rest : List Value) (stop? : Option ReadingStop) (tasks : List Task) (s : Store) :
    effort F T (resume setting v (.form module? levels scope rest stop?) tasks s) <
      Value.sizeOfAll rest * rate F T (.form module? levels scope rest stop? :: tasks) +
        burden F T tasks := by
  cases rest with
  | nil =>
    have hdone : effort F T (continueForms setting module? levels scope v [] stop? tasks s) =
        burden F T tasks := by
      cases module? <;> cases stop? <;> exact effort_of_settled rfl
    rw [resume, hdone]
    exact Nat.lt_add_of_pos_left (Nat.mul_pos Nat.one_pos (rate_pos _ _ _))
  | cons e rest =>
    have hrate := rate_pos F T (.form module? levels scope (e :: rest) stop? :: tasks)
    rw [resume, continueForms, effort, burden, Control.size, Task.size,
      rate_form module? levels scope e rest, Value.sizeOfAll, Nat.add_mul, Nat.add_mul]
    omega

/-- A task that gets its value leaves less to be done than it had left itself. -/
theorem resume_effort_lt {v : Value} {task : Task} {tasks : List Task} {s : Store}
    (hv : Policy.functionless.Allows s.heap v) (ht : task.Obeys Policy.functionless s.heap)
    (hT : FilesWithin setting T)
    (hF : (loads (resume setting v task tasks s).tasks).length ≤ F) :
    effort F T (resume setting v task tasks s) <
      task.size * rate F T (task :: tasks) + burden F T tasks := by
  have hsize : task.size ≤ task.size - 1 + 1 := Nat.le_add_of_sub_le (Nat.le_refl _)
  have hless : task.size - 1 < task.size := Nat.sub_one_lt_of_lt task.size_pos
  cases task with
  | head levels scope args =>
    rw [rate_cons_of_none rfl]
    exact (continueCall_spends (not_fn_of_allows hv) levels scope [] hsize).lt hless
  | argument levels scope f done rest =>
    rw [rate_cons_of_none rfl]
    exact (continueCall_spends (not_fn_of_allows ht.2.1) levels scope (v :: done) hsize).lt hless
  | definition scope name =>
    rw [rate_cons_of_none rfl]
    exact (Spends.of_settled (n := 0) rfl rfl).lt Nat.one_pos
  | branch levels scope consequence alternative? =>
    rw [rate_cons_of_none rfl]
    refine (branch_spends v levels scope consequence alternative? s).lt ?_
    rw [Task.size, Value.sizeOfAll]
    exact Nat.lt_succ_self _
  | specifier levels scope =>
    rw [rate_cons_of_none rfl, Task.size, Nat.one_mul]
    revert hF
    simp only [resume]
    rcases specifier? v with _ | specifier
    · intro _
      have hquiet : Spends F T 0 tasks
          ⟨.fault (.wrongType setting.writingLimit .modulePath v), tasks, s⟩ := .of_settled rfl rfl
      have hlt := hquiet.lt Nat.one_pos
      rwa [Nat.one_mul] at hlt
    · exact enterRequire_spends hT levels scope specifier
  | form module? levels scope rest stop? =>
    exact form_effort_lt v module? levels scope rest stop? tasks s

/-- **A step leaves less to be done.** -/
theorem effort_lt (ho : Policy.functionless.Obeyed m)
    (hT : FilesWithin setting T)
    (hm : m.nextUnlimited setting = some m') (hF : (loads m'.tasks).length ≤ F) :
    effort F T m' < effort F T m := by
  obtain ⟨control, tasks, s⟩ := m
  obtain ⟨hr, hc⟩ := ho
  cases control with
  | expr levels e scope =>
    cases hm
    have hle : e.size ≤ e.size - 1 + 1 := Nat.le_add_of_sub_le (Nat.le_refl _)
    exact (enterExpr_spends hr 0 scope hle).lt (Nat.sub_one_lt_of_lt e.size_pos)
  | fault f =>
    cases tasks with
    | nil => cases hm
    | cons task tasks =>
      cases hm
      have hdone : effort F T (drop f task tasks s) = burden F T tasks := by
        cases task with
        | form module? => cases module? <;> exact effort_of_settled rfl
        | _ => exact effort_of_settled rfl
      rw [hdone, effort_of_settled rfl, burden]
      exact Nat.lt_add_of_pos_left (Nat.mul_pos task.size_pos (rate_pos _ _ _))
  | value v =>
    cases tasks with
    | nil => cases hm
    | cons task tasks =>
      cases hm
      rw [effort_of_settled (m := ⟨.value v, task :: tasks, s⟩) rfl, burden]
      exact resume_effort_lt hc (hr.tasks task List.mem_cons_self) hT hF

theorem exists_outcome_of_done (h : m.nextUnlimited setting = none) :
    ∃ outcome, m = after [] outcome := by
  obtain ⟨control, tasks, s⟩ := m
  cases control with
  | expr levels e scope => cases h
  | value v =>
    cases tasks with
    | nil => exact ⟨(.ok v, s), rfl⟩
    | cons task tasks => cases h
  | fault f =>
    cases tasks with
    | nil => exact ⟨(.error f, s), rfl⟩
    | cons task tasks => cases h

/-- The policy is kept to without a limit on levels as well. -/
theorem obeyed_nextUnlimited (hreads : Policy.functionless.Reads setting)
    (ho : Policy.functionless.Obeyed m) (hm : m.nextUnlimited setting = some m') :
    Policy.functionless.Obeyed m' := by
  have hgranted : Policy.functionless.Obeyed ⟨m.control.granted, m.tasks, m.store⟩ := by
    refine ⟨ho.ready, ?_⟩
    have hcontrol := ho.control
    revert hcontrol
    cases m.control <;> exact id
  exact (Policy.lawful_functionless.next hreads hgranted hm).1

/-- **Without functions a machine comes to an end.** -/
theorem exists_end (hreads : Policy.functionless.Reads setting)
    (ho : Policy.functionless.Obeyed m) (hl : Loading setting m) :
    ∃ outcome, UnlimitedRuns setting m (after [] outcome) := by
  obtain ⟨T, hT⟩ := setting.files.exists_bound_of_readText setting.here fun text =>
    Value.sizeOfAll (Script.ofText setting.nestingLimit (Text.trimStart text)).forms
  -- by induction on the effort that is left
  induction heffort : effort (setting.files.entries.keys.length + 1) T m
    using Nat.strongRecOn generalizing m with
  | ind n ih =>
    cases hm : m.nextUnlimited setting with
    | none =>
      obtain ⟨outcome, rfl⟩ := exists_outcome_of_done hm
      exact ⟨outcome, .refl⟩
    | some m' =>
      have hl' := hl.nextUnlimited hm
      have hlt := effort_lt ho hT hm (Loadable.length_le hl'.nodup hl'.loadable)
      rw [heffort] at hlt
      obtain ⟨outcome, hruns⟩ := ih _ hlt (obeyed_nextUnlimited hreads ho hm) hl' rfl
      exact ⟨outcome, .head hm hruns⟩

end Runs

end Machine

/-- **Programs without functions end.**  If no function form stands in a text or in a file that can
be read, and no function is bound in a frame, then the text is evaluated to the end in finitely many
steps, whatever the files require; with levels enough this is what the evaluator gives.  At every
moment the loads inside one another are no more than the files. -/
theorem Evaluation.ends_without_functions (setting : Setting) (scope : FrameId)
    (text : List Char) (s : Store)
    (htext : ∀ form ∈ (Script.ofText setting.nestingLimit text).forms, ¬ form.MakesFunction)
    (hfiles : ∀ path content, setting.files.readText setting.here path = .ok content →
      ∀ form ∈ (Script.ofText setting.nestingLimit (Text.trimStart content)).forms,
        ¬ form.MakesFunction)
    (hstate : ∀ (id : FrameId) (f : Frame), s.heap.frames[id]? = some f →
      ∀ e ∈ f.bindings.entries, ∀ params body outer, ¬ Value.Part (.fn params body outer) e.2) :
    let start := Machine.ofScript 0 scope (Script.ofText setting.nestingLimit text) s
    (∃ outcome, Machine.UnlimitedRuns setting start (Machine.after [] outcome) ∧
      ∃ N, ∀ levels ≥ N,
        (evaluateText setting (eval setting levels) scope text).run s = outcome) ∧
    (setting.files.WellNamed → ∀ m, Machine.UnlimitedRuns setting start m →
      (Machine.loads m.tasks).length ≤ setting.files.fileCount) := by
  intro start
  have hreads : Machine.Policy.functionless.Reads setting := hfiles
  have hready : Machine.Policy.functionless.Ready start.tasks s := by
    refine ⟨fun id f hf => ⟨fun e he => ⟨trivial, fun u hu _ => ?_⟩, fun _ _ => trivial⟩,
      fun _ _ _ _ _ _ => nofun, List.forall_mem_singleton.2 ⟨trivial, fun form hform => ?_⟩⟩
    · rintro params body outer rfl
      exact hstate id f hf e he params body outer hu
    · have hcode := Script.isCode_ofText setting.nestingLimit text form hform
      exact ⟨.of_isCode hcode, htext form hform⟩
  have hloading : Machine.Loading setting start := ⟨nofun, .nil, nofun⟩
  obtain ⟨outcome, hruns⟩ :=
    Machine.exists_end hreads ⟨hready, .of_isCode Value.isCode_nil⟩ hloading
  refine ⟨⟨outcome, hruns, Machine.eval_of_unlimitedRuns hruns⟩, fun hw m hm => ?_⟩
  have hlater := hloading.unlimitedRuns hm
  exact Loadable.length_le_fileCount hw hlater.nodup hlater.loadable

/-! ## A file that requires itself -/

namespace SelfFile

theorem not_makesFunction_form : ¬ form.MakesFunction := by
  intro h
  rcases h.of_list with hhead | ⟨a, ha, h⟩
  · injection hhead with hword
    exact absurd hword (by decide)
  · rcases List.mem_cons.1 ha with rfl | ha
    · cases h
    · rw [List.mem_singleton.1 ha] at h
      cases h

/-- There is no other text to be read. -/
theorem eq_text_of_readText {path : Path} {content : List Char}
    (h : setting.files.readText setting.here path = .ok content) : content = text := by
  obtain ⟨place, bytes, -, hnode, hdecode⟩ := FileTree.exists_file_of_readText h
  have hentry := List.mem_singleton.1 (FileTree.mem_entries_of_file hnode)
  cases hentry
  have htext : Text.decode (text.map fun c => c.toUInt8) = .ok text := by decide +kernel
  rw [htext] at hdecode
  exact (Except.ok.inj hdecode).symm

/-- In a new prelude no function is bound. -/
theorem not_part_before (id : FrameId) (f : Frame) (hf : before.heap.frames[id]? = some f)
    (e : String × Value) (he : e ∈ f.bindings.entries) (params : List String) (body : Value)
    (outer : FrameId) : ¬ Value.Part (.fn params body outer) e.2 := by
  intro hpart
  have hframe : (Prelude.install Heap.empty).frames[id]? = some f := hf
  have hempty : ¬ id < Heap.empty.size := Nat.not_lt_zero id
  rw [Heap.frames_install, if_neg hempty] at hframe
  have hfurnished := Machine.Policy.furnishes_prelude Machine.Policy.lawful_functionless Heap.empty
    (List.mem_of_getElem? hframe)
  exact (hfurnished.bindings e he).2 _ hpart nofun _ _ _ rfl

end SelfFile

/-- To require a file that requires itself comes to an end, with one load at a time. -/
theorem Evaluation.ends_of_self_require :
    let start := Machine.ofScript 0 4 (Script.ofText SelfFile.setting.nestingLimit SelfFile.text)
      SelfFile.before
    (∃ outcome, Machine.UnlimitedRuns SelfFile.setting start (Machine.after [] outcome) ∧
      ∃ N, ∀ levels ≥ N, (evaluateText SelfFile.setting (eval SelfFile.setting levels) 4
        SelfFile.text).run SelfFile.before = outcome) ∧
    ∀ m, Machine.UnlimitedRuns SelfFile.setting start m → (Machine.loads m.tasks).length ≤ 1 := by
  intro start
  have hforms : ∀ form ∈ (Script.ofText SelfFile.setting.nestingLimit SelfFile.text).forms,
      ¬ form.MakesFunction := by
    rw [SelfFile.ofText_text]
    exact List.forall_mem_singleton.2 SelfFile.not_makesFunction_form
  have htrim : Text.trimStart SelfFile.text = SelfFile.text := by decide +kernel
  have hends := ends_without_functions SelfFile.setting 4 SelfFile.text SelfFile.before hforms
    (fun path content hcontent => by
      rw [SelfFile.eq_text_of_readText hcontent, htrim]
      exact hforms)
    SelfFile.not_part_before
  have hnamed : SelfFile.setting.files.WellNamed :=
    List.forall_mem_singleton.2 (List.forall_mem_singleton.2 rfl)
  exact ⟨hends.1, hends.2 hnamed⟩

end SmallLisp
