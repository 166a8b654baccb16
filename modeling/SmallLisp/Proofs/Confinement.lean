import SmallLisp.Proofs.Frames

/-! # What an evaluation can change

Evaluating an expression in a scope writes into that scope alone.  Functions run in frames that
did not exist before, modules in scopes that did not exist before, and so whatever an expression
calls or requires, every frame that was there keeps its bindings and its outer frame; the scope
itself gets bindings only from the `let` forms that stand in the expression outside of quotes and
function bodies (`Value.Defines`).

The same induction tells what happens to the registry.  An evaluation leaves behind the loads that
were under way when it began, and a module that is kept stays kept, as long as no path that is
being loaded has a module (`Registry.Apart`), which evaluations preserve.  All of it together is
the relation `Store.Evolves` between the states before and after; `Evaluation.eval_evolves` says
that it holds of every evaluation, whether it ends with a value or with a fault.
-/
namespace SmallLisp

/-- A name is bound by a `let` form that is evaluated where the expression is: the forms inside
quotes and function bodies are not. -/
inductive Value.Defines (name : String) : Value → Prop
  | here (expr : Value) : Defines name (.list [.sym SpecialForm.define.keyword, .sym name, expr])
  | definition {target expr : Value} :
      Defines name expr → Defines name (.list [.sym SpecialForm.define.keyword, target, expr])
  | branch {expr : Value} {args : List Value} :
      expr ∈ args → Defines name expr →
        Defines name (.list (.sym SpecialForm.conditional.keyword :: args))
  | specifier {expr : Value} :
      Defines name expr → Defines name (.list [.sym SpecialForm.require.keyword, expr])
  | call {head expr : Value} {args : List Value} :
      (∀ word, head = .sym word → SpecialForm.isKeyword word = false) →
        expr ∈ head :: args → Defines name expr → Defines name (.list (head :: args))

/-- No path that is being loaded has a module. -/
def Registry.Apart (r : Registry) : Prop :=
  ∀ path, r.isLoading path = true → r.get? path = none

/-- How evaluations change a registry: the loads under way are the same, and if modules are kept,
those that are kept stay. -/
structure Registry.Grows (setting : Setting) (r r' : Registry) : Prop where
  loading : r'.loading = r.loading
  apart : setting.keepsModules = true → r.Apart → r'.Apart
  kept : setting.keepsModules = true → r.Apart →
    ∀ path m, r.get? path = some m → r'.get? path = some m

/-- How evaluations in a scope that bind some names there change a state. -/
structure Store.Evolves (setting : Setting) (scope : FrameId) (names : String → Prop)
    (s t : Store) : Prop where
  size_le : s.heap.size ≤ t.heap.size
  frames : ∀ id, id < s.heap.size → id ≠ scope → t.heap.frames[id]? = s.heap.frames[id]?
  own : ∀ f, s.heap.frames[scope]? = some f → ∃ g, t.heap.frames[scope]? = some g ∧
    g.outer? = f.outer? ∧
    (∀ name, (f.bindings.get? name).isSome → (g.bindings.get? name).isSome) ∧
    ∀ name, ¬ names name → g.bindings.get? name = f.bindings.get? name
  registry : s.registry.Grows setting t.registry
  printed : s.printed <:+ t.printed

theorem Registry.isLoading_iff {r : Registry} {path : Path} :
    r.isLoading path = true ↔ path ∈ r.loading := by
  simp only [Registry.isLoading, List.contains_eq_mem, decide_eq_true_eq]

namespace Registry.Grows

variable {setting : Setting} {r r' r'' : Registry}

theorem refl (r : Registry) : r.Grows setting r :=
  ⟨rfl, fun _ h => h, fun _ _ _ _ h => h⟩

theorem trans (h : r.Grows setting r') (h' : r'.Grows setting r'') : r.Grows setting r'' where
  loading := h'.loading.trans h.loading
  apart hk ha := h'.apart hk (h.apart hk ha)
  kept hk ha path m hm := h'.kept hk (h.apart hk ha) path m (h.kept hk ha path m hm)

theorem isLoading (h : r.Grows setting r') (path : Path) :
    r'.isLoading path = r.isLoading path := by
  rw [Registry.isLoading, Registry.isLoading, h.loading]

/-- A load that ends leaves the loads under way as they were. -/
theorem loading_endLoad {path : Path} (hl : r.isLoading path = false)
    (h : r'.loading = (r.beginLoad path).loading) : (r'.endLoad path).loading = r.loading := by
  have hb : ((r.beginLoad path).endLoad path).loading = r.loading := by
    rw [Registry.endLoad_beginLoad hl]
  rw [← hb]
  simp only [Registry.endLoad, h]

/-- While a path without a module is loaded, the loads under way stay apart from the modules. -/
theorem apart_beginLoad {path : Path} (ha : r.Apart) (hm : r.get? path = none) :
    (r.beginLoad path).Apart := by
  intro other ho
  rw [Registry.isLoading_beginLoad, Bool.or_eq_true, decide_eq_true_eq] at ho
  have hget : (r.beginLoad path).get? other = r.get? other := by
    rw [Registry.beginLoad]; split <;> rfl
  rw [hget]
  rcases ho with rfl | ho
  · exact hm
  · exact ha other ho

theorem get?_beginLoad (r : Registry) (path other : Path) :
    (r.beginLoad path).get? other = r.get? other := by
  rw [Registry.beginLoad]; split <;> rfl

/-- Loading a path changes the registry as evaluations do when the load ends without a module. -/
theorem closing {path : Path} (hl : r.isLoading path = false)
    (hm : setting.keepsModules = true → r.get? path = none)
    (h : (r.beginLoad path).Grows setting r') : r.Grows setting (r'.endLoad path) where
  loading := loading_endLoad hl h.loading
  apart hk ha other ho := by
    rw [Registry.isLoading_endLoad, Bool.and_eq_true] at ho
    exact h.apart hk (apart_beginLoad ha (hm hk)) other ho.2
  kept hk ha other m hget :=
    h.kept hk (apart_beginLoad ha (hm hk)) other m ((get?_beginLoad r path other).trans hget)

/-- Loading a path changes the registry as evaluations do when its module is kept in the end. -/
theorem keeping {path : Path} {m : Module} (hk : setting.keepsModules = true)
    (hl : r.isLoading path = false) (hm : r.get? path = none)
    (h : (r.beginLoad path).Grows setting r') :
    r.Grows setting ((r'.endLoad path).insert path m) where
  loading := loading_endLoad hl h.loading
  apart _ ha other ho := by
    have ho' : (r'.endLoad path).isLoading other = true := ho
    rw [Registry.isLoading_endLoad, Bool.and_eq_true, Bool.not_eq_true', decide_eq_false_iff_not]
      at ho'
    rw [Registry.get?_insert, if_neg (Ne.symm ho'.1)]
    exact h.apart hk (apart_beginLoad ha hm) other ho'.2
  kept _ ha other m' hget := by
    -- the path itself had no module, so nothing is replaced
    have hne : path ≠ other := by
      rintro rfl
      rw [hm] at hget
      cases hget
    rw [Registry.get?_insert, if_neg hne]
    exact h.kept hk (apart_beginLoad ha hm) other m' ((get?_beginLoad r path other).trans hget)

end Registry.Grows

namespace Store.Evolves

variable {setting : Setting} {scope : FrameId} {names names' : String → Prop} {s t u : Store}

theorem refl (s : Store) : s.Evolves setting scope names s :=
  ⟨Nat.le_refl _, fun _ _ _ => rfl, fun f hf => ⟨f, hf, rfl, fun _ h => h, fun _ _ => rfl⟩,
    .refl _, List.suffix_refl _⟩

theorem trans (h : s.Evolves setting scope names t) (h' : t.Evolves setting scope names u) :
    s.Evolves setting scope names u where
  size_le := Nat.le_trans h.size_le h'.size_le
  frames id hid hne :=
    (h'.frames id (Nat.lt_of_lt_of_le hid h.size_le) hne).trans (h.frames id hid hne)
  own f hf := by
    obtain ⟨g, hg, hgo, hgb, hgn⟩ := h.own f hf
    obtain ⟨k, hk, hko, hkb, hkn⟩ := h'.own g hg
    exact ⟨k, hk, hko.trans hgo, fun name hn => hkb name (hgb name hn),
      fun name hn => (hkn name hn).trans (hgn name hn)⟩
  registry := h.registry.trans h'.registry
  printed := h.printed.trans h'.printed

theorem mono (h : s.Evolves setting scope names t) (hn : ∀ name, names name → names' name) :
    s.Evolves setting scope names' t where
  size_le := h.size_le
  frames := h.frames
  own f hf := by
    obtain ⟨g, hg, hgo, hgb, hgn⟩ := h.own f hf
    exact ⟨g, hg, hgo, hgb, fun name hnn => hgn name fun hn' => hnn (hn name hn')⟩
  registry := h.registry
  printed := h.printed

/-- Printing changes no frame and no module. -/
theorem printing (out : List Printed) :
    s.Evolves setting scope names { s with printed := out ++ s.printed } :=
  ⟨Nat.le_refl _, fun _ _ _ => rfl, fun f hf => ⟨f, hf, rfl, fun _ h => h, fun _ _ => rfl⟩,
    .refl _, List.suffix_append _ _⟩

/-- A definition binds its name in the scope and changes no other frame. -/
theorem defining (name : String) (v : Value) (hn : names name) :
    s.Evolves setting scope names (s.defining scope name v) where
  size_le := Nat.le_of_eq (Heap.size_define _ _ _ _).symm
  frames id _ hne := Heap.frames_define_of_ne _ name v hne
  own f hf := by
    refine ⟨⟨f.bindings.insert name v, f.outer?⟩, ?_, rfl, fun key hkey => ?_, fun key hkey => ?_⟩
    · simp only [Store.defining, Heap.frames_define, if_true, hf, Option.map_some]
    · rw [Table.get?_insert]
      split
      · rfl
      · exact hkey
    · have hne : name ≠ key := fun he => hkey (he ▸ hn)
      rw [Table.get?_insert, if_neg hne]
  registry := .refl _
  printed := List.suffix_refl _

/-- What is done in a new frame leaves the frames before it as they were. -/
theorem of_entering {outer : FrameId} {bindings : Table String Value}
    (h : (s.entering outer bindings).Evolves setting s.heap.size names t) :
    s.Evolves setting scope names' t := by
  have hsize : (s.entering outer bindings).heap.size = s.heap.size + 1 := Heap.size_alloc _ _ _
  have hframes : ∀ id, id < s.heap.size → t.heap.frames[id]? = s.heap.frames[id]? := by
    intro id hid
    rw [h.frames id (hsize ▸ Nat.lt_succ_of_lt hid) (Nat.ne_of_lt hid)]
    exact Heap.frames_alloc_of_lt _ hid
  refine ⟨Nat.le_trans (hsize ▸ Nat.le_succ _) h.size_le, fun id hid _ => hframes id hid, ?_,
    h.registry, h.printed⟩
  intro f hf
  exact ⟨f, (hframes scope (Heap.lt_size_of_frame _ hf)).trans hf, rfl, fun _ hn => hn,
    fun _ _ => rfl⟩

/-- What is done in the scope of a new module leaves the frames before it as they were. -/
theorem frames_of_opening {path : Path}
    (h : (s.opening path).Evolves setting (Prelude.rootOf s.heap) names t) (id : FrameId)
    (hid : id < s.heap.size) : t.heap.frames[id]? = s.heap.frames[id]? := by
  rw [h.frames id (Nat.lt_of_lt_of_le hid (Heap.size_le_install _))
    (Nat.ne_of_lt (Heap.lt_rootOf_of_lt _ hid))]
  exact Heap.frames_install_of_lt _ hid

theorem of_opening {path : Path} {u : Store}
    (h : (s.opening path).Evolves setting (Prelude.rootOf s.heap) names t)
    (hu : u.heap = t.heap) (hp : u.printed = t.printed)
    (hr : s.registry.Grows setting u.registry) : s.Evolves setting scope names' u := by
  refine ⟨?_, fun id hid _ => ?_, fun f hf => ⟨f, ?_, rfl, fun _ hn => hn, fun _ _ => rfl⟩, hr, ?_⟩
  · rw [hu]
    exact Nat.le_trans (Heap.size_le_install _) h.size_le
  · rw [hu]
    exact h.frames_of_opening id hid
  · rw [hu]
    exact (h.frames_of_opening scope (Heap.lt_size_of_frame _ hf)).trans hf
  · rw [hp]
    exact h.printed

end Store.Evolves

namespace Evaluation
open Store

/-- An evaluator changes states only as evaluations may. -/
def Confined (setting : Setting) (eval : Evaluator) : Prop :=
  ∀ (expr : Value) (scope : FrameId) (s : Store),
    s.Evolves setting scope (Value.Defines · expr) ((eval expr scope).run s).2

/-! ## The parts of the evaluator -/

section Parts
variable {setting : Setting} {limit : Nat} {eval evalModule : Evaluator}

theorem callNative_evolves (f : Native) (args : List Value) (scope : FrameId)
    (names : String → Prop) (s : Store) :
    s.Evolves setting scope names ((callNative limit f args).run s).2 := by
  obtain ⟨result, out, h⟩ := run_callNative limit f args
  rw [h]
  exact .printing out

theorem call_evolves (he : Confined setting eval) (f : Value) (args : List Value)
    (scope : FrameId) (names : String → Prop) (s : Store) :
    s.Evolves setting scope names ((call limit eval f args).run s).2 := by
  cases f with
  | fn params body outer =>
    rw [run_call_fn]
    split
    · exact .of_entering (he _ _ _)
    · exact .refl s
  | native g => exact callNative_evolves g args scope names s
  | _ => exact .refl s

theorem evalEach_evolves (he : Confined setting eval) {scope : FrameId} {names : String → Prop}
    {exprs : List Value} (hn : ∀ expr ∈ exprs, ∀ name, expr.Defines name → names name)
    (s : Store) : s.Evolves setting scope names ((evalEach eval scope exprs).run s).2 := by
  induction exprs generalizing s with
  | nil => exact .refl s
  | cons expr rest ih =>
    have hfirst := (he expr scope s).mono (hn expr List.mem_cons_self)
    have hrest := ih fun e hm => hn e (List.mem_cons_of_mem _ hm)
    rw [run_evalEach_cons]
    rcases hv : (eval expr scope).run s with ⟨_ | v, t⟩
    · rw [hv] at hfirst
      exact hfirst
    · rw [hv] at hfirst
      have hthen := hrest t
      rcases hvs : (evalEach eval scope rest).run t with ⟨_ | vs, u⟩
      all_goals
        rw [hvs] at hthen
        simp only [hvs]
        exact hfirst.trans hthen

theorem evalForms_evolves (he : Confined setting eval) {scope : FrameId} {names : String → Prop}
    {forms : List Value} (hn : ∀ form ∈ forms, ∀ name, form.Defines name → names name)
    (last : Value) (s : Store) :
    s.Evolves setting scope names ((evalForms eval scope last forms).run s).2 := by
  induction forms generalizing last s with
  | nil => exact .refl s
  | cons form rest ih =>
    have hfirst := (he form scope s).mono (hn form List.mem_cons_self)
    rw [run_evalForms_cons]
    rcases hv : (eval form scope).run s with ⟨_ | v, t⟩
    · rw [hv] at hfirst
      exact hfirst
    · rw [hv] at hfirst
      exact hfirst.trans (ih (fun e hm => hn e (List.mem_cons_of_mem _ hm)) v t)

theorem runScript_evolves (he : Confined setting eval) {scope : FrameId} {names : String → Prop}
    {script : Script} (hn : ∀ form ∈ script.forms, ∀ name, form.Defines name → names name)
    (s : Store) : s.Evolves setting scope names ((runScript eval scope script).run s).2 := by
  have h : s.Evolves setting scope names ((evalForms eval scope .nil script.forms).run s).2 :=
    evalForms_evolves he hn .nil s
  rw [run_runScript]
  rcases hv : (evalForms eval scope .nil script.forms).run s with ⟨_ | v, t⟩
  · rw [hv] at h
    exact h
  · rw [hv] at h
    cases script.stop? <;> exact h

theorem runModule_evolves (he : Confined setting eval) (path : Path) (scope : FrameId)
    (script : Script) (s : Store) :
    s.Evolves setting scope (fun _ => True) ((runModule eval path scope script).run s).2 := by
  have h : s.Evolves setting scope (fun _ => True)
      ((evalForms eval scope .nil script.forms).run s).2 :=
    evalForms_evolves he (fun _ _ _ _ => trivial) .nil s
  rw [run_runModule]
  rcases hv : (evalForms eval scope .nil script.forms).run s with ⟨_ | v, t⟩
  · rw [hv] at h
    exact h
  · rw [hv] at h
    cases script.stop? <;> exact h

theorem kept?_eq_none {path : Path} {s : Store} (hk : setting.keepsModules = true)
    (h : s.kept? setting path = none) : s.registry.get? path = none := by
  rwa [kept?, if_pos hk] at h

theorem load_evolves (he : Confined setting eval) (path : Path) (scope : FrameId)
    (names : String → Prop) (s : Store) :
    s.Evolves setting scope names ((load setting eval path).run s).2 := by
  rw [run_load]
  split
  · exact .refl s
  next hnone =>
    split
    · exact .refl s
    next hl =>
      have hl' : s.registry.isLoading path = false := by simpa using hl
      split
      · exact .refl s
      next text _ =>
        have hm := runModule_evolves he path (Prelude.rootOf s.heap)
          (Script.ofText setting.nestingLimit (Text.trimStart text)) (s.opening path)
        split
        next e t ht =>
          rw [ht] at hm
          exact .of_opening hm rfl rfl
            (.closing hl' (fun hk => kept?_eq_none hk hnone) hm.registry)
        next t ht =>
          rw [ht] at hm
          by_cases hk : setting.keepsModules = true
          · simp only [keeping, if_pos hk]
            exact .of_opening hm rfl rfl
              (.keeping hk hl' (kept?_eq_none hk hnone) hm.registry)
          · simp only [keeping, if_neg hk]
            exact .of_opening hm rfl rfl (.closing hl' (fun hk' => absurd hk' hk) hm.registry)

/-- If modules are kept, the module that a load gives is. -/
theorem kept_of_load (hk : setting.keepsModules = true) {path : Path} {m : Module} {s t : Store}
    (h : (load setting eval path).run s = (.ok m, t)) : t.registry.get? path = some m := by
  simp only [run_load, Store.kept?, if_pos hk] at h
  split at h
  next hm =>
    cases h
    exact hm
  · split at h
    · cases h
    · split at h
      · cases h
      · split at h
        · cases h
        · cases h
          rw [Store.keeping, if_pos hk]
          exact (Registry.get?_insert _ _ _ _).trans (if_pos rfl)

theorem require_evolves (he : Confined setting eval) (scope : FrameId) (specifier : String)
    (names : String → Prop) (s : Store) :
    s.Evolves setting scope names ((require setting eval scope specifier).run s).2 := by
  rw [run_require]
  split
  · exact .refl s
  · split
    · exact load_evolves he _ _ _ _
    · exact .refl s

theorem define_form_evolves (he : Confined setting eval) (scope : FrameId) (target expr : Value)
    (s : Store) :
    s.Evolves setting scope (Value.Defines · (.list [.sym SpecialForm.define.keyword, target, expr]))
      ((evalForm setting eval evalModule scope .define [target, expr]).run s).2 := by
  have hv := (he expr scope s).mono fun name hn =>
    (Value.Defines.definition hn : Value.Defines name
      (.list [.sym SpecialForm.define.keyword, target, expr]))
  rw [run_define_form]
  rcases hb : boundName setting.writingLimit target with _ | name
  · exact .refl s
  · obtain ⟨rfl, -⟩ := of_boundName hb
    rcases hr : (eval expr scope).run s with ⟨_ | v, t⟩ <;> rw [hr] at hv
    · exact hv
    · exact hv.trans (.defining name v (.here expr))

theorem conditional_form_evolves (he : Confined setting eval) (scope : FrameId)
    (condition consequence : Value) (alternative? : Option Value) (s : Store) :
    s.Evolves setting scope
      (Value.Defines · (.list (.sym SpecialForm.conditional.keyword ::
        condition :: consequence :: alternative?.toList)))
      ((evalForm setting eval evalModule scope .conditional
        (condition :: consequence :: alternative?.toList)).run s).2 := by
  have hsub : ∀ expr ∈ condition :: consequence :: alternative?.toList, ∀ u : Store,
      u.Evolves setting scope
        (Value.Defines · (.list (.sym SpecialForm.conditional.keyword ::
          condition :: consequence :: alternative?.toList)))
        ((eval expr scope).run u).2 :=
    fun expr hmem u => (he expr scope u).mono fun name hn => .branch hmem hn
  have hc := hsub condition (by simp) s
  rw [run_conditional_form]
  rcases hr : (eval condition scope).run s with ⟨_ | v, t⟩ <;> rw [hr] at hc
  · exact hc
  · simp only
    split
    · exact hc.trans (hsub consequence (by simp) t)
    · split
      · exact hc.trans (hsub _ (by simp) t)
      · exact hc

theorem require_form_evolves (he : Confined setting eval) (hm : Confined setting evalModule)
    (scope : FrameId) (expr : Value) (s : Store) :
    s.Evolves setting scope (Value.Defines · (.list [.sym SpecialForm.require.keyword, expr]))
      ((evalForm setting eval evalModule scope .require [expr]).run s).2 := by
  have hv := (he expr scope s).mono fun name hn => (Value.Defines.specifier hn)
  rw [run_require_form]
  rcases hr : (eval expr scope).run s with ⟨_ | v, t⟩ <;> rw [hr] at hv
  · exact hv
  · simp only
    split
    · exact hv
    next name _ =>
      have hq := hv.trans (require_evolves hm scope name _ t)
      rcases hu : (require setting evalModule scope name).run t with ⟨_ | m, u⟩
      all_goals
        rw [hu] at hq
        exact hq

theorem evalForm_evolves (he : Confined setting eval) (hm : Confined setting evalModule)
    (scope : FrameId) (form : SpecialForm) (args : List Value) (s : Store) :
    s.Evolves setting scope (Value.Defines · (.list (.sym form.keyword :: args)))
      ((evalForm setting eval evalModule scope form args).run s).2 := by
  cases formShape form args with
  | quote v => exact .refl s
  | malformed h =>
    rw [run_malformed_form setting eval evalModule scope s h]
    exact .refl s
  | lambda params body =>
    rw [run_lambda_form]
    exact .refl s
  | define target expr => exact define_form_evolves he scope target expr s
  | conditional condition consequence alternative? =>
    exact conditional_form_evolves he scope condition consequence alternative? s
  | require expr => exact require_form_evolves he hm scope expr s

theorem evalHead_evolves (he : Confined setting eval) (scope : FrameId) (head : Value)
    (s : Store) :
    s.Evolves setting scope (Value.Defines · head) ((evalHead eval scope head).run s).2 := by
  cases head with
  | sym name =>
    rw [run_evalHead_sym]
    exact .refl s
  | _ => exact he _ scope s

theorem evalCall_evolves {below : Nat → Evaluator} (he : ∀ k, Confined setting (below k))
    (scope : FrameId) {head : Value} (ho : IsOrdinary head) (args : List Value) (s : Store) :
    s.Evolves setting scope (Value.Defines · (.list (head :: args)))
      ((evalCall limit below scope head args).run s).2 := by
  have hh : s.Evolves setting scope (Value.Defines · (.list (head :: args)))
      ((evalHead (below 0) scope head).run s).2 :=
    (evalHead_evolves (he 0) scope head s).mono fun name hn => .call ho List.mem_cons_self hn
  rw [run_evalCall]
  rcases hr : (evalHead (below 0) scope head).run s with ⟨_ | f, t⟩
  · rw [hr] at hh
    exact hh
  · rw [hr] at hh
    have ha : t.Evolves setting scope (Value.Defines · (.list (head :: args)))
        ((evalEach (below 1) scope args).run t).2 :=
      evalEach_evolves (he 1)
        (fun expr hmem name hn => .call ho (List.mem_cons_of_mem _ hmem) hn) t
    rcases hu : (evalEach (below 1) scope args).run t with ⟨_ | vs, u⟩
    · rw [hu] at ha
      simp only [hu]
      exact hh.trans ha
    · rw [hu] at ha
      simp only [hu]
      exact (hh.trans ha).trans (call_evolves (he 2) f vs scope _ u)

end Parts

/-! ## The evaluator -/

theorem step_evolves {setting : Setting} {below : Nat → Evaluator} (he : ∀ k, Confined setting (below k)) :
    Confined setting (step setting below) := by
  intro expr scope s
  cases exprShape expr with
  | symbol name =>
    rw [run_step_sym]
    exact .refl s
  | form hf args =>
    rw [step_form setting scope below hf, ← SpecialForm.keyword_of_ofKeyword? hf]
    exact evalForm_evolves (he 1) (he 4) scope _ args s
  | call ho args =>
    rw [step_call setting scope below ho]
    exact evalCall_evolves he scope ho args s
  | constant hc =>
    rw [step_constant setting scope below hc]
    exact .refl s

/-- Evaluation changes states only as evaluations may. -/
theorem eval_evolves (setting : Setting) (levels : Nat) : Confined setting (eval setting levels) := by
  induction levels using Nat.strongRecOn with
  | ind levels ih =>
    cases levels with
    | zero => exact fun _ _ s => .refl s
    | succ levels =>
      rw [eval_succ]
      exact step_evolves fun k => ih (levels - k) (Nat.lt_succ_of_le (Nat.sub_le _ _))

/-- **An evaluation writes into its own scope alone.**  However it ends, every other frame that
was there has the bindings and the outer frame that it had.  The scope keeps its outer frame and
loses no name, and only names that a `let` form of the expression binds in place can mean
something else there. -/
theorem eval_writes_own_scope (setting : Setting) (levels : Nat) (expr : Value) (scope : FrameId)
    (s : Store) (hscope : scope < s.heap.size) :
    let t := ((eval setting levels expr scope).run s).2
    (∀ id, id < s.heap.size → id ≠ scope → t.heap.frames[id]? = s.heap.frames[id]?) ∧
    t.heap.outer? scope = s.heap.outer? scope ∧
    (∀ name, (s.heap.own? scope name).isSome → (t.heap.own? scope name).isSome) ∧
    ∀ name, ¬ expr.Defines name → t.heap.own? scope name = s.heap.own? scope name := by
  intro t
  have h : s.Evolves setting scope (Value.Defines · expr) t := eval_evolves setting levels _ _ s
  obtain ⟨f, hf⟩ := s.heap.frame_of_lt_size hscope
  obtain ⟨g, hg, houter, hbound, hown⟩ := h.own f hf
  simp only [Heap.own?_eq, Heap.outer?, hf, hg, Option.bind_some]
  exact ⟨h.frames, houter, hbound, hown⟩

/-- A function made and called in an interpreter's scope binds `z` in a frame of its own; the
scope gets `x` alone. -/
theorem eval_writes_own_scope_call :
    let s : Store := ⟨Prelude.install Heap.empty, Registry.empty, []⟩
    let function : Value :=
      .list [.sym "fn", .list [.sym "y"], .list [.sym "let", .sym "z", .sym "y"]]
    let expr : Value := .list [.sym "let", .sym "x", .list [function, .bool true]]
    let t := ((eval (Setting.standard FileTree.empty (.ofLocation [])) 20 expr 4).run s).2
    4 < s.heap.size ∧
    (∀ id, id < s.heap.size → id ≠ 4 → t.heap.frames[id]? = s.heap.frames[id]?) ∧
    t.heap.outer? 4 = s.heap.outer? 4 ∧
    (∀ name, (s.heap.own? 4 name).isSome → (t.heap.own? 4 name).isSome) ∧
    ∀ name, ¬ expr.Defines name → t.heap.own? 4 name = s.heap.own? 4 name := by
  intro s function expr t
  have hsize : 4 < s.heap.size := by decide
  exact ⟨hsize, eval_writes_own_scope _ 20 expr 4 s hsize⟩

end Evaluation

end SmallLisp
