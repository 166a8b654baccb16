import SmallLisp.Proofs.Copies

/-! # Evaluating files anew

A process that keeps no module does what one does that keeps them all, up to copies of frames, as
long as it is not cut off for going too deep: the two differ at a `require` alone, and there the
second gets a copy of the module that the first has kept (`Evaluation.load_follows`).  For when a
file was evaluated to its end, everything that it required in the course was kept; to evaluate it
anew requires the same again, and nothing of it can be in the middle of being loaded, for what is
being loaded is not kept.

So the induction over evaluations that proves it (`Evaluation.eval_follows`) speaks of an evaluation
of the first process and of any evaluation of the second one of an alike expression, on however many
levels: the same evaluation of the first is followed at once, and again whenever the file in which
its expression stands is evaluated anew.
-/
namespace SmallLisp
open SmallLisp.Action

namespace Evaluation

/-- An evaluator follows another one from alike expressions and in the only copy of a scope. -/
def Faithful (setting : Setting) (deeper : Prop) (eval eval' : Evaluator) : Prop :=
  ∀ {T : List Printed → List Printed → Prop} {active : FrameId → Prop}
    {rel : FrameId → FrameId → Prop} {s s' : Store} {scope scope' : FrameId} {expr expr' : Value},
    Talks setting T → active scope → rel scope scope' → expr.Like rel expr' →
      Follows setting T active rel deeper Value.Like s s' (eval expr scope) (eval' expr' scope')

/-- Evaluations on so many levels are followed by those that keep no module, on however many. -/
def Repeatable (setting : Setting) (levels : Nat) : Prop :=
  ∀ j, Faithful setting (levels < j) (Evaluation.eval setting levels)
    (Evaluation.eval setting.forgetful j)

/-- Modules of the same name of which the second is a copy of the first. -/
def ModuleLike (rel : FrameId → FrameId → Prop) (m m' : Module) : Prop :=
  m.name = m'.name ∧ rel m.scope m'.scope

variable {setting : Setting} {T : List Printed → List Printed → Prop} {active : FrameId → Prop}
variable {rel : FrameId → FrameId → Prop} {deeper : Prop} {s s' t : Store}
variable {scope scope' : FrameId} {eval eval' : Evaluator} {limit : Nat}

/-! ## Registries -/

section Growing
variable {α β : Type}

theorem growing_pure (a : α) : Growing setting (pure a : Action α) := fun _ => .refl _

theorem growing_bind {x : Action α} {f : α → Action β} (hx : Growing setting x)
    (hf : ∀ a, Growing setting (f a)) : Growing setting (x >>= f) := by
  intro s
  have hfirst := hx s
  rw [run_bind]
  rcases hrun : x.run s with ⟨e | a, t⟩
  · rw [hrun] at hfirst
    exact hfirst
  · rw [hrun] at hfirst
    exact hfirst.trans (hf a t)

theorem growing_of_confined (he : Confined setting eval) (expr : Value) (scope : FrameId) :
    Growing setting (eval expr scope) := fun s => (he expr scope s).registry

theorem growing_evalEach (he : Confined setting eval) (scope : FrameId) (exprs : List Value) :
    Growing setting (evalEach eval scope exprs) := fun s =>
  (@evalEach_evolves setting eval he scope (fun _ => True) exprs (fun _ _ _ _ => trivial) s).registry

theorem growing_evalForms (he : Confined setting eval) (scope : FrameId) (last : Value)
    (forms : List Value) : Growing setting (evalForms eval scope last forms) := fun s =>
  (@evalForms_evolves setting eval he scope (fun _ => True) forms (fun _ _ _ _ => trivial) last s).registry

theorem growing_runScript (he : Confined setting eval) (scope : FrameId) (script : Script) :
    Growing setting (runScript eval scope script) := fun s =>
  (@runScript_evolves setting eval he scope (fun _ => True) script (fun _ _ _ _ => trivial)
    s).registry

theorem growing_call (he : Confined setting eval) (f : Value) (args : List Value) :
    Growing setting (call limit eval f args) := fun s =>
  (call_evolves he f args 0 (fun _ => True) s).registry

theorem growing_require (he : Confined setting eval) (scope : FrameId) (specifier : String) :
    Growing setting (require setting eval scope specifier) := fun s =>
  (require_evolves he scope specifier (fun _ => True) s).registry

end Growing

/-! ## Calls and sequences -/

theorem callNative_follows (hT : Talks setting T) {args args' : List Value}
    (ha : List.Forall₂ (Value.Like rel) args args') (g : Native) :
    Follows setting T active rel deeper Value.Like s s' (callNative limit g args)
      (callNative limit g args') := by
  obtain ⟨result, result', out, hr, hrun, hrun'⟩ := callNative_alike limit ha g
  intro hm _
  rw [hrun, hrun']
  exact .alike ⟨fun _ _ h => h, fun _ _ h => .inl h, Nat.le_refl _, rfl⟩ (hm.printing hT out) hr

theorem call_follows (he : Faithful setting deeper eval eval') (hT : Talks setting T)
    {f f' : Value} {args args' : List Value} (hf : f.Like rel f')
    (ha : List.Forall₂ (Value.Like rel) args args') :
    Follows setting T active rel deeper Value.Like s s' (call limit eval f args)
      (call limit eval' f' args') := by
  have hnot := hf.notAFunction limit
  cases hf with
  | list _ _ => exact .of_run_eq rfl rfl (.of_error_eq hnot)
  | module _ => exact .of_run_eq rfl rfl (.of_error_eq hnot)
  | @fn params body body' outer outer' hbody houter =>
    intro hm hal
    rw [run_call_fn] at hal ⊢
    rw [run_call_fn, ← ha.length_eq]
    split
    next hlength =>
      rw [if_pos hlength] at hal
      have hin := hm.entering houter (Table.Alike.empty.insertAll_zip params ha)
      have hmore : ∀ x y, rel x y → rel x y ∨ (x = s.heap.size ∧ y = s'.heap.size) :=
        fun _ _ => .inl
      have hends := he hT (.inr rfl) (.inr ⟨rfl, rfl⟩) (hbody.mono hmore) hin
        ⟨hal.unkept, hal.loading⟩
      exact hends.of_entering hm
    · exact .alike .refl hm (.error _)
  | atom hs hl =>
    cases f with
    | native g => exact callNative_follows hT ha g
    | fn params body outer => cases hs
    | _ => exact .of_run_eq rfl rfl (.error _)

theorem evalEach_follows (hk : setting.keepsModules = true) (hc : Confined setting eval)
    (he : Faithful setting deeper eval eval') (hT : Talks setting T) (ha : active scope)
    {exprs exprs' : List Value} (hs : rel scope scope')
    (h : List.Forall₂ (Value.Like rel) exprs exprs') :
    Follows setting T active rel deeper (fun rel => List.Forall₂ (Value.Like rel)) s s'
      (evalEach eval scope exprs) (evalEach eval' scope' exprs') := by
  induction exprs generalizing rel s s' exprs' with
  | nil =>
    cases h with
    | nil => exact .pure .nil
  | cons expr rest ih =>
    cases h with
    | cons hexpr hrest =>
      refine (he hT ha hs hexpr).bind hk (growing_of_confined hc _ _)
        (fun v => growing_bind (growing_evalEach hc _ _) fun vs => growing_pure _) ?_
      intro rel' v w t t' hmore hv
      refine (ih (hmore _ _ hs) (hrest.imp fun _ _ h => h.mono hmore)).bind hk
        (growing_evalEach hc _ _) (fun vs => growing_pure _) ?_
      intro rel'' vs ws u u' hmore' hvs
      exact .pure (.cons (hv.mono hmore') hvs)

theorem evalForms_follows (hk : setting.keepsModules = true) (hc : Confined setting eval)
    (he : Faithful setting deeper eval eval') (hT : Talks setting T) (ha : active scope)
    {last last' : Value} {forms forms' : List Value} (hs : rel scope scope')
    (hlast : last.Like rel last') (h : List.Forall₂ (Value.Like rel) forms forms') :
    Follows setting T active rel deeper Value.Like s s' (evalForms eval scope last forms)
      (evalForms eval' scope' last' forms') := by
  induction forms generalizing rel s s' last last' forms' with
  | nil =>
    cases h with
    | nil => exact .pure hlast
  | cons form rest ih =>
    cases h with
    | cons hform hrest =>
      refine (he hT ha hs hform).bind hk (growing_of_confined hc _ _)
        (fun v => growing_evalForms hc _ _ _) ?_
      intro rel' v w t t' hmore hv
      exact ih (hmore _ _ hs) hv (hrest.imp fun _ _ h => h.mono hmore)

/-! ## Modules -/

/-- What comes of the expressions of a script, and of what stopped its reading. -/
def scriptResult {α β : Type} (done : α → β) (leaving : Fault → Fault) (stop? : Option Fault) :
    Except Fault α → Except Fault β
  | .error e => .error (leaving e)
  | .ok v =>
    match stop? with
    | none => .ok (done v)
    | some stop => .error (leaving stop)

/-- Actions that evaluate the expressions of a script and then do alike things. -/
theorem script_follows {β : Type} {R : (FrameId → FrameId → Prop) → β → β → Prop}
    {y y' : Action β} (hk : setting.keepsModules = true) (hc : Confined setting eval)
    (he : Faithful setting deeper eval eval') (hT : Talks setting T) (ha : active scope)
    (hs : rel scope scope') {script : Script} (hcode : ∀ form ∈ script.forms, form.IsCode)
    {done : Value → β} {leaving : Fault → Fault} {stop? : Option Fault}
    (hy : y.run s = (scriptResult done leaving stop? ((evalForms eval scope .nil script.forms).run s).1,
      ((evalForms eval scope .nil script.forms).run s).2))
    (hy' : y'.run s' =
      (scriptResult done leaving stop? ((evalForms eval' scope' .nil script.forms).run s').1,
        ((evalForms eval' scope' .nil script.forms).run s').2))
    (hleaving : leaving .tooDeep = .tooDeep)
    (hdone : ∀ rel v w, Value.Like rel v w → R rel (done v) (done w)) :
    Follows setting T active rel deeper R s s' y y' := by
  have hforms : List.Forall₂ (Value.Like rel) script.forms script.forms :=
    List.forall₂_same.2 fun form hm => .refl_of_isCode (hcode form hm)
  have hcut : scriptResult done leaving stop? (.error .tooDeep) = .error .tooDeep :=
    congrArg Except.error hleaving
  refine (evalForms_follows hk hc he hT ha hs (.refl_of_isCode Value.isCode_nil) hforms).map _ _ hy hy'
    (fun e => ⟨_, rfl⟩) hcut hcut fun rel' r r' hr => ?_
  cases hr with
  | error e => exact .error _
  | ok hv =>
    simp only [scriptResult]
    split
    · exact .ok (hdone rel' _ _ hv)
    · exact .error _

theorem runScript_follows (hk : setting.keepsModules = true) (hc : Confined setting eval)
    (he : Faithful setting deeper eval eval') (hT : Talks setting T) (ha : active scope)
    (hs : rel scope scope') {script : Script} (hcode : ∀ form ∈ script.forms, form.IsCode) :
    Follows setting T active rel deeper Value.Like s s'
      (runScript eval scope script) (runScript eval' scope' script) := by
  have hrun (ev : Evaluator) (scope : FrameId) (s : Store) :
      (runScript ev scope script).run s =
        (scriptResult id id (script.stop?.map stopFault)
          ((evalForms ev scope .nil script.forms).run s).1,
          ((evalForms ev scope .nil script.forms).run s).2) := by
    rw [run_runScript]
    rcases (evalForms ev scope .nil script.forms).run s with ⟨_ | _, _⟩
    · rfl
    · simp only [scriptResult]
      cases script.stop? <;> rfl
  exact script_follows hk hc he hT ha hs hcode (hrun _ _ _) (hrun _ _ _) rfl fun _ _ _ hv => hv

theorem runModule_follows (hk : setting.keepsModules = true) (hc : Confined setting eval)
    (he : Faithful setting deeper eval eval') (hT : Talks setting T) (ha : active scope)
    (hs : rel scope scope') (path : Path) {script : Script}
    (hcode : ∀ form ∈ script.forms, form.IsCode) :
    Follows setting T active rel deeper (fun _ _ _ => True) s s'
      (runModule eval path scope script) (runModule eval' path scope' script) := by
  have hrun (ev : Evaluator) (scope : FrameId) (s : Store) :
      (runModule ev path scope script).run s =
        (scriptResult (fun _ => ()) (Fault.leaving path)
          (script.stop?.map (ReadingStop.inModule path))
          ((evalForms ev scope .nil script.forms).run s).1,
          ((evalForms ev scope .nil script.forms).run s).2) := by
    rw [run_runModule]
    rcases (evalForms ev scope .nil script.forms).run s with ⟨_ | _, _⟩
    · rfl
    · simp only [scriptResult]
      cases script.stop? <;> rfl
  exact script_follows hk hc he hT ha hs hcode (hrun _ _ _) (hrun _ _ _) rfl fun _ _ _ _ => trivial

section Loads
variable {path : Path} {m : Module} {k : Nat} {text : List Char}

theorem kept?_forgetful : s.kept? setting.forgetful path = none := rfl

/-- Nothing but what is kept needs to be the same when a load begins. -/
theorem mirrors_nothing (h : Kept setting active s) (s' : Store) :
    Mirrors setting (fun _ _ => True) active (fun _ _ => False) s s' :=
  ⟨⟨fun _ _ => False.elim, fun _ _ => False.elim, False.elim⟩, fun _ => False.elim, h, trivial⟩

/-- The outermost scope of a load is active. -/
theorem mirrors_opening (h : Mirrors setting T active rel s s')
    (hm : s.registry.get? path = none) :
    Mirrors setting (fun _ _ => True) (fun id => active id ∨ id = Prelude.rootOf s.heap)
      (fun a b => rel a b ∨ Prelude.pairs s.heap s'.heap a b) (s.opening path)
      (s'.opening path) := by
  have hi := h.installing
  exact ⟨hi.copies, hi.single, hi.kept.mono (Registry.Grows.apart_beginLoad h.kept.apart hm)
    hi.kept.active_lt (fun _ ha _ => ha) (fun _ _ _ => rfl) (Nat.le_refl _)
    fun q => Registry.Grows.get?_beginLoad _ _ _, trivial⟩

/-- What is done while a path is loaded leaves no module for it, nor for what is being loaded
elsewhere if none of that has one in the end. -/
theorem allows_opening {α : Type} {o : Except Fault α × Store}
    (hl : s'.registry.isLoading path = false)
    (hin : (s.registry.beginLoad path).Grows setting o.2.registry)
    (hapart : o.2.registry.Apart) (hfree : ∀ q ∈ s'.registry.loading, o.2.registry.get? q = none)
    (he : ∀ e, o.1 = .error e → s.registry.loading = s'.registry.loading) :
    Allows (s.opening path) (s'.opening path) o := by
  constructor
  · intro q hq
    have hq' : q = path ∨ q ∈ s'.registry.loading := by
      rw [← Registry.isLoading_iff] at hq ⊢
      have hb : (s'.registry.beginLoad path).isLoading q = true := hq
      rw [Registry.isLoading_beginLoad, Bool.or_eq_true, decide_eq_true_eq] at hb
      exact hb
    rcases hq' with rfl | hq'
    · refine hapart q ?_
      rw [hin.isLoading, Registry.isLoading_beginLoad]
      simp only [decide_true, Bool.true_or]
    · exact hfree q hq'
  · intro e heq
    have hsame := he e heq
    change (s.registry.beginLoad path).loading = (s'.registry.beginLoad path).loading
    have hl' : s.registry.isLoading path = false := by
      rw [Registry.isLoading, hsame]
      exact hl
    simp only [Registry.beginLoad, hl, hl', Bool.false_eq_true, if_false, hsame]

/-- Where no module is kept, the load of a file ends when its expressions end. -/
theorem run_load_forgetful (hl : s.registry.isLoading path = false)
    (hread : setting.files.readText setting.here path = .ok text) :
    (load setting.forgetful eval path).run s =
      match (runFile setting eval (Prelude.rootOf s.heap) path text).run (s.opening path) with
      | (.error e, t) => (.error e, t.closing path)
      | (.ok _, t) => (.ok ⟨path.text, Prelude.rootOf s.heap⟩, t.closing path) :=
  run_load_file kept?_forgetful hl hread

theorem get?_keeping (hk : setting.keepsModules = true) (path q : Path) (m : Module) (t : Store) :
    ((t.closing path).keeping setting path m).registry.get? q =
      if path = q then some m else t.registry.get? q := by
  rw [Store.keeping, if_pos hk]
  exact Registry.get?_insert _ _ _ _

theorem unkept_of_keeping (hk : setting.keepsModules = true) {loading : List Path}
    (h : ∀ q ∈ loading, ((t.closing path).keeping setting path m).registry.get? q = none) :
    ∀ q ∈ loading, t.registry.get? q = none := by
  intro q hq
  have hnone := h q hq
  rw [get?_keeping hk] at hnone
  split at hnone
  · cases hnone
  · exact hnone

/-- The expressions of a file follow those of the same file elsewhere. -/
theorem runFile_follows (hk : setting.keepsModules = true) (hev : Repeatable setting k) (j : Nat)
    (path : Path) (text : List Char) :
    Follows setting (fun _ _ => True) (fun id => active id ∨ id = Prelude.rootOf s.heap)
      (fun a b => rel a b ∨ Prelude.pairs s.heap s'.heap a b) (k < j) (fun _ _ _ => True)
      (s.opening path) (s'.opening path)
      (runFile setting (Evaluation.eval setting k) (Prelude.rootOf s.heap) path text)
      (runFile setting (Evaluation.eval setting.forgetful j) (Prelude.rootOf s'.heap) path text) :=
  runModule_follows hk (eval_evolves setting k) (hev j) talks_anything (.inr rfl)
    (.inr (Prelude.pairs_root _ _)) path (Script.isCode_ofText _ _)

theorem growing_runFile (setting : Setting) (k : Nat) (scope : FrameId) (path : Path)
    (text : List Char) :
    Growing setting (runFile setting (Evaluation.eval setting k) scope path text) := fun s =>
  (runModule_evolves (eval_evolves setting k) path scope
    (Script.ofText setting.nestingLimit (Text.trimStart text)) s).registry

/-- While a file is evaluated, what has a module stays apart from what is being loaded. -/
theorem apart_of_runFile (hk : setting.keepsModules = true) (hkept : Kept setting active s)
    (hget : s.registry.get? path = none) (k : Nat) (scope : FrameId) (text : List Char) :
    ((runFile setting (Evaluation.eval setting k) scope path text).run
      (s.opening path)).2.registry.Apart :=
  (growing_runFile setting k scope path text (s.opening path)).apart hk
    (Registry.Grows.apart_beginLoad hkept.apart hget)

/-- What the end of a load allows, the end of its file allows. -/
theorem allows_runFile (hk : setting.keepsModules = true) (hkept : Kept setting active s)
    (hget : s.registry.get? path = none) (hl : s.registry.isLoading path = false)
    (hl' : s'.registry.isLoading path = false)
    (hread : setting.files.readText setting.here path = .ok text)
    (ha : Allows s s' ((load setting (Evaluation.eval setting k) path).run s)) :
    Allows (s.opening path) (s'.opening path)
      ((runFile setting (Evaluation.eval setting k) (Prelude.rootOf s.heap) path text).run
        (s.opening path)) := by
  have hgrows := growing_runFile setting k (Prelude.rootOf s.heap) path text (s.opening path)
  have hapart := apart_of_runFile hk hkept hget k (Prelude.rootOf s.heap) text
  rw [run_load_file ((if_pos hk).trans hget) hl hread] at ha
  rcases hrun : (runFile setting (Evaluation.eval setting k) (Prelude.rootOf s.heap) path text).run
    (s.opening path) with ⟨e | _, t⟩ <;> rw [hrun] at ha hgrows hapart
  · exact allows_opening hl' hgrows hapart ha.unkept fun _ _ => ha.loading _ rfl
  · exact allows_opening hl' hgrows hapart (unkept_of_keeping hk ha.unkept) nofun

/-- No copy that a load makes is one of a frame that was active before. -/
theorem fresh_of_grown {rel' : FrameId → FrameId → Prop} {t' : Store} (h : Kept setting active s)
    (hg : Grown (fun id => active id ∨ id = Prelude.rootOf s.heap)
      (fun a b => rel a b ∨ Prelude.pairs s.heap s'.heap a b) (s'.opening path) rel' t')
    (a b : FrameId) (hab : rel' a b) : rel a b ∨ (¬ active a ∧ s'.heap.size ≤ b) := by
  rcases hg.new a b hab with (hab | ⟨i, -, rfl, rfl⟩) | ⟨hna, hb⟩
  · exact .inl hab
  · refine .inr ⟨fun hact => ?_, Nat.le_add_right _ _⟩
    exact Nat.not_lt.2 (Nat.le_add_right _ _) (h.active_lt _ hact)
  · exact .inr ⟨fun hact => hna (.inl hact), Nat.le_trans (Heap.size_le_install _) hb⟩

/-- When the file of a load has been evaluated, its copies are copies made since the load began. -/
theorem grown_closing {rel' : FrameId → FrameId → Prop} {t' : Store} (h : Kept setting active s)
    (hl' : s'.registry.isLoading path = false)
    (hg : Grown (fun id => active id ∨ id = Prelude.rootOf s.heap)
      (fun a b => rel a b ∨ Prelude.pairs s.heap s'.heap a b) (s'.opening path) rel' t') :
    Grown active rel s' rel' (t'.closing path) where
  more a b hab := hg.more a b (.inl hab)
  new := fresh_of_grown h hg
  size_le := Nat.le_trans (Heap.size_le_install _) hg.size_le
  loading := Registry.Grows.loading_endLoad hl' hg.loading

/-- **When a file has been evaluated to its end, evaluating it anew gives a copy of its module.** -/
theorem reloads_of_run (hk : setting.keepsModules = true) (hev : Repeatable setting k)
    (hkept : Kept setting active s) (hget : s.registry.get? path = none)
    (hread : setting.files.readText setting.here path = .ok text)
    (hrun : (runFile setting (Evaluation.eval setting k) (Prelude.rootOf s.heap) path text).run
      (s.opening path) = (.ok (), t)) :
    Reloads setting active
      ((t.closing path).keeping setting path ⟨path.text, Prelude.rootOf s.heap⟩) path
      ⟨path.text, Prelude.rootOf s.heap⟩ := by
  intro j s' hfree
  have hgrows := growing_runFile setting k (Prelude.rootOf s.heap) path text (s.opening path)
  have hapart := apart_of_runFile hk hkept hget k (Prelude.rootOf s.heap) text
  rw [hrun] at hgrows hapart
  have hl : s'.registry.isLoading path = false := by
    rw [Bool.eq_false_iff]
    intro hl
    have hnone := hfree path (Registry.isLoading_iff.1 hl)
    rw [get?_keeping hk, if_pos rfl] at hnone
    cases hnone
  have hallows := allows_opening hl hgrows hapart (unkept_of_keeping hk hfree) nofun
  have hfollows := runFile_follows hk hev j path text
    (mirrors_opening (mirrors_nothing hkept s') hget)
  rw [hrun] at hfollows
  have hends := hfollows hallows
  simp only [run_load_forgetful hl hread]
  rcases hrun' : (runFile setting (Evaluation.eval setting.forgetful j) (Prelude.rootOf s'.heap) path
    text).run (s'.opening path) with ⟨r', t'⟩
  rw [hrun'] at hends
  cases hends with
  | cut => exact .inl rfl
  | @alike rel' _ _ _ _ hg hm' hr =>
    cases hr with
    | ok _ =>
      refine .inr ⟨rel', _, rfl, hg.more _ _ (.inr (Prelude.pairs_root _ _)), ?_, fun a b hab => ?_⟩
      · rw [Store.keeping, if_pos hk]
        exact hm'.copies
      · exact (fresh_of_grown hkept hg a b hab).resolve_left id

/-- Where a path is not being loaded, the other process loads it no more than this one. -/
theorem not_loading_of_allows (hk : setting.keepsModules = true)
    (ha : Allows s s' ((load setting eval path).run s)) (hl : s.registry.isLoading path = false) :
    s'.registry.isLoading path = false := by
  rw [Bool.eq_false_iff]
  intro hl'
  rcases hrun : (load setting eval path).run s with ⟨e | m, t⟩ <;> rw [hrun] at ha
  · have hsame := ha.loading e rfl
    rw [Registry.isLoading, ← hsame] at hl'
    rw [Registry.isLoading, hl'] at hl
    cases hl
  · have hnone := ha.unkept path (Registry.isLoading_iff.1 hl')
    rw [kept_of_load hk hrun] at hnone
    cases hnone

/-- The modules after a load that failed can be had again as before. -/
theorem kept_closing (h : Kept setting (fun id => active id ∨ id = Prelude.rootOf s.heap) t)
    (hapart : (t.closing path).registry.Apart) : Kept setting active (t.closing path) :=
  h.mono hapart (fun a ha => h.active_lt a (.inl ha)) (fun _ ha _ => .inl ha)
    (fun _ _ _ => rfl) (Nat.le_refl _) fun _ => rfl

/-- So can they after a load that went well, and the new module as well. -/
theorem kept_keeping (hk : setting.keepsModules = true)
    (h : Kept setting (fun id => active id ∨ id = Prelude.rootOf s.heap) t)
    (hapart : ((t.closing path).keeping setting path m).registry.Apart)
    (hm : Reloads setting active ((t.closing path).keeping setting path m) path m) :
    Kept setting active ((t.closing path).keeping setting path m) := by
  have hheap : ((t.closing path).keeping setting path m).heap = t.heap := by
    rw [Store.keeping, if_pos hk]
    rfl
  refine ⟨hapart, fun a ha => ?_, fun q m' hq => ?_⟩
  · rw [hheap]
    exact h.active_lt a (.inl ha)
  · rw [get?_keeping hk] at hq
    split at hq
    next he =>
      subst he
      cases hq
      exact hm
    · refine (h.reloads q m' hq).mono (fun _ ha _ => .inl ha) (fun id _ _ => by rw [hheap])
        (Nat.le_of_eq (congrArg Heap.size hheap).symm) fun q' hq' => ?_
      rw [get?_keeping hk] at hq'
      split at hq'
      · cases hq'
      · exact hq'

/-- Loads of a file that has no module yet, neither of which is in the middle of loading it. -/
theorem load_file_follows (hk : setting.keepsModules = true) (hev : Repeatable setting k)
    (hT : Talks setting T) (j : Nat) (hget : s.registry.get? path = none)
    (hl : s.registry.isLoading path = false) (hl' : s'.registry.isLoading path = false)
    (hread : setting.files.readText setting.here path = .ok text) :
    Follows setting T active rel (k < j) ModuleLike s s'
      (load setting (Evaluation.eval setting k) path)
      (load setting.forgetful (Evaluation.eval setting.forgetful j) path) := by
  intro hm ha
  have htalk := hT.loads path k j hm.kept hm.talk
  have hapart := (load_evolves (eval_evolves setting k) path s.heap.size (fun _ => False)
    s).registry.apart hk hm.kept.apart
  have hends := runFile_follows hk hev j path text (mirrors_opening hm hget)
    (allows_runFile hk hm.kept hget hl hl' hread ha)
  rw [run_load_file ((if_pos hk).trans hget) hl hread] at htalk hapart ⊢
  rw [run_load_forgetful hl' hread] at htalk ⊢
  rcases hrun : (runFile setting (Evaluation.eval setting k) (Prelude.rootOf s.heap) path text).run
    (s.opening path) with ⟨r, t⟩
  rcases hrun' : (runFile setting (Evaluation.eval setting.forgetful j) (Prelude.rootOf s'.heap) path
    text).run (s'.opening path) with ⟨r', t'⟩
  rw [hrun] at hends htalk hapart
  rw [hrun'] at hends htalk
  cases hends with
  | cut => exact .cut
  | deeper hd => exact .deeper hd
  | alike hg hm' hr =>
    have hg' := grown_closing hm.kept hl' hg
    cases hr with
    | error e =>
      exact .alike hg' ⟨hm'.copies, fun hact => hm'.single (.inl hact),
        kept_closing hm'.kept hapart, htalk⟩ (.error e)
    | ok _ =>
      have hreloads := reloads_of_run hk hev hm.kept hget hread hrun
      refine .alike hg' ⟨?_, fun hact => hm'.single (.inl hact),
        kept_keeping hk hm'.kept hapart hreloads, htalk⟩
        (.ok ⟨rfl, hg.more _ _ (.inr (Prelude.pairs_root _ _))⟩)
      simp only [Store.keeping, if_pos hk]
      exact hm'.copies

/-- Where the first process finds a module that is kept, the second evaluates its file anew. -/
theorem load_kept_follows (hk : setting.keepsModules = true) (hT : Talks setting T) (j : Nat)
    (hget : s.registry.get? path = some m) :
    Follows setting T active rel (k < j) ModuleLike s s'
      (load setting (Evaluation.eval setting k) path)
      (load setting.forgetful (Evaluation.eval setting.forgetful j) path) := by
  intro hm ha
  have htalk := hT.loads path k j hm.kept hm.talk
  have hgrows := load_evolves (eval_evolves setting.forgetful j) path s'.heap.size (fun _ => False) s'
  rw [run_load_kept ((if_pos hk).trans hget)] at ha htalk ⊢
  rcases hm.kept.reloads path m hget j s' ha.unkept with hcut | ⟨τ, copy, hok, hcopy, hc, hn⟩
  · exact .of_cut hcut
  · rcases hrun' : (load setting.forgetful (Evaluation.eval setting.forgetful j) path).run s' with
      ⟨r', t'⟩
    rw [hrun'] at hok htalk hgrows hc
    obtain rfl : r' = .ok ⟨m.name, copy⟩ := hok
    have hg : Grown active rel s' (fun a b => rel a b ∨ τ a b) t' :=
      ⟨fun _ _ => .inl, fun a b hab => hab.imp_right (hn a b), hgrows.size_le,
        hgrows.registry.loading⟩
    refine .alike hg ⟨?_, ?_, hm.kept, htalk⟩ (.ok ⟨rfl, .inr hcopy⟩)
    · exact hm.copies.union hc (fun id hid => hgrows.frames id hid (Nat.ne_of_lt hid))
        hgrows.size_le fun a b hab => (hn a b hab).2
    · intro a b y hact hab hay
      rcases hab with hab | hab
      · rcases hay with hay | hay
        · exact hm.single hact hab hay
        · exact absurd hact (hn a y hay).1
      · exact absurd hact (hn a b hab).1

theorem load_follows (hk : setting.keepsModules = true) (hev : Repeatable setting k)
    (hT : Talks setting T) (path : Path) (j : Nat) :
    Follows setting T active rel (k < j) ModuleLike s s'
      (load setting (Evaluation.eval setting k) path)
      (load setting.forgetful (Evaluation.eval setting.forgetful j) path) := by
  intro hm ha
  rcases hget : s.registry.get? path with _ | m
  · have hnew : s.kept? setting path = none := (if_pos hk).trans hget
    by_cases hl : s.registry.isLoading path = true
    · -- the path is being loaded, by both of them
      rw [run_load_circular hnew hl] at ha ⊢
      have hl' : s'.registry.isLoading path = true := by
        rw [Registry.isLoading, ← ha.loading _ rfl]
        exact hl
      rw [run_load_circular kept?_forgetful hl']
      exact .alike .refl hm (.error _)
    · have hl : s.registry.isLoading path = false := by simpa using hl
      have hl' := not_loading_of_allows hk ha hl
      rcases hread : setting.files.readText setting.here path with e | text
      · rw [run_load_unreadable hnew hl hread, run_load_unreadable kept?_forgetful hl' hread]
        exact .alike .refl hm (.error _)
      · exact load_file_follows hk hev hT j hget hl hl' hread hm ha
  · exact load_kept_follows hk hT j hget hm ha

theorem require_follows (hk : setting.keepsModules = true)
    (hev : Repeatable setting k) (hT : Talks setting T) (hs : rel scope scope')
    (specifier : String) (j : Nat) :
    Follows setting T active rel (k < j) ModuleLike s s'
      (require setting (Evaluation.eval setting k) scope specifier)
      (require setting.forgetful (Evaluation.eval setting.forgetful j) scope' specifier) := by
  intro hm ha
  rw [run_require] at ha ⊢
  rw [run_require]
  rcases optionRel_cases (Scope.module?_alike (hm.copies.alike.get? hs specifier)) with
    ⟨hx, hy⟩ | ⟨m, m', hx, hy, hname, hscope⟩
  · have hpath : modulePath setting.forgetful specifier = modulePath setting specifier := rfl
    rw [hx] at ha ⊢
    rw [hy, hpath]
    simp only at ha ⊢
    rcases hp : modulePath setting specifier with e | path
    · exact .alike .refl hm (.error _)
    · rw [hp] at ha
      exact load_follows hk hev hT path j hm ha
  · rw [hx, hy]
    exact .alike .refl hm (.ok ⟨hname, hscope⟩)

end Loads

/-! ## Forms -/

section Forms
variable {k j : Nat}

/-- What follows the value of an expression that a definition binds. -/
def binding (scope : FrameId) (name : String) (v : Value) : Action Value :=
  Action.define scope name v >>= fun _ => pure v

/-- What follows the value of a condition. -/
def branch (eval : Evaluator) (scope : FrameId) (consequence : Value)
    (alternative? : Option Value) (v : Value) : Action Value :=
  if v.isTruthy then eval consequence scope
  else
    match alternative? with
    | some alternative => eval alternative scope
    | none => pure .nil

/-- What follows the value that names a module. -/
def required (setting : Setting) (eval : Evaluator) (scope : FrameId) (v : Value) : Action Value :=
  match specifier? v with
  | none => throw (.wrongType setting.writingLimit .modulePath v)
  | some name => require setting eval scope name >>= fun m => pure (.module m)

section Equations
variable (setting : Setting) (eval evalModule : Evaluator) (scope : FrameId) (s : Store)

theorem run_define_form_bind {target : Value} {name : String}
    (h : boundName setting.writingLimit target = .ok name) (expr : Value) :
    (evalForm setting eval evalModule scope .define [target, expr]).run s =
      (eval expr scope >>= binding scope name).run s := by
  rw [run_define_form, h, run_bind]
  rcases (eval expr scope).run s with ⟨_ | v, t⟩ <;> rfl

theorem run_conditional_form_bind (condition consequence : Value) (alternative? : Option Value) :
    (evalForm setting eval evalModule scope .conditional
        (condition :: consequence :: alternative?.toList)).run s =
      (eval condition scope >>= branch eval scope consequence alternative?).run s := by
  rw [run_conditional_form, run_bind]
  rcases (eval condition scope).run s with ⟨_ | v, t⟩
  · rfl
  · simp only [branch]
    split
    · rfl
    · cases alternative? <;> rfl

theorem run_require_form_bind (expr : Value) :
    (evalForm setting eval evalModule scope .require [expr]).run s =
      (eval expr scope >>= required setting evalModule scope).run s := by
  rw [run_require_form, run_bind]
  rcases (eval expr scope).run s with ⟨_ | v, t⟩
  · rfl
  · simp only [required]
    rcases specifier? v with _ | name
    · rfl
    · simp only [run_bind]
      rcases (require setting evalModule scope name).run t with ⟨_ | m, u⟩ <;> rfl

end Equations

theorem binding_follows (ha : active scope) (hs : rel scope scope') (name : String) {v w : Value}
    (hv : v.Like rel w) :
    Follows setting T active rel deeper Value.Like s s' (binding scope name v)
      (binding scope' name w) := by
  intro hm _
  exact .alike ⟨fun _ _ h => h, fun _ _ h => .inl h, Nat.le_of_eq (Heap.size_define _ _ _ _).symm,
    rfl⟩ (hm.defining ha hs name hv) (.ok hv)

theorem growing_branch (hc : Confined setting eval) (scope : FrameId) (consequence : Value)
    (alternative? : Option Value) (v : Value) :
    Growing setting (branch eval scope consequence alternative? v) := by
  unfold branch
  split
  · exact growing_of_confined hc _ _
  · split
    · exact growing_of_confined hc _ _
    · exact growing_pure _

theorem branch_follows (he : Faithful setting deeper eval eval') (hT : Talks setting T)
    (ha : active scope) (hs : rel scope scope') {consequence consequence' v w : Value}
    {alternative? alternative?' : Option Value} (hcons : consequence.Like rel consequence')
    (halt : Option.Rel (Value.Like rel) alternative? alternative?') (hv : v.Like rel w) :
    Follows setting T active rel deeper Value.Like s s'
      (branch eval scope consequence alternative? v)
      (branch eval' scope' consequence' alternative?' w) := by
  simp only [branch, hv.isTruthy]
  split
  · exact he hT ha hs hcons
  · cases halt with
    | none => exact .pure (.refl_of_isCode Value.isCode_nil)
    | some halt => exact he hT ha hs halt

theorem growing_required (hc : Confined setting eval) (scope : FrameId) (v : Value) :
    Growing setting (required setting eval scope v) := by
  unfold required
  split
  · exact fun _ => .refl _
  · exact growing_bind (growing_require hc _ _) fun _ => growing_pure _

theorem required_follows (hk : setting.keepsModules = true)
    (hev : Repeatable setting k) (hT : Talks setting T) (hs : rel scope scope')
    {v w : Value} (hv : v.Like rel w) :
    Follows setting T active rel (k < j) Value.Like s s'
      (required setting (Evaluation.eval setting k) scope v)
      (required setting.forgetful (Evaluation.eval setting.forgetful j) scope' w) := by
  simp only [required, specifier?_eq hv]
  split
  · exact .of_run_eq rfl rfl (.of_error_eq (hv.wrongType _ _))
  · refine (require_follows hk hev hT hs _ j).bind hk
      (growing_require (eval_evolves setting k) _ _) (fun m => growing_pure _) ?_
    rintro rel' ⟨name, frame⟩ ⟨name', frame'⟩ t t' - ⟨hname, hframe⟩
    obtain rfl : name = name' := hname
    exact .pure (.module hframe)

theorem evalForm_follows (hk : setting.keepsModules = true) (hc : Confined setting eval)
    (he : Faithful setting deeper eval eval')
    (hev : Repeatable setting k) (hd : k < j → deeper) (hT : Talks setting T)
    (ha : active scope) (hs : rel scope scope') (form : SpecialForm) {args args' : List Value}
    (hargs : List.Forall₂ (Value.Like rel) args args') :
    Follows setting T active rel deeper Value.Like s s'
      (evalForm setting eval (Evaluation.eval setting k) scope form args)
      (evalForm setting.forgetful eval' (Evaluation.eval setting.forgetful j) scope' form args') := by
  cases formShape form args with
  | quote v =>
    rcases hargs with _ | ⟨hv, _ | _⟩
    exact .pure hv
  | malformed hm =>
    have hrun' := run_malformed_form setting.forgetful eval' (Evaluation.eval setting.forgetful j)
      scope' s' (hargs.length_eq ▸ hm)
    rw [← hargs.length_eq] at hrun'
    exact .of_run_eq (run_malformed_form _ _ _ _ _ hm) hrun' (.error _)
  | lambda params body =>
    rcases hargs with _ | ⟨hp, _ | ⟨hb, _ | _⟩⟩
    exact .of_run_eq (run_lambda_form _ _ _ _ _ _ _) (run_lambda_form _ _ _ _ _ _ _)
      (lambdaResult_alike hs hp hb)
  | define target expr =>
    rcases hargs with _ | ⟨htarget, _ | ⟨hexpr, _ | _⟩⟩
    have hsame : boundName setting.writingLimit target =
        boundName setting.forgetful.writingLimit _ := boundName_eq htarget
    rcases hname : boundName setting.writingLimit target with e | name
    · refine .of_run_eq ((run_define_form _ _ _ _ _ _ _).trans ?_)
        ((run_define_form _ _ _ _ _ _ _).trans ?_) (.error e)
      · rw [hname]
      · rw [← hsame, hname]
    · refine ((he hT ha hs hexpr).bind hk (growing_of_confined hc _ _)
        (fun v _ => .refl _) fun rel' v w t t' hmore hv =>
          binding_follows ha (hmore _ _ hs) name hv).congr ?_ ?_
      · exact run_define_form_bind _ _ _ _ _ hname _
      · exact run_define_form_bind _ _ _ _ _ (hsame.symm.trans hname) _
  | conditional condition consequence alternative? =>
    rcases hargs with _ | ⟨hcond, _ | ⟨hcons, hrest⟩⟩
    obtain ⟨alternative?', rfl, halt⟩ := optionRel_of_forall₂_toList hrest
    exact ((he hT ha hs hcond).bind hk (growing_of_confined hc _ _) (growing_branch hc _ _ _)
      fun rel' v w t t' hmore hv => branch_follows he hT ha (hmore _ _ hs) (hcons.mono hmore)
        (optionRel_mono (fun _ _ h => h.mono hmore) halt) hv).congr
      (run_conditional_form_bind _ _ _ _ _ _ _ _) (run_conditional_form_bind _ _ _ _ _ _ _ _)
  | require expr =>
    rcases hargs with _ | ⟨hexpr, _ | _⟩
    exact ((he hT ha hs hexpr).bind hk (growing_of_confined hc _ _)
      (growing_required (eval_evolves setting k) _) fun rel' v w t t' hmore hv =>
        (required_follows hk hev hT (hmore _ _ hs) hv).mono_deeper hd).congr
      (run_require_form_bind _ _ _ _ _ _) (run_require_form_bind _ _ _ _ _ _)

end Forms

/-! ## The evaluator -/

theorem evalHead_follows (he : Faithful setting deeper eval eval') (hT : Talks setting T)
    (ha : active scope) (hs : rel scope scope') {head head' : Value} (hh : head.Like rel head') :
    Follows setting T active rel deeper Value.Like s s' (evalHead eval scope head)
      (evalHead eval' scope' head') := by
  intro hm
  have hhead := hh
  cases hh with
  | atom _ _ =>
    cases head with
    | sym name =>
      exact Follows.of_run_eq (run_evalHead_sym _ _ _ _) (run_evalHead_sym _ _ _ _)
        (Scope.resolveHead_alike hm.copies.alike hs name) hm
    | _ => exact he hT ha hs hhead hm
  | _ => exact he hT ha hs hhead hm

section Calls
variable {below below' : Nat → Evaluator}

theorem evalCall_follows (hk : setting.keepsModules = true)
    (hc : ∀ i, Confined setting (below i)) (he : ∀ i, Faithful setting deeper (below i) (below' i))
    (hT : Talks setting T) (ha : active scope) (hs : rel scope scope') {head head' : Value}
    {args args' : List Value} (hh : head.Like rel head')
    (hargs : List.Forall₂ (Value.Like rel) args args') :
    Follows setting T active rel deeper Value.Like s s' (evalCall limit below scope head args)
      (evalCall limit below' scope' head' args') := by
  have hgrows (f : Value) :
      Growing setting
        (evalEach (below 1) scope args >>= fun vs => call limit (below 2) f vs) :=
    growing_bind (growing_evalEach (hc 1) _ _) fun vs => growing_call (hc 2) _ _
  refine (evalHead_follows (he 0) hT ha hs hh).bind hk
    (fun s => (evalHead_evolves (hc 0) scope head s).registry) hgrows ?_
  intro rel' f f' t t' hmore hf
  refine (evalEach_follows hk (hc 1) (he 1) hT ha (hmore _ _ hs)
    (hargs.imp fun _ _ h => h.mono hmore)).bind hk (growing_evalEach (hc 1) _ _)
    (fun vs => growing_call (hc 2) _ _) ?_
  intro rel'' vs ws u u' hmore' hvs
  exact call_follows (he 2) hT (hf.mono hmore') hvs

theorem step_follows (hk : setting.keepsModules = true) (hc : ∀ i, Confined setting (below i))
    (he : ∀ i, Faithful setting deeper (below i) (below' i)) {k j : Nat}
    (hmodule : below 4 = Evaluation.eval setting k)
    (hmodule' : below' 4 = Evaluation.eval setting.forgetful j)
    (hev : Repeatable setting k) (hd : k < j → deeper) :
    Faithful setting deeper (step setting below) (step setting.forgetful below') := by
  intro T active rel s s' scope scope' expr expr' hT ha hs hexpr hm
  cases exprShape expr with
  | symbol name =>
    cases hexpr with
    | atom _ _ =>
      exact Follows.of_run_eq (run_step_sym _ _ _ _ _) (run_step_sym _ _ _ _ _)
        (Scope.resolve_alike hm.copies.alike hs name) hm
  | constant hconst =>
    have hconst' := (isConstant_eq hexpr).symm.trans hconst
    rw [step_constant _ _ _ hconst, step_constant _ _ _ hconst']
    exact Follows.pure hexpr hm
  | @form word form hform args =>
    cases hexpr with
    | atom _ hl => exact absurd rfl (hl _)
    | list hl h =>
      rcases Value.Like.list_iff.1 (.list hl h) with _ | ⟨hhead, hargs⟩
      cases hhead with
      | atom _ _ =>
        rw [step_form _ _ _ hform, step_form _ _ _ hform, hmodule, hmodule']
        exact evalForm_follows hk (hc 1) (he 1) hev hd hT ha hs form hargs hm
  | @call head hord args =>
    cases hexpr with
    | atom _ hl => exact absurd rfl (hl _)
    | list hl h =>
      rcases Value.Like.list_iff.1 (.list hl h) with _ | ⟨hhead, hargs⟩
      rw [step_call _ _ _ hord, step_call _ _ _ ((isOrdinary_iff hhead).1 hord)]
      exact evalCall_follows hk hc he hT ha hs hhead hargs hm

end Calls

/-- **An evaluation that keeps no module does what one does that keeps them, up to copies.** -/
theorem eval_follows (hk : setting.keepsModules = true) (levels levels' : Nat) :
    Faithful setting (levels < levels') (Evaluation.eval setting levels)
      (Evaluation.eval setting.forgetful levels') := by
  induction levels using Nat.strongRecOn generalizing levels' with
  | ind levels ih =>
    cases levels' with
    | zero => exact fun _ _ _ _ _ _ => .cut
    | succ levels' =>
      cases levels with
      | zero => exact fun _ _ _ _ _ _ => .deeper (Nat.succ_pos _)
      | succ levels =>
        have hlt (i : Nat) : levels - i < levels + 1 := Nat.lt_succ_of_le (Nat.sub_le _ _)
        have hdeeper (i : Nat) : levels - i < levels' - i → levels + 1 < levels' + 1 := by omega
        rw [eval_succ, eval_succ]
        refine @step_follows setting _ _ (fun i => Evaluation.eval setting.forgetful (levels' - i)) hk
          (fun i => eval_evolves setting _) (fun i => ?_) _ _ rfl rfl (ih (levels - 4) (hlt 4))
          (hdeeper 4)
        intro T active rel s s' scope scope' expr expr' hT ha hs hexpr
        exact (ih (levels - i) (hlt i) (levels' - i) hT ha hs hexpr).mono_deeper (hdeeper i)

end Evaluation

end SmallLisp