import SmallLisp.Interpreter

/-! # Running actions

An action turns a state into a result and a state.  This module says, once for every part of the
evaluator, which result and which state: one equation for each way in which actions and the parts
of the evaluator are put together.  Everything that is proved about whole evaluations goes through
these equations, so the parts themselves are opened here and nowhere else.

A load changes the state in three steps that get names of their own: the path counts as being
loaded and a fresh prelude is there (`Store.opening`), the path counts as being loaded no longer
(`Store.closing`), the module is kept (`Store.keeping`).
-/
namespace SmallLisp

/-- The state in which the expressions of a module begin to be evaluated. -/
def Store.opening (path : Path) (s : Store) : Store :=
  { s with heap := Prelude.install s.heap, registry := s.registry.beginLoad path }

/-- The state after the expressions of a module were evaluated, whatever came of them. -/
def Store.closing (path : Path) (s : Store) : Store :=
  { s with registry := s.registry.endLoad path }

/-- The state in which a loaded module is kept, if modules are kept at all. -/
def Store.keeping (setting : Setting) (path : Path) (m : Module) (s : Store) : Store :=
  if setting.keepsModules then { s with registry := s.registry.insert path m } else s

theorem Store.heap_keeping (setting : Setting) (path : Path) (m : Module) (s : Store) :
    (s.keeping setting path m).heap = s.heap := by
  rw [Store.keeping]
  split <;> rfl

theorem Store.loading_keeping (setting : Setting) (path : Path) (m : Module) (s : Store) :
    (s.keeping setting path m).registry.loading = s.registry.loading := by
  rw [Store.keeping]
  split <;> rfl

/-- The state in which a new frame is there. -/
def Store.entering (outer : FrameId) (bindings : Table String Value) (s : Store) : Store :=
  { s with heap := s.heap.alloc (some outer) bindings }

/-- The state in which a frame binds a name. -/
def Store.defining (frame : FrameId) (name : String) (value : Value) (s : Store) : Store :=
  { s with heap := s.heap.define frame name value }

/-- A fault as it leaves a module: errors of the language are wrapped, other faults pass. -/
def Fault.leaving (path : Path) : Fault → Fault
  | .lisp e => .lisp (.failedModule path e)
  | fault => fault

/-- The fault inside a module of which the rest cannot be read. -/
def ReadingStop.inModule (path : Path) : ReadingStop → Fault
  | .malformed e => .lisp (.malformedModule path e)
  | .tooDeep => .tooDeep

/-- The module kept under a path, if modules are kept at all. -/
def Store.kept? (setting : Setting) (path : Path) (s : Store) : Option Module :=
  if setting.keepsModules then s.registry.get? path else none

/-- Whether a value stands for itself when it is evaluated. -/
def Value.isConstant : Value → Bool
  | sym _ | list (_ :: _) => false
  | _ => true

/-- Whether a special form takes so many arguments. -/
def SpecialForm.accepts : SpecialForm → Nat → Bool
  | quote, n | require, n => n == 1
  | define, n | lambda, n => n == 2
  | conditional, n => n == 2 || n == 3

/-! ## Primitive actions -/

namespace Action
variable {α β : Type}

/-- An action and what follows from its value: a fault of the first ends both. -/
theorem run_bind (x : Action α) (f : α → Action β) (s : Store) :
    (x >>= f).run s =
      match x.run s with
      | (.ok a, t) => (f a).run t
      | (.error e, t) => (.error e, t) := by
  change ExceptT.bindCont f (x.run s).1 (x.run s).2 = _
  rcases x.run s with ⟨_ | _, t⟩ <;> rfl

theorem run_pure (a : α) (s : Store) : (pure a : Action α).run s = (.ok a, s) := rfl

theorem run_throw (e : Fault) (s : Store) : (throw e : Action α).run s = (.error e, s) := rfl

theorem run_get (s : Store) : (get : Action Store).run s = (.ok s, s) := rfl

theorem run_ofExcept (r : Except Fault α) (s : Store) : (ofExcept r).run s = (r, s) := by
  cases r <;> rfl

theorem discard_eq (x : Action α) : discard x = x >>= fun _ => pure () := by
  rw [Functor.discard, map_const, Function.comp_apply, map_eq_pure_bind]

theorem run_discard (x : Action α) (s : Store) :
    (discard x).run s =
      match x.run s with
      | (.ok _, t) => (.ok (), t)
      | (.error e, t) => (.error e, t) := by
  rw [discard_eq, run_bind]
  rcases x.run s with ⟨_ | _, t⟩ <;> rfl

theorem run_ofChecked (r : Except LispError α) (s : Store) :
    (ofChecked r).run s = (r.mapError .lisp, s) :=
  run_ofExcept _ s

theorem run_newFrame (outer : FrameId) (bindings : Table String Value) (s : Store) :
    (newFrame (some outer) bindings).run s = (.ok s.heap.size, s.entering outer bindings) := rfl

theorem run_newPrelude (s : Store) :
    newPrelude.run s =
      (.ok (Prelude.rootOf s.heap), { s with heap := Prelude.install s.heap }) := rfl

theorem run_whileLoading (path : Path) (x : Action α) (s : Store) :
    (whileLoading path x).run s =
      ((x.run { s with registry := s.registry.beginLoad path }).1,
        (x.run { s with registry := s.registry.beginLoad path }).2.closing path) := rfl

theorem run_attempt (x : Action α) (s : Store) :
    (attempt x).run s = (.ok (x.run s).1, (x.run s).2) := rfl

theorem run_within (path : Path) (x : Action α) (s : Store) :
    (within path x).run s =
      match x.run s with
      | (.ok a, t) => (.ok a, t)
      | (.error e, t) => (.error (e.leaving path), t) := by
  change within path x s = _
  rw [within]
  rcases x.run s with ⟨(_ | _ | _ | _) | _, t⟩ <;> rfl

end Action

/-! ## The parts of the evaluator -/

namespace Evaluation
open SmallLisp.Action

variable (setting : Setting) (limit : Nat) (eval evalModule : Evaluator) (scope : FrameId)
  (s : Store)

/-- A log function gives back the line that it prints, unless an argument has no text. -/
theorem run_log (g : LogFunction) (args : List Value) :
    (∃ line out, ∀ s : Store, (callNative limit (.log g) args).run s =
      (.ok (.str line), { s with printed := [out] ++ s.printed })) ∨
    ∀ s : Store, (callNative limit (.log g) args).run s = (.error .tooDeep, s) := by
  by_cases hw : args.all (Value.isWritable limit) = true
  · exact .inl ⟨_, _, fun s => by simp only [callNative, hw]; rfl⟩
  · exact .inr fun s => by simp only [callNative, hw]; rfl

/-- A native function answers from its arguments alone; of the state it changes at most what was
printed. -/
theorem run_callNative (f : Native) (args : List Value) :
    ∃ result out, ∀ s : Store,
      (callNative limit f args).run s = (result, { s with printed := out ++ s.printed }) := by
  cases f with
  | arithmetic g => exact ⟨g.apply limit args, [], fun s => run_ofExcept _ s⟩
  | string g => exact ⟨g.apply limit args, [], fun s => run_ofExcept _ s⟩
  | list g => exact ⟨g.apply limit args, [], fun s => run_ofExcept _ s⟩
  | idle name => exact ⟨.ok .nil, [], fun s => rfl⟩
  | log g =>
    rcases run_log limit g args with ⟨line, out, h⟩ | h
    · exact ⟨_, [out], h⟩
    · exact ⟨.error .tooDeep, [], h⟩

theorem run_call_fn (params : List String) (body : Value) (args : List Value) :
    (call limit eval (.fn params body scope) args).run s =
      if args.length = params.length then
        (eval body s.heap.size).run (s.entering scope (Table.empty.insertAll (params.zip args)))
      else (.error (.lisp (.wrongArity (.function params.length) args.length)), s) := by
  by_cases h : args.length = params.length
  · simp [call, h, run_bind, run_newFrame]
  · simp [call, h, run_throw]

theorem run_evalEach_cons (expr : Value) (rest : List Value) :
    (evalEach eval scope (expr :: rest)).run s =
      match (eval expr scope).run s with
      | (.error e, t) => (.error e, t)
      | (.ok v, t) =>
        match (evalEach eval scope rest).run t with
        | (.error e, u) => (.error e, u)
        | (.ok vs, u) => (.ok (v :: vs), u) := by
  rw [evalEach, run_bind]
  rcases (eval expr scope).run s with ⟨_ | v, t⟩
  · rfl
  · simp only [run_bind]
    rcases (evalEach eval scope rest).run t with ⟨_ | vs, u⟩ <;> rfl

theorem run_evalForms_cons (last form : Value) (rest : List Value) :
    (evalForms eval scope last (form :: rest)).run s =
      match (eval form scope).run s with
      | (.error e, t) => (.error e, t)
      | (.ok v, t) => (evalForms eval scope v rest).run t := by
  rw [evalForms, run_bind]
  rcases (eval form scope).run s with ⟨_ | v, t⟩ <;> rfl

theorem run_evalForms_append (last : Value) (forms more : List Value) :
    (evalForms eval scope last (forms ++ more)).run s =
      match (evalForms eval scope last forms).run s with
      | (.error e, t) => (.error e, t)
      | (.ok v, t) => (evalForms eval scope v more).run t := by
  induction forms generalizing last s with
  | nil => rfl
  | cons form rest ih =>
    rw [List.cons_append, run_evalForms_cons, run_evalForms_cons]
    rcases (eval form scope).run s with ⟨_ | v, t⟩
    · rfl
    · exact ih t v

/-- The value of expressions is that of the last of them, whatever there was before. -/
theorem run_evalForms_last (last : Value) (forms : List Value) :
    (evalForms eval scope last forms).run s =
      match (evalForms eval scope .nil forms).run s with
      | (.error e, t) => (.error e, t)
      | (.ok v, t) => (.ok (if forms.isEmpty then last else v), t) := by
  cases forms with
  | nil => rfl
  | cons form rest =>
    rw [run_evalForms_cons, run_evalForms_cons]
    rcases (eval form scope).run s with ⟨_ | v, t⟩
    · rfl
    · simp only
      rcases (evalForms eval scope v rest).run t with ⟨_ | w, u⟩ <;> rfl

/-- To give expressions back as they are changes nothing. -/
theorem run_evalForms_echo (last : Value) (forms : List Value) :
    (evalForms echo scope last forms).run s = (.ok (forms.getLast?.getD last), s) := by
  induction forms generalizing last with
  | nil => rfl
  | cons form rest ih =>
    rw [List.getLast?_cons]
    exact ih form

theorem run_runScript (script : Script) :
    (runScript eval scope script).run s =
      match (evalForms eval scope .nil script.forms).run s with
      | (.error e, t) => (.error e, t)
      | (.ok v, t) =>
        match script.stop? with
        | none => (.ok v, t)
        | some stop => (.error (stopFault stop), t) := by
  rw [runScript, run_bind]
  rcases (evalForms eval scope .nil script.forms).run s with ⟨_ | v, t⟩
  · rfl
  · cases script.stop? <;> rfl

theorem run_runModule (path : Path) (script : Script) :
    (runModule eval path scope script).run s =
      match (evalForms eval scope .nil script.forms).run s with
      | (.error e, t) => (.error (e.leaving path), t)
      | (.ok _, t) =>
        match script.stop? with
        | none => (.ok (), t)
        | some stop => (.error ((stop.inModule path).leaving path), t) := by
  rw [runModule, run_within, run_bind, run_discard]
  rcases (evalForms eval scope .nil script.forms).run s with ⟨_ | v, t⟩
  · rfl
  · rcases script.stop? with _ | _ | _ <;> rfl

/-- The module at a path, in terms of what its expressions do in the state in which they begin. -/
theorem run_load (path : Path) :
    (load setting eval path).run s =
      match s.kept? setting path with
      | some m => (.ok m, s)
      | none =>
        if s.registry.isLoading path then
          (.error (.lisp (.failedModule path (.circularRequire path))), s)
        else
          match setting.files.readText setting.here path with
          | .error e => (.error (pathFault path e), s)
          | .ok text =>
            match (runModule eval path (Prelude.rootOf s.heap)
              (Script.ofText setting.nestingLimit (Text.trimStart text))).run (s.opening path) with
            | (.error e, t) => (.error e, t.closing path)
            | (.ok _, t) =>
              (.ok ⟨path.text, Prelude.rootOf s.heap⟩,
                (t.closing path).keeping setting path ⟨path.text, Prelude.rootOf s.heap⟩) := by
  rw [load, run_bind, run_get]
  simp only [Store.kept?]
  cases (if setting.keepsModules = true then s.registry.get? path else none) with
  | some m => rfl
  | none =>
    simp only
    by_cases hl : s.registry.isLoading path = true
    · simp [hl, run_throw]
    · simp only [hl, Bool.false_eq_true, if_false]
      cases setting.files.readText setting.here path with
      | error e => rfl
      | ok text =>
        simp only [run_bind, run_newPrelude, run_whileLoading]
        rcases hm : (runModule eval path (Prelude.rootOf s.heap)
          (Script.ofText setting.nestingLimit (Text.trimStart text))).run (s.opening path)
          with ⟨_ | _, t⟩
        all_goals
          simp only [Store.opening] at hm
          simp only [hm]
        by_cases hk : setting.keepsModules = true <;> simp only [hk, Store.keeping] <;> rfl

/-- The expressions in the text of a file, evaluated in a scope. -/
def runFile (path : Path) (text : List Char) : Action Unit :=
  runModule eval path scope (Script.ofText setting.nestingLimit (Text.trimStart text))

section Loads
variable {setting eval s} {path : Path}

theorem run_load_kept {m : Module} (hm : s.kept? setting path = some m) :
    (load setting eval path).run s = (.ok m, s) := by
  rw [run_load, hm]

theorem run_load_circular (hm : s.kept? setting path = none)
    (hl : s.registry.isLoading path = true) :
    (load setting eval path).run s =
      (.error (.lisp (.failedModule path (.circularRequire path))), s) := by
  rw [run_load, hm]
  simp only [hl, if_true]

theorem run_load_unreadable {e : PathFault} (hm : s.kept? setting path = none)
    (hl : s.registry.isLoading path = false)
    (hread : setting.files.readText setting.here path = .error e) :
    (load setting eval path).run s = (.error (pathFault path e), s) := by
  rw [run_load, hm]
  simp only [hl, hread, Bool.false_eq_true, if_false]

theorem run_load_file {text : List Char} (hm : s.kept? setting path = none)
    (hl : s.registry.isLoading path = false)
    (hread : setting.files.readText setting.here path = .ok text) :
    (load setting eval path).run s =
      match (runFile setting eval (Prelude.rootOf s.heap) path text).run (s.opening path) with
      | (.error e, t) => (.error e, t.closing path)
      | (.ok _, t) =>
        (.ok ⟨path.text, Prelude.rootOf s.heap⟩,
          (t.closing path).keeping setting path ⟨path.text, Prelude.rootOf s.heap⟩) := by
  have hrun := run_load setting eval s path
  simp only [hm, hl, hread, Bool.false_eq_true, if_false] at hrun
  exact hrun

end Loads

/-- The module that a specifier means. -/
theorem run_require (specifier : String) :
    (require setting eval scope specifier).run s =
      match (s.heap.get? scope specifier).bind Value.module? with
      | some m => (.ok m, s)
      | none =>
        match modulePath setting specifier with
        | .ok path => (load setting eval path).run s
        | .error fault => (.error fault, s) := by
  rw [require, run_bind, run_get]
  simp only
  cases (s.heap.get? scope specifier).bind Value.module? with
  | some m => rfl
  | none => cases modulePath setting specifier <;> rfl

/-! ### Special forms -/

/-- The name that a definition binds, or why it binds none. -/
def boundName (limit : Nat) : Value → Except Fault String
  | .sym name => if SpecialForm.isKeyword name then .error (.lisp (.reservedKeyword name)) else .ok name
  | v => .error (.wrongType limit .symbol v)

/-- Only a symbol that is not reserved can be bound, and its name is the one bound. -/
theorem of_boundName {limit : Nat} {target : Value} {name : String}
    (h : boundName limit target = .ok name) :
    target = .sym name ∧ SpecialForm.isKeyword name = false := by
  cases target with
  | sym n =>
    rw [boundName] at h
    split at h
    · cases h
    next hfree =>
      cases h
      exact ⟨rfl, by simpa using hfree⟩
  | _ => cases h

theorem run_define_form (target expr : Value) :
    (evalForm setting eval evalModule scope .define [target, expr]).run s =
      match boundName setting.writingLimit target with
      | .error e => (.error e, s)
      | .ok name =>
        match (eval expr scope).run s with
        | (.error e, t) => (.error e, t)
        | (.ok v, t) => (.ok v, t.defining scope name v) := by
  cases target with
  | sym name =>
    by_cases hk : SpecialForm.isKeyword name = true
    · simp [evalForm, boundName, hk, run_throw]
    · simp only [evalForm, boundName, hk, Bool.false_eq_true, if_false]
      rw [run_bind]
      rcases (eval expr scope).run s with ⟨_ | v, t⟩ <;> rfl
  | _ => rfl

/-- What a function form gives, whatever the state. -/
def lambdaResult (limit : Nat) (scope : FrameId) (params body : Value) : Except Fault Value :=
  match params with
  | .list ps => (parameters limit ps).map fun names => .fn names body scope
  | v => .error (.wrongType limit .parameterList v)

/-- What a function form gives is a function with its parameters, body and scope. -/
theorem exists_of_lambdaResult {limit : Nat} {scope : FrameId} {params body v : Value}
    (h : lambdaResult limit scope params body = .ok v) :
    ∃ ps names, params = .list ps ∧ parameters limit ps = .ok names ∧ v = .fn names body scope := by
  cases params with
  | list ps =>
    rw [lambdaResult] at h
    rcases hp : parameters limit ps with e | names
    · rw [hp] at h
      cases h
    · rw [hp] at h
      cases h
      exact ⟨ps, names, rfl, hp, rfl⟩
  | _ => cases h

theorem run_lambda_form (params body : Value) :
    (evalForm setting eval evalModule scope .lambda [params, body]).run s =
      (lambdaResult setting.writingLimit scope params body, s) := by
  cases params with
  | list ps =>
    simp only [evalForm, run_bind, run_ofExcept, lambdaResult]
    cases parameters setting.writingLimit ps <;> rfl
  | _ => rfl

theorem run_conditional_form (condition consequence : Value) (alternative? : Option Value) :
    (evalForm setting eval evalModule scope .conditional
        (condition :: consequence :: alternative?.toList)).run s =
      match (eval condition scope).run s with
      | (.error e, t) => (.error e, t)
      | (.ok v, t) =>
        if v.isTruthy then (eval consequence scope).run t
        else
          match alternative? with
          | some alternative => (eval alternative scope).run t
          | none => (.ok .nil, t) := by
  cases alternative? with
  | none =>
    simp only [Option.toList, evalForm, run_bind]
    rcases (eval condition scope).run s with ⟨_ | v, t⟩
    · rfl
    · simp only
      split <;> rfl
  | some alternative =>
    simp only [Option.toList, evalForm, run_bind]
    rcases (eval condition scope).run s with ⟨_ | v, t⟩
    · rfl
    · simp only
      split <;> rfl

/-- The name of the module that a value asks for. -/
def specifier? : Value → Option String
  | .sym name | .str name => some name
  | _ => none

theorem run_require_form (expr : Value) :
    (evalForm setting eval evalModule scope .require [expr]).run s =
      match (eval expr scope).run s with
      | (.error e, t) => (.error e, t)
      | (.ok v, t) =>
        match specifier? v with
        | none => (.error (.wrongType setting.writingLimit .modulePath v), t)
        | some name =>
          match (require setting evalModule scope name).run t with
          | (.error e, u) => (.error e, u)
          | (.ok m, u) => (.ok (.module m), u) := by
  simp only [evalForm, run_bind]
  rcases (eval expr scope).run s with ⟨_ | v, t⟩
  · rfl
  · cases v with
    | sym name | str name =>
      simp only [specifier?, run_bind]
      rcases (require setting evalModule scope name).run t with ⟨_ | m, u⟩ <;> rfl
    | _ => rfl

theorem run_malformed_form {form : SpecialForm} {args : List Value}
    (h : form.accepts args.length = false) :
    (evalForm setting eval evalModule scope form args).run s =
      (.error (.lisp (.wrongArity (.form form) args.length)), s) := by
  unfold evalForm
  -- the six patterns take a number of arguments that the form accepts; the last one refuses
  split
  case h_7 => rfl
  all_goals simp [SpecialForm.accepts] at h

/-- The shapes that the arguments of a special form can have. -/
inductive FormShape : SpecialForm → List Value → Prop
  | quote (v : Value) : FormShape .quote [v]
  | define (target expr : Value) : FormShape .define [target, expr]
  | lambda (params body : Value) : FormShape .lambda [params, body]
  | conditional (condition consequence : Value) (alternative? : Option Value) :
      FormShape .conditional (condition :: consequence :: alternative?.toList)
  | require (expr : Value) : FormShape .require [expr]
  | malformed {form : SpecialForm} {args : List Value} (h : form.accepts args.length = false) :
      FormShape form args

theorem formShape (form : SpecialForm) (args : List Value) : FormShape form args := by
  cases form with
  | define =>
    rcases args with _ | ⟨a, _ | ⟨b, _ | ⟨c, rest⟩⟩⟩
    · exact .malformed rfl
    · exact .malformed rfl
    · exact .define a b
    · exact .malformed (by simp [SpecialForm.accepts])
  | quote =>
    rcases args with _ | ⟨a, _ | ⟨b, rest⟩⟩
    · exact .malformed rfl
    · exact .quote a
    · exact .malformed (by simp [SpecialForm.accepts])
  | lambda =>
    rcases args with _ | ⟨a, _ | ⟨b, _ | ⟨c, rest⟩⟩⟩
    · exact .malformed rfl
    · exact .malformed rfl
    · exact .lambda a b
    · exact .malformed (by simp [SpecialForm.accepts])
  | conditional =>
    rcases args with _ | ⟨a, _ | ⟨b, _ | ⟨c, _ | ⟨d, rest⟩⟩⟩⟩
    · exact .malformed rfl
    · exact .malformed rfl
    · exact .conditional a b none
    · exact .conditional a b (some c)
    · exact .malformed (by simp [SpecialForm.accepts])
  | require =>
    rcases args with _ | ⟨a, _ | ⟨b, rest⟩⟩
    · exact .malformed rfl
    · exact .require a
    · exact .malformed (by simp [SpecialForm.accepts])

/-! ### Calls and steps -/

theorem run_evalHead_sym (name : String) :
    (evalHead eval scope (.sym name)).run s =
      ((Scope.resolveHead s.heap scope name).mapError .lisp, s) := by
  rw [evalHead, run_bind, run_get]
  exact run_ofChecked _ s

theorem run_evalCall (below : Nat → Evaluator) (head : Value) (args : List Value) :
    (evalCall limit below scope head args).run s =
      match (evalHead (below 0) scope head).run s with
      | (.error e, t) => (.error e, t)
      | (.ok f, t) =>
        match (evalEach (below 1) scope args).run t with
        | (.error e, u) => (.error e, u)
        | (.ok vs, u) => (call limit (below 2) f vs).run u := by
  rw [evalCall, run_bind]
  rcases (evalHead (below 0) scope head).run s with ⟨_ | f, t⟩
  · rfl
  · simp only [run_bind]
    rcases (evalEach (below 1) scope args).run t with ⟨_ | vs, u⟩ <;> rfl

theorem run_step_sym (below : Nat → Evaluator) (name : String) :
    (step setting below (.sym name) scope).run s =
      ((Scope.resolve s.heap scope name).mapError .lisp, s) := by
  rw [step, run_bind, run_get]
  exact run_ofChecked _ s

theorem step_form (below : Nat → Evaluator) {word : String} {form : SpecialForm}
    (h : SpecialForm.ofKeyword? word = some form) (args : List Value) :
    step setting below (.list (.sym word :: args)) scope =
      evalForm setting (below 1) (below 4) scope form args := by
  simp only [step, h]

/-- A value is no keyword. -/
def IsOrdinary (head : Value) : Prop :=
  ∀ word, head = .sym word → SpecialForm.isKeyword word = false

theorem step_call (below : Nat → Evaluator) {head : Value} (h : IsOrdinary head)
    (args : List Value) :
    step setting below (.list (head :: args)) scope =
      evalCall setting.writingLimit below scope head args := by
  cases head with
  | sym word =>
    have hw : SpecialForm.ofKeyword? word = none := by
      have := h word rfl
      rwa [SpecialForm.isKeyword, Option.isSome_eq_false_iff, Option.isNone_iff_eq_none] at this
    simp only [step, hw]
  | _ => rfl

/-- What an expression is to the evaluator. -/
inductive ExprShape : Value → Prop
  | symbol (name : String) : ExprShape (.sym name)
  | form {word : String} {form : SpecialForm} (h : SpecialForm.ofKeyword? word = some form)
      (args : List Value) : ExprShape (.list (.sym word :: args))
  | call {head : Value} (h : IsOrdinary head) (args : List Value) : ExprShape (.list (head :: args))
  | constant {v : Value} (h : v.isConstant = true) : ExprShape v

theorem exprShape (expr : Value) : ExprShape expr := by
  cases expr with
  | sym name => exact .symbol name
  | list vs =>
    rcases vs with _ | ⟨head, args⟩
    · exact .constant rfl
    · by_cases h : IsOrdinary head
      · exact .call h args
      · simp only [IsOrdinary, Classical.not_forall, Bool.not_eq_false] at h
        obtain ⟨word, rfl, hw⟩ := h
        obtain ⟨form, hf⟩ := Option.isSome_iff_exists.1 hw
        exact .form hf args
  | _ => exact .constant rfl

theorem step_constant (below : Nat → Evaluator) {v : Value} (h : v.isConstant = true) :
    step setting below v scope = pure v := by
  unfold step
  split
  · cases h
  · cases h
  · cases h
  · rfl

end Evaluation

end SmallLisp
