import SmallLisp.Proofs.FrozenModules
import SmallLisp.Proofs.Lockstep
import SmallLisp.Proofs.ReadingLoops

/-! # Modules are isolated from their users

What a module refers to, in its bindings, in the scopes of its functions, in the frames around them
and in the modules that it requires, never leads to the outermost scope of an interpreter, nor to a
frame that a call made while no module was being loaded.  For the frames of modules whose loads are
over refer to one another alone (`Process.Settled`, `Process.closed`), if everything that is
evaluated was read from a text.

So a function of a module is the same function for good.  Whatever the interpreters evaluate
between two moments, and whichever names of the prelude they bind to something else, a call of it
with the same arguments ends alike at both: the two calls are machines in lockstep that start from
the same settled frames (`Process.Reachable.module_isolated`).
-/
namespace SmallLisp
open Evaluation

/-- From a frame one gets to another by way of the frames around it and of whatever its bindings
refer to. -/
inductive Heap.Reaches (h : Heap) (start : FrameId) : FrameId → Prop
  | self : Reaches h start start
  | outer {id outer : FrameId} :
      Reaches h start id → h.outer? id = some outer → Reaches h start outer
  | bound {id next : FrameId} {name : String} {v : Value} :
      Reaches h start id → h.own? id name = some v → v.RefersTo next → Reaches h start next

variable {inside : FrameId → Prop}

theorem Value.Fits.inside_of_refersTo {v : Value} {id : FrameId} (h : v.Fits inside inside)
    (hr : v.RefersTo id) : inside id := by
  obtain ⟨u, hu, hs⟩ := hr
  cases u with
  | fn params body scope =>
    cases hs
    exact h.functions params body _ hu
  | module m =>
    cases hs
    exact h.modules m hu
  | _ => cases hs

/-- Nothing leads out of a closed part of a heap. -/
theorem Heap.Closed.inside_of_reaches {h : Heap} {start id : FrameId} (H : h.Closed inside inside)
    (hs : inside start) (hr : h.Reaches start id) : inside id := by
  induction hr with
  | self => exact hs
  | outer _ ho ih =>
    obtain ⟨f, hf, hfo⟩ := Option.bind_eq_some_iff.1 ho
    exact (H _ f ih hf).outer _ hfo
  | bound _ hv hnext ih => exact (H.own?_fits ih hv).inside_of_refersTo hnext

namespace Process

variable {P Q R : Process} {path : Path} {m : Module}

/-! ## Settled frames -/

/-- A frame that counts as settled, in one way or another of putting everything in order. -/
def Settled (P : Process) (id : FrameId) : Prop :=
  ∃ settled, P.Orderly True settled ∧ settled id

/-- Only texts are evaluated. -/
theorem isCode_of_text : True → ∀ v : Value, v.IsCode → v.IsCode := fun _ _ h => h

theorem closed (P : Process) : P.store.heap.Closed P.Settled P.Settled := by
  rintro id f ⟨settled, ho, hid⟩ hf
  have hstays : ∀ id, settled id → P.Settled id := fun _ hid => ⟨settled, ho, hid⟩
  exact (ho.machine.ready.core trivial id f hid hf).mono hstays hstays

namespace Settled
variable {id : FrameId}

theorem lt_size (h : P.Settled id) : id < P.store.heap.size := by
  obtain ⟨settled, ho, hid⟩ := h
  exact ho.machine.ready.settled_lt id hid

theorem later (h : P.Settled id) (hl : Later Value.IsCode P Q) : Q.Settled id := by
  obtain ⟨settled, ho, hid⟩ := h
  obtain ⟨settled', ho', ha⟩ := ho.later isCode_of_text hl
  exact ⟨settled', ho', ha.stays id hid⟩

/-- A settled frame stays as it is. -/
theorem frame_eq (h : P.Settled id) (hl : Later Value.IsCode P Q) :
    Q.store.heap.frames[id]? = P.store.heap.frames[id]? := by
  obtain ⟨settled, ho, hid⟩ := h
  obtain ⟨settled', -, ha⟩ := ho.later isCode_of_text hl
  exact ha.frames id hid

/-- The frame of a module that is kept is settled. -/
theorem of_kept (hP : Reachable Value.IsCode P) (hm : P.store.registry.get? path = some m) :
    P.Settled m.scope := by
  obtain ⟨settled, ho⟩ := reachable_orderly isCode_of_text hP
  exact ⟨settled, ho, ho.machine.ready.modules path m hm⟩

/-- So is that of a module to which something is bound. -/
theorem of_bound (hP : Reachable Value.IsCode P) {name : String} {v : Value}
    (hv : P.store.heap.own? id name = some v) (hm : Value.Part (.module m) v) :
    P.Settled m.scope := by
  obtain ⟨settled, ho⟩ := reachable_orderly isCode_of_text hP
  have hlt : id < P.store.heap.size := by
    rw [Heap.own?_eq] at hv
    obtain ⟨f, hf, -⟩ := Option.bind_eq_some_iff.1 hv
    exact P.store.heap.lt_size_of_frame hf
  have hall := ho.machine.ready.closed trivial 0 List.mem_cons_self
  exact ⟨settled, ho, (hall.own?_fits (.inr ⟨Nat.zero_le _, hlt⟩) hv).modules m hm⟩

end Settled

/-! ## What does not belong to a module -/

/-- A frame was made for a call while no module was being loaded. -/
def MadeByCall (P : Process) (id : FrameId) : Prop :=
  ∃ (Q : Process) (next : Machine), Reachable Value.IsCode Q ∧
    Q.machine.next Q.setting = some next ∧ Machine.loads next.tasks = [] ∧
    Q.store.heap.size ≤ id ∧ id < next.store.heap.size ∧
    Later Value.IsCode { Q with machine := next } P

/-- No module leads to a frame that was made for a call. -/
theorem MadeByCall.not_reaches {id : FrameId} (h : P.MadeByCall id)
    (hm : P.store.registry.get? path = some m) : ¬ P.store.heap.Reaches m.scope id := by
  obtain ⟨Q, next, hQ, hnext, hloads, hl, hu, hlater⟩ := h
  obtain ⟨settled, ho⟩ := reachable_orderly isCode_of_text hQ
  obtain ⟨settled₁, ho₁, -, hfresh⟩ := ho.step isCode_of_text (.work hnext)
  obtain ⟨settled₂, ho₂, ha⟩ := ho₁.later isCode_of_text hlater
  have hout := ha.outside id (hfresh hnext hloads id hl hu)
  have hr := ho₂.machine.ready
  exact fun hreach => hout.2.1 ((hr.core trivial).inside_of_reaches (hr.modules path m hm) hreach)

/-- Nor does one lead to the outermost scope of an interpreter. -/
theorem Reachable.root_not_reaches (hP : Reachable Value.IsCode P) {root : FrameId}
    (hroot : root ∈ P.roots) (hm : P.store.registry.get? path = some m) :
    ¬ P.store.heap.Reaches m.scope root := by
  obtain ⟨settled, ho⟩ := reachable_orderly isCode_of_text hP
  have hr := ho.machine.ready
  exact fun hreach =>
    (ho.roots root hroot).2.1 ((hr.core trivial).inside_of_reaches (hr.modules path m hm) hreach)

/-! ## Calls at two moments -/

/-- A module that has been kept, or to which something has been bound, by a moment of a run. -/
def Met (P : Process) (m : Module) : Prop :=
  ∃ Q, Reachable Value.IsCode Q ∧ Later Value.IsCode Q P ∧
    ((∃ path, Q.store.registry.get? path = some m) ∨
      ∃ id name v, Q.store.heap.own? id name = some v ∧ Value.Part (.module m) v)

theorem Met.settled (h : P.Met m) : P.Settled m.scope := by
  obtain ⟨Q, hQ, hl, ⟨path, hm⟩ | ⟨id, name, v, hv, hm⟩⟩ := h
  · exact (Settled.of_kept hQ hm).later hl
  · exact (Settled.of_bound hQ hv hm).later hl

/-- An argument without functions, and without modules other than those that the process has met. -/
structure Plain (P : Process) (v : Value) : Prop where
  noFunctions : ∀ params body scope, ¬ Value.Part (.fn params body scope) v
  modules : ∀ m, Value.Part (.module m) v → P.Met m

theorem Plain.fits {v : Value} (h : P.Plain v) : v.Fits P.Settled P.Settled :=
  ⟨fun params body scope hu => (h.noFunctions params body scope hu).elim,
    fun m hu => (h.modules m hu).settled⟩

/-- Frames that correspond when the same call is made at two moments: the settled frames of the
first, each to itself, and the new ones in the order in which they are made. -/
def Corresponds (P Q : Process) (a b : FrameId) : Prop :=
  (P.Settled a ∧ a = b) ∨ ∃ k, a = P.store.heap.size + k ∧ b = Q.store.heap.size + k

theorem Corresponds.like {v : Value} (h : v.Fits P.Settled P.Settled) :
    v.Like (Corresponds P Q) v :=
  .refl_of fun _ hid => .inl ⟨h.inside_of_refersTo hid, rfl⟩

theorem corresponds_matches (hl : Later Value.IsCode P Q) :
    Machine.Matches (Corresponds P Q) P.store Q.store := by
  -- a settled frame is older than any new one, at either moment
  have hold {a : Nat} (ha : P.Settled a) (k : Nat) :
      a ≠ P.store.heap.size + k ∧ a ≠ Q.store.heap.size + k :=
    ⟨Nat.ne_of_lt (Nat.lt_add_right k ha.lt_size),
      Nat.ne_of_lt (Nat.lt_add_right k (ha.later hl).lt_size)⟩
  refine ⟨fun hab hxy => ?_, fun k => .inr ⟨k, rfl, rfl⟩⟩
  rcases hab with ⟨ha, rfl⟩ | ⟨k, rfl, rfl⟩ <;> rcases hxy with ⟨hx, rfl⟩ | ⟨j, rfl, rfl⟩
  · exact Iff.rfl
  · exact ⟨fun h => absurd h.symm (hold ha j).1, fun h => absurd h.symm (hold ha j).2⟩
  · exact ⟨fun h => absurd h (hold hx k).1, fun h => absurd h (hold hx k).2⟩
  · exact Nat.add_left_cancel_iff.trans Nat.add_left_cancel_iff.symm

/-- The heaps of two moments are alike in the frames that correspond. -/
theorem corresponds_alike (hl : Later Value.IsCode P Q) :
    P.store.heap.Alike (Corresponds P Q) Q.store.heap := by
  rintro a b (⟨ha, rfl⟩ | ⟨k, rfl, rfl⟩)
  · rw [ha.frame_eq hl]
    rcases hf : P.store.heap.frames[a]? with _ | f
    · exact .none
    · have hfit := P.closed a f ha hf
      refine .some ⟨List.forall₂_same.2 fun e he => ⟨rfl, Corresponds.like (hfit.bindings e he)⟩, ?_⟩
      rcases ho : f.outer? with _ | o
      · exact .none
      · exact .some (.inl ⟨hfit.outer o ho, rfl⟩)
  · rw [(P.store.heap.frames_eq_none_iff _).2 (Nat.le_add_right _ _),
      (Q.store.heap.frames_eq_none_iff _).2 (Nat.le_add_right _ _)]
    exact .none

/-- Two evaluations, each from a state of its own, end the same but for the names of frames: with
the same fault, or with values that are alike and refer to alike frames, and with the same lines
printed.  Frames go by the same name if they were there before, and by the order in which they were
made if they are new. -/
def EndAlike (s s' : Store) (o o' : Except Fault Value × Store) : Prop :=
  ∃ rel : FrameId → FrameId → Prop,
    (∀ a b, rel a b → (a < s.heap.size ∧ a = b) ∨
      ∃ k, a = s.heap.size + k ∧ b = s'.heap.size + k) ∧
    Agree (Value.Like rel) o.1 o'.1 ∧ Machine.Abreast rel s s' o.2 o'.2

/-- **A module is isolated from those who use it.**  From the frame of a module that is kept one
gets neither to the outermost scope of an interpreter nor to a frame that was made for a call
outside of all loads.  And a call of what is bound in the module ends alike at any two moments, if
it has the same levels and the same limit on writing at both, the arguments contain no functions and
the call, at one of the moments, never looks for a file. -/
theorem Reachable.module_isolated (hP : Reachable Value.IsCode P)
    (hm : P.store.registry.get? path = some m) :
    (∀ id, P.store.heap.Reaches m.scope id → id ∉ P.roots ∧ ¬ P.MadeByCall id) ∧
    ∀ {name : String} {f : Value} {args : List Value} {Q : Process} {levels : Nat}
      {setting setting' : Setting},
      setting.writingLimit = setting'.writingLimit →
      P.store.heap.own? m.scope name = some f → (∀ a ∈ args, P.Plain a) →
      Later Value.IsCode P Q →
      (Machine.SeeksNone setting (.ofCall setting.writingLimit levels f args P.store) ∨
        Machine.SeeksNone setting' (.ofCall setting'.writingLimit levels f args Q.store)) →
      Q.store.heap.own? m.scope name = some f ∧
      EndAlike P.store Q.store
        ((call setting.writingLimit (eval setting levels) f args).run P.store)
        ((call setting'.writingLimit (eval setting' levels) f args).run Q.store) := by
  refine ⟨fun id hreach => ⟨fun hroot => hP.root_not_reaches hroot hm hreach,
    fun hmade => hmade.not_reaches hm hreach⟩, ?_⟩
  intro name f args Q levels setting setting' hw hf ha hl hno
  have hscope : P.Settled m.scope := .of_kept hP hm
  refine ⟨?_, ?_⟩
  · rw [Heap.own?_eq, hscope.frame_eq hl, ← Heap.own?_eq]
    exact hf
  · have hargs : List.Forall₂ (Value.Like (Corresponds P Q)) args args :=
      List.forall₂_same.2 fun a hmem => Corresponds.like (ha a hmem).fits
    have hrel : ∀ a b, Corresponds P Q a b → (a < P.store.heap.size ∧ a = b) ∨
        ∃ k, a = P.store.heap.size + k ∧ b = Q.store.heap.size + k := by
      rintro a b (⟨ha, rfl⟩ | hnew)
      · exact .inl ⟨ha.lt_size, rfl⟩
      · exact .inr hnew
    exact ⟨Corresponds P Q, hrel, Machine.call_alike (corresponds_matches hl)
      (corresponds_alike hl) hw (Corresponds.like (P.closed.own?_fits hscope hf)) hargs hno⟩

end Process

/-! ## A module with a function -/

namespace IdentityFile

/-- The text of a file that binds a function. -/
def text : List Char := "(let f (fn (x) x))".toList

/-- The expression in the file. -/
def binding : Value :=
  .list [.sym SpecialForm.define.keyword, .sym "f",
    .list [.sym SpecialForm.lambda.keyword, .list [.sym "x"], .sym "x"]]

def setting : Setting := .ofFile (text.map fun c => c.toUInt8)

def path : Path := ⟨.root, ["a.lisp"]⟩

/-- The module of the file, in the frame that is the outermost scope of its load. -/
def module : Module := ⟨path.text, 9⟩

/-- The function that is bound in it. -/
def f : Value := .fn ["x"] (.sym "x") 9

/-- One interpreter is open. -/
def before : Store := { Store.initial with heap := Prelude.install Heap.empty }

/-- The module has been required. -/
def after : Store :=
  (((before.opening path).defining 9 "f" f).closing path).keeping setting path module

theorem ofText_text : Script.ofText setting.nestingLimit text = ⟨[binding], none⟩ := by
  let tokens : List Token :=
    [⟨.openBracket, ['('], 0⟩, ⟨.atom, "let".toList, 1⟩, ⟨.atom, ['f'], 5⟩, ⟨.openBracket, ['('], 7⟩,
      ⟨.atom, "fn".toList, 8⟩, ⟨.openBracket, ['('], 11⟩, ⟨.atom, ['x'], 12⟩,
      ⟨.closeBracket, [')'], 13⟩, ⟨.atom, ['x'], 15⟩, ⟨.closeBracket, [')'], 16⟩,
      ⟨.closeBracket, [')'], 17⟩]
  have htokens : Token.meaningful text = tokens := by decide +kernel
  exact ReadingLoop.script_of_tokens htokens (by decide) rfl

theorem asks : Asks setting before 4 "a" path :=
  ⟨by decide +kernel, Setting.modulePath_ofFile _⟩

theorem readText_path : setting.files.readText setting.here path = .ok text :=
  Setting.readText_ofFile _ (by decide +kernel)

theorem trimStart_text : Text.trimStart text = text := by decide +kernel

theorem require_eq :
    (require setting (eval setting 975) 4 "a").run before = (.ok module, after) := by
  have hnew : before.kept? setting path = none := rfl
  have hidle : before.registry.isLoading path = false := rfl
  have hform : (eval setting 975 binding (Prelude.rootOf before.heap)).run (before.opening path) =
      (.ok f, (before.opening path).defining 9 "f" f) := rfl
  rw [run_require, asks.unbound, asks.resolves]
  simp only [run_load_file hnew hidle readText_path, runFile, trimStart_text, ofText_text,
    run_runModule, run_evalForms_cons, hform]
  rfl

/-- The process in which an interpreter has required the module. -/
def required : Process := ⟨[4], setting, ⟨.value (.module module), [], after⟩⟩

/-- The interpreter has bound `+` to a text since. -/
def rebound : Process := ⟨[4], setting, ⟨.value (.str "1"), [], after.defining 4 "+" (.str "1")⟩⟩

/-- The expression that requires the module. -/
def form : Value := .list [.sym SpecialForm.require.keyword, .str "a"]

theorem isCode_form : form.IsCode := by
  refine Value.isCode_list_iff.2 (List.forall_mem_cons.2 ⟨Value.isCode_sym _, ?_⟩)
  exact List.forall_mem_singleton.2 (Value.isCode_str _)

theorem reachable_required : Process.Reachable Value.IsCode required := by
  have hscript : Process.Step Value.IsCode ⟨[4], setting, ⟨.value .nil, [], before⟩⟩
      ⟨[4], setting, .ofScript 980 4 ⟨[form], none⟩ before⟩ :=
    .script setting rfl rfl List.mem_cons_self (List.forall_mem_singleton.2 isCode_form)
  let rest : List Machine.Task := [.form none 980 4 [] none]
  have hask : Machine.Runs setting (.ofScript 980 4 ⟨[form], none⟩ before)
      ⟨.value (.str "a"), .specifier 979 4 :: rest, before⟩ :=
    .head rfl (.head (congrArg some (Machine.enterExpr_form
      (SpecialForm.ofKeyword?_keyword .require) _ _ _ _ _)) (.head rfl .refl))
  have hload := Machine.runs_enterRequire (Machine.runs_eval setting (979 - 4)) 4 "a" rest before
  rw [require_eq] at hload
  have hruns : Machine.Runs setting (.ofScript 980 4 ⟨[form], none⟩ before) required.machine :=
    (hask.trans (.head rfl hload)).tail rfl
  exact ⟨setting, rfl, .head (.interpreter rfl) (.head hscript (Process.later_of_runs hruns))⟩

theorem later_rebound : Process.Later Value.IsCode required rebound := by
  let form : Value := .list [.sym SpecialForm.define.keyword, .sym "+", .str "1"]
  have hcode : form.IsCode := by
    refine Value.isCode_list_iff.2 (List.forall_mem_cons.2 ⟨Value.isCode_sym _, ?_⟩)
    exact List.forall_mem_cons.2 ⟨Value.isCode_sym _, List.forall_mem_singleton.2 (Value.isCode_str _)⟩
  have hscript : Process.Step Value.IsCode required
      ⟨[4], setting, .ofScript 980 4 ⟨[form], none⟩ after⟩ :=
    .script setting rfl rfl List.mem_cons_self (List.forall_mem_singleton.2 hcode)
  have hruns : Machine.Runs setting (.ofScript 980 4 ⟨[form], none⟩ after) rebound.machine := by
    refine .head rfl (.head (congrArg some (Machine.enterExpr_form
      (SpecialForm.ofKeyword?_keyword .define) _ _ _ _ _)) ?_)
    exact .head rfl (.head rfl (.head rfl .refl))
  exact .head hscript (Process.later_of_runs hruns)

/-- A call of the function looks for no file, for it only looks up its argument. -/
theorem call_seeksNone :
    Machine.SeeksNone setting (.ofCall setting.writingLimit 980 f [.str "2"] after) := by
  have hseeks (m : Machine) (h : m.tasks = []) : ¬ m.SeeksFile := by
    rintro ⟨_, _, _, _, _, _, ht, _⟩
    rw [h] at ht
    cases ht
  intro b hb
  rcases hb.cases_head with rfl | ⟨c, hc, hcb⟩
  · exact hseeks _ rfl
  · obtain rfl := Option.some.inj hc
    rw [Machine.Runs.eq_of_done hcb (Machine.next_after_nil _)]
    exact hseeks _ rfl

end IdentityFile

/-- Before and after an interpreter binds `+` to something else, a call of the function in the
required module ends alike. -/
theorem Process.module_isolated_of_identity :
    let P := IdentityFile.required
    let Q := IdentityFile.rebound
    Reachable Value.IsCode P ∧
    P.store.registry.get? IdentityFile.path = some IdentityFile.module ∧
    P.store.heap.own? IdentityFile.module.scope "f" = some IdentityFile.f ∧
    Later Value.IsCode P Q ∧
    Machine.SeeksNone P.setting
      (.ofCall P.setting.writingLimit 980 IdentityFile.f [.str "2"] P.store) ∧
    (∀ id, P.store.heap.Reaches IdentityFile.module.scope id → id ∉ P.roots ∧ ¬ P.MadeByCall id) ∧
    Q.store.heap.own? IdentityFile.module.scope "f" = some IdentityFile.f ∧
    EndAlike P.store Q.store
      ((call P.setting.writingLimit (eval P.setting 980) IdentityFile.f [.str "2"]).run
        P.store)
      ((call Q.setting.writingLimit (eval Q.setting 980) IdentityFile.f [.str "2"]).run
        Q.store) := by
  intro P Q
  have hkept : P.store.registry.get? IdentityFile.path = some IdentityFile.module := rfl
  have hf : P.store.heap.own? IdentityFile.module.scope "f" = some IdentityFile.f := rfl
  have hplain : ∀ a ∈ [Value.str "2"], P.Plain a := by
    refine List.forall_mem_singleton.2 ⟨fun params body scope hu => ?_, fun m hu => ?_⟩
    · cases hu
    · cases hu
  have hisolated := IdentityFile.reachable_required.module_isolated hkept
  exact ⟨IdentityFile.reachable_required, hkept, hf, IdentityFile.later_rebound,
    IdentityFile.call_seeksNone, hisolated.1,
    hisolated.2 rfl hf hplain IdentityFile.later_rebound (.inl IdentityFile.call_seeksNone)⟩

end SmallLisp
