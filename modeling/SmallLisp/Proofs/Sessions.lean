import SmallLisp.Proofs.Isolation
import SmallLisp.Proofs.Reevaluation

/-! # Sessions with and without kept modules

A session opens interpreters and evaluates programs in them, one after the other; the files and the
working directory stay as they are.  Played once with the modules kept and once with every file
evaluated anew at each `require`, a session has the same outcomes, program by program and up to
copies of frames, and prints the same lines but for those that loads print
(`Session.play_transparent`).  So whatever was required before, by whichever interpreter and in
whatever order, a `require` has the outcome that evaluating the file has where nothing is kept.

All this holds up to the first program that, with files evaluated anew, goes too deep and is cut
off.  For to find a module that is kept takes no level of evaluation, and to evaluate its file
again takes some, so that a `require` on one of the last levels succeeds only because the module is
there (`Session.play_differs_at_depth_limit`).
-/
namespace SmallLisp
open Evaluation

/-- Printed texts that are the same but for what loads of the same files printed, last lines first.
A file that is loaded while modules are kept finds such modules as their own files give. -/
inductive SameApartFromLoads (setting : Setting) : List Printed → List Printed → Prop
  | nothing : SameApartFromLoads setting [] []
  | line (p : Printed) {xs ys : List Printed} :
      SameApartFromLoads setting xs ys → SameApartFromLoads setting (p :: xs) (p :: ys)
  | load {active : FrameId → Prop} {s s' : Store} (path : Path) (levels levels' : Nat) :
      Kept setting active s → SameApartFromLoads setting s.printed s'.printed →
        SameApartFromLoads setting ((load setting (eval setting levels) path).run s).2.printed
          ((load setting.forgetful (eval setting.forgetful levels') path).run s').2.printed

theorem Asks.forgetful {setting : Setting} {s : Store} {scope : FrameId} {specifier : String}
    {path : Path} (h : Asks setting s scope specifier path) :
    Asks setting.forgetful s scope specifier path :=
  ⟨h.unbound, h.resolves⟩

theorem sameApartFromLoads_talks (setting : Setting) :
    Talks setting (SameApartFromLoads setting) := by
  refine ⟨fun out xs ys h => ?_, .load⟩
  induction out with
  | nil => exact h
  | cons p rest ih => exact .line p ih

/-- The outermost scopes of the interpreters, in the order of their opening, and the state that they
share. -/
structure Session where
  roots : List FrameId
  store : Store

namespace Session

/-- What is done next in a session: another interpreter is opened, or a program is evaluated in one
of them. -/
inductive Command
  | interpreter
  | program (number : Nat) (script : Script)

/-- The program of a command is what a text can hold. -/
def Command.IsText : Command → Prop
  | interpreter => True
  | program _ script => ∀ form ∈ script.forms, form.IsCode

/-- A session without interpreters. -/
def initial : Session := ⟨[], Store.initial⟩

/-- What a command does; a program has an outcome if there is an interpreter for it. -/
def step (setting : Setting) (S : Session) : Command → Option (Except Fault Value) × Session
  | .interpreter =>
    (none, ⟨S.roots ++ [Prelude.rootOf S.store.heap],
      { S.store with heap := Prelude.install S.store.heap }⟩)
  | .program number script =>
    match S.roots[number]? with
    | none => (none, S)
    | some root =>
      let o := (runScript (evaluate setting) root script).run S.store
      (some o.1, ⟨S.roots, o.2⟩)

/-- The outcomes of commands one after the other, and the session after them. -/
def play (setting : Setting) (S : Session) :
    List Command → List (Option (Except Fault Value)) × Session
  | [] => ([], S)
  | c :: rest =>
    ((S.step setting c).1 :: (play setting (S.step setting c).2 rest).1,
      (play setting (S.step setting c).2 rest).2)

/-- The second session mirrors the first, in which the outermost scopes are active and nothing is
being loaded. -/
structure Mirrored (setting : Setting) (rel : FrameId → FrameId → Prop) (S S' : Session) :
    Prop where
  store : Mirrors setting (SameApartFromLoads setting) (· ∈ S.roots) rel S.store S'.store
  roots : List.Forall₂ rel S.roots S'.roots
  idle : S.store.registry.loading = []
  idle' : S'.store.registry.loading = []

variable {setting : Setting} {rel : FrameId → FrameId → Prop} {S S' : Session}

theorem initial_mirrored (setting : Setting) :
    Mirrored setting (fun _ _ => False) initial initial := by
  refine ⟨⟨⟨fun _ _ => False.elim, fun _ _ => False.elim, False.elim⟩, nofun, ⟨?_, nofun, ?_⟩,
    .nothing⟩, .nil, rfl, rfl⟩
  · exact fun _ _ => rfl
  · nofun

/-- As nothing is being loaded, nothing stands in the way of the second session. -/
theorem Mirrored.allows {α : Type} (h : Mirrored setting rel S S')
    (o : Except Fault α × Store) : Allows S.store S'.store o := by
  refine ⟨fun q hq => ?_, fun _ _ => h.idle.trans h.idle'.symm⟩
  rw [h.idle'] at hq
  cases hq

/-- A command keeps the sessions like one another, unless its program is cut off. -/
theorem Mirrored.step (hk : setting.keepsModules = true) (h : Mirrored setting rel S S')
    {c : Command} (hc : c.IsText)
    (huncut : (S'.step setting.forgetful c).1 ≠ some (.error .tooDeep)) :
    ∃ rel', (∀ a b, rel a b → rel' a b) ∧
      Mirrored setting rel' (S.step setting c).2 (S'.step setting.forgetful c).2 ∧
      Option.Rel (Agree (Value.Like rel')) (S.step setting c).1 (S'.step setting.forgetful c).1 := by
  cases c with
  | interpreter =>
    have hi := h.store.installing
    refine ⟨_, fun _ _ => .inl, ⟨hi.leaving (fun a ha => ?_) hi.talk, ?_, h.idle, h.idle'⟩, .none⟩
    · exact (List.mem_append.1 ha).imp_right List.mem_singleton.1
    · exact List.rel_append (h.roots.imp fun _ _ => .inl)
        (.cons (.inr (Prelude.pairs_root _ _)) .nil)
  | program number script =>
    simp only [Session.step] at huncut ⊢
    rcases optionRel_cases (optionRel_getElem? h.roots number) with
      ⟨hx, hy⟩ | ⟨root, root', hx, hy, hroot⟩
    · rw [hx, hy]
      exact ⟨rel, fun _ _ hab => hab, h, .none⟩
    · rw [hy] at huncut
      rw [hx, hy]
      have hgrows := growing_runScript (eval_evolves setting setting.depthLimit) root script S.store
      have hfaithful : Faithful setting False (evaluate setting) (evaluate setting.forgetful) := by
        intro T active rel s s' scope scope' expr expr' hT ha hs he
        exact (eval_follows hk setting.depthLimit setting.depthLimit hT ha hs he).mono_deeper
          (Nat.lt_irrefl _)
      have hfollows := runScript_follows hk (eval_evolves setting setting.depthLimit) hfaithful
        (sameApartFromLoads_talks setting) (List.mem_of_getElem? hx) hroot hc h.store
        (h.allows _)
      obtain ⟨rel', hg, hm, hr⟩ :=
        hfollows.of_uncut (fun hcut => huncut (congrArg some hcut)) id
      exact ⟨rel', hg.more, ⟨hm, h.roots.imp hg.more, hgrows.loading.trans h.idle,
        hg.loading.trans h.idle'⟩, .some hr⟩

theorem Mirrored.play (hk : setting.keepsModules = true) (h : Mirrored setting rel S S')
    {commands : List Command} (hc : ∀ c ∈ commands, c.IsText)
    (huncut : some (.error .tooDeep) ∉ (S'.play setting.forgetful commands).1) :
    ∃ rel', (∀ a b, rel a b → rel' a b) ∧
      Mirrored setting rel' (S.play setting commands).2 (S'.play setting.forgetful commands).2 ∧
      List.Forall₂ (Option.Rel (Agree (Value.Like rel'))) (S.play setting commands).1
        (S'.play setting.forgetful commands).1 := by
  induction commands generalizing rel S S' with
  | nil => exact ⟨rel, fun _ _ hab => hab, h, .nil⟩
  | cons c rest ih =>
    have hfirst : (S'.step setting.forgetful c).1 ≠ some (.error .tooDeep) :=
      fun hcut => huncut (List.mem_cons.2 (.inl hcut.symm))
    have hrest := fun hcut => huncut (List.mem_cons_of_mem (S'.step setting.forgetful c).1 hcut)
    obtain ⟨rel', hmore, hm, hr⟩ := h.step hk (hc c List.mem_cons_self) hfirst
    obtain ⟨rel'', hmore', hm', hrs⟩ :=
      ih hm (fun c' hc' => hc c' (List.mem_cons_of_mem _ hc')) hrest
    refine ⟨rel'', fun a b hab => hmore' a b (hmore a b hab), hm', .cons ?_ hrs⟩
    exact optionRel_mono (fun _ _ hag => hag.mono fun _ _ hv => hv.mono hmore') hr

/-- A `require` in a mirrored session has the outcome that it has wherever nothing is kept. -/
theorem Mirrored.require (hk : setting.keepsModules = true) (h : Mirrored setting rel S S')
    {s' : Store} {specifier : String} {path : Path} {scope scope' : FrameId}
    (ha : Asks setting S.store scope specifier path)
    (ha' : Asks setting s' scope' specifier path) (hidle : s'.registry.loading = [])
    (levels : Nat) :
    let o := (Evaluation.require setting (eval setting levels) scope specifier).run S.store
    let o' := (Evaluation.require setting.forgetful (eval setting.forgetful levels) scope'
      specifier).run s'
    o'.1 = .error .tooDeep ∨
      ∃ rel', Heap.Copies rel' o.2.heap o'.2.heap ∧ Agree (ModuleLike rel') o.1 o'.1 := by
  simp only [ha.run_load, ha'.forgetful.run_load]
  have hfollows := load_follows hk (fun j => eval_follows hk levels j) talks_anything path levels
    (mirrors_nothing h.store.kept s')
  have hallows : Allows S.store s' ((load setting (eval setting levels) path).run S.store) := by
    refine ⟨fun q hq => ?_, fun _ _ => h.idle.trans hidle.symm⟩
    rw [hidle] at hq
    cases hq
  refine or_iff_not_imp_left.2 fun huncut => ?_
  obtain ⟨rel', -, hm, hr⟩ := (hfollows hallows).of_uncut huncut (Nat.lt_irrefl levels)
  exact ⟨rel', hm.copies, hr⟩

/-- **Modules are kept for speed alone.**  Whatever texts a session evaluates, in whichever
interpreters, with every file evaluated anew at each `require` its programs have the same outcomes,
up to copies of frames, as with the modules kept, and it prints the same lines apart from those of
loads, as long as none of the programs goes too deep that way.  And a `require` at any such moment,
if it does not go too deep, has the outcome that evaluating the file has wherever nothing is kept
and nothing is being loaded. -/
theorem play_transparent (hk : setting.keepsModules = true) {commands : List Command}
    (hc : ∀ c ∈ commands, c.IsText) {outcomes outcomes' : List (Option (Except Fault Value))}
    {S S' : Session} (hplay : initial.play setting commands = (outcomes, S))
    (hplay' : initial.play setting.forgetful commands = (outcomes', S'))
    (huncut : some (.error .tooDeep) ∉ outcomes') :
    (∃ rel, List.Forall₂ (Option.Rel (Agree (Value.Like rel))) outcomes outcomes' ∧
      List.Forall₂ rel S.roots S'.roots ∧ Heap.Copies rel S.store.heap S'.store.heap ∧
      SameApartFromLoads setting S.store.printed S'.store.printed) ∧
    ∀ {s' : Store} {specifier : String} {path : Path} {scope scope' : FrameId},
      Asks setting S.store scope specifier path → Asks setting s' scope' specifier path →
      s'.registry.loading = [] → ∀ levels,
      let o := (Evaluation.require setting (eval setting levels) scope specifier).run S.store
      let o' := (Evaluation.require setting.forgetful (eval setting.forgetful levels) scope'
        specifier).run s'
      o'.1 = .error .tooDeep ∨
        ∃ rel, Heap.Copies rel o.2.heap o'.2.heap ∧ Agree (ModuleLike rel) o.1 o'.1 := by
  have hmirrored := (initial_mirrored setting).play hk hc (by rwa [hplay'])
  rw [hplay, hplay'] at hmirrored
  obtain ⟨rel, -, hm, hr⟩ := hmirrored
  refine ⟨⟨rel, hr, hm.roots, hm.store.copies, hm.store.talk⟩, ?_⟩
  intro s' specifier path scope scope' ha ha' hidle levels
  exact hm.require hk ha ha' hidle levels

end Session

/-! ## A module on the last levels -/

namespace IdentityFile

theorem run_form (setting : Setting) (levels : Nat) (scope : FrameId) (s : Store) :
    (eval setting (levels + 3) form scope).run s =
      match (require setting (eval setting (levels + 2 - 4)) scope "a").run s with
      | (.error e, t) => (.error e, t)
      | (.ok m, t) => (.ok (.module m), t) := by
  rw [eval_succ, form, step_form _ _ _ (SpecialForm.ofKeyword?_keyword .require), run_require_form]
  rfl

/-- An expression inside so many conditions that hold. -/
def nested : Nat → Value → Value
  | 0, expr => expr
  | depth + 1, expr =>
    .list [.sym SpecialForm.conditional.keyword, .bool true, nested depth expr]

theorem isCode_nested {expr : Value} (h : expr.IsCode) (depth : Nat) :
    (nested depth expr).IsCode := by
  induction depth with
  | zero => exact h
  | succ depth ih =>
    refine Value.isCode_list_iff.2 (List.forall_mem_cons.2 ⟨Value.isCode_sym _, ?_⟩)
    refine List.forall_mem_cons.2 ⟨Value.isCode_bool true, ?_⟩
    exact List.forall_mem_singleton.2 ih

/-- Each of the conditions takes two levels. -/
theorem run_nested (setting : Setting) (levels depth : Nat) (expr : Value) (scope : FrameId)
    (s : Store) :
    (eval setting (levels + 1 + 2 * depth) (nested depth expr) scope).run s =
      (eval setting (levels + 1) expr scope).run s := by
  induction depth with
  | zero => rfl
  | succ depth ih =>
    have hrun := run_conditional_form setting (eval setting (levels + 1 + 2 * depth))
      (eval setting (levels + 1 + 2 * depth + 1 - 4)) scope s (.bool true) (nested depth expr) none
    have hcond : (eval setting (levels + 1 + 2 * depth) (.bool true) scope).run s =
        (.ok (.bool true), s) := by
      rw [Nat.add_right_comm, eval_succ]
      rfl
    rw [hcond] at hrun
    rw [← ih]
    refine Eq.trans ?_ hrun
    rw [Nat.mul_succ, ← Nat.add_assoc, eval_succ, nested,
      step_form _ _ _ (SpecialForm.ofKeyword?_keyword .conditional)]
    rfl

/-- The state after the file has been evaluated in a state in which it is not kept. -/
def evaluated (s : Store) : Store :=
  ((s.opening path).defining (Prelude.rootOf s.heap) "f"
    (.fn ["x"] (.sym "x") (Prelude.rootOf s.heap))).closing path

theorem require_forgetful {s : Store} {scope : FrameId} (ha : Asks setting s scope "a" path)
    (hl : s.registry.isLoading path = false) :
    (require setting.forgetful (eval setting.forgetful 975) scope "a").run s =
      (.ok ⟨path.text, Prelude.rootOf s.heap⟩, evaluated s) := by
  have hpath : modulePath setting.forgetful "a" = .ok path := ha.resolves
  have hbinding : (eval setting.forgetful 975 binding (Prelude.rootOf s.heap)).run (s.opening path) =
      (.ok (.fn ["x"] (.sym "x") (Prelude.rootOf s.heap)),
        (s.opening path).defining (Prelude.rootOf s.heap) "f"
          (.fn ["x"] (.sym "x") (Prelude.rootOf s.heap))) := rfl
  rw [run_require, ha.unbound, hpath]
  simp only [run_load_forgetful hl readText_path, runFile, trimStart_text, ofText_text, run_runModule,
    run_evalForms_cons, hbinding]
  rfl

/-- On the last levels there is none left for the file. -/
theorem require_forgetful_cut {s : Store} {scope : FrameId} (ha : Asks setting s scope "a" path)
    (hl : s.registry.isLoading path = false) :
    ((require setting.forgetful (eval setting.forgetful 0) scope "a").run s).1 =
      .error .tooDeep := by
  have hpath : modulePath setting.forgetful "a" = .ok path := ha.resolves
  rw [run_require, ha.unbound, hpath]
  simp only [run_load_forgetful hl readText_path, runFile, trimStart_text, ofText_text, run_runModule,
    run_evalForms_cons]
  rfl

/-- The file has been evaluated, and its module is not kept. -/
def afterwards : Store := evaluated before

/-- The module that evaluating the file once more gives. -/
def again : Module := ⟨path.text, Prelude.rootOf afterwards.heap⟩

theorem asks_after : Asks setting after 4 "a" path :=
  ⟨by decide +kernel, Setting.modulePath_ofFile _⟩

theorem asks_afterwards : Asks setting afterwards 4 "a" path :=
  ⟨by decide +kernel, Setting.modulePath_ofFile _⟩

theorem step_program (setting : Setting) (S : Session) {number : Nat} {root : FrameId} {expr : Value}
    (hroot : S.roots[number]? = some root) {o : Except Fault Value × Store}
    (h : (eval setting setting.depthLimit expr root).run S.store = o) :
    S.step setting (.program number ⟨[expr], none⟩) = (some o.1, ⟨S.roots, o.2⟩) := by
  obtain ⟨result, t⟩ := o
  simp only [Session.step, hroot, run_runScript, run_evalForms_cons, evaluate, h]
  cases result <;> rfl

end IdentityFile

namespace Session
open IdentityFile

/-- Two programs in the first interpreter of a session. -/
def twice (expr : Value) : List Command :=
  [.interpreter, .program 0 ⟨[form], none⟩, .program 0 ⟨[expr], none⟩]

theorem isText_twice {expr : Value} (h : expr.IsCode) : ∀ c ∈ twice expr, c.IsText := by
  refine List.forall_mem_cons.2 ⟨trivial, List.forall_mem_cons.2 ⟨?_, ?_⟩⟩
  · exact List.forall_mem_singleton.2 isCode_form
  · exact List.forall_mem_singleton.2 (List.forall_mem_singleton.2 h)

/-- What comes of two programs of which the first requires the module. -/
theorem play_twice {expr : Value} {o : Except Fault Value × Store}
    (h : (eval setting 980 expr 4).run after = o) :
    initial.play setting (twice expr) =
      ([none, some (.ok (.module module)), some o.1], ⟨[4], o.2⟩) := by
  have hfirst : (eval setting 980 form 4).run before = (.ok (.module module), after) := by
    rw [run_form setting 977, require_eq]
  have hopen : initial.step setting .interpreter = (none, ⟨[4], before⟩) := rfl
  simp only [twice, play]
  rw [hopen, step_program setting ⟨[4], before⟩ rfl hfirst, step_program setting ⟨[4], after⟩ rfl h]

theorem play_twice_forgetful {expr : Value} {o : Except Fault Value × Store}
    (h : (eval setting.forgetful 980 expr 4).run afterwards = o) :
    initial.play setting.forgetful (twice expr) =
      ([none, some (.ok (.module module)), some o.1], ⟨[4], o.2⟩) := by
  have hfirst : (eval setting.forgetful 980 form 4).run before =
      (.ok (.module module), afterwards) := by
    rw [run_form setting.forgetful 977, require_forgetful asks rfl]
    rfl
  have hopen : initial.step setting.forgetful .interpreter = (none, ⟨[4], before⟩) := rfl
  simp only [twice, play]
  rw [hopen, step_program setting.forgetful ⟨[4], before⟩ rfl hfirst,
    step_program setting.forgetful ⟨[4], afterwards⟩ rfl h]

/-- A module is required twice, and two copies of it are like the one that is kept. -/
theorem play_transparent_of_identity :
    setting.keepsModules = true ∧ (∀ c ∈ twice form, c.IsText) ∧
    initial.play setting (twice form) =
      ([none, some (.ok (.module module)), some (.ok (.module module))], ⟨[4], after⟩) ∧
    initial.play setting.forgetful (twice form) =
      ([none, some (.ok (.module module)), some (.ok (.module again))],
        ⟨[4], evaluated afterwards⟩) ∧
    (∃ rel, List.Forall₂ (Option.Rel (Agree (Value.Like rel)))
        [none, some (.ok (.module module)), some (.ok (.module module))]
        [none, some (.ok (.module module)), some (.ok (.module again))] ∧
      List.Forall₂ rel [4] [4] ∧ Heap.Copies rel after.heap (evaluated afterwards).heap ∧
      SameApartFromLoads setting after.printed (evaluated afterwards).printed) ∧
    ∃ rel, Heap.Copies rel after.heap afterwards.heap ∧
      Agree (ModuleLike rel) (.ok module) (.ok module) := by
  have hkept : (eval setting 980 form 4).run after = (.ok (.module module), after) := by
    rw [run_form setting 977, asks_after.run_eq rfl rfl]
  have hagain : (eval setting.forgetful 980 form 4).run afterwards =
      (.ok (.module again), evaluated afterwards) := by
    rw [run_form setting.forgetful 977, require_forgetful asks_afterwards rfl]
    rfl
  have huncut : (some (.error .tooDeep) : Option (Except Fault Value)) ∉
      [none, some (.ok (.module module)), some (.ok (.module again))] := by
    rintro (_ | ⟨_, _ | ⟨_, _ | ⟨_, ⟨⟩⟩⟩⟩)
  have htext := isText_twice isCode_form
  obtain ⟨hplayed, hasked⟩ :=
    play_transparent rfl htext (play_twice hkept) (play_twice_forgetful hagain) huncut
  have hrequire := hasked asks_after asks rfl 975
  simp only [asks_after.run_eq rfl rfl, require_forgetful asks rfl] at hrequire
  exact ⟨rfl, htext, play_twice hkept, play_twice_forgetful hagain, hplayed,
    hrequire.resolve_left nofun⟩

/-- **A kept module is there where its file cannot be evaluated any more.**  Deep inside conditions
a `require` gives the module that is kept, and goes too deep if the file is evaluated anew. -/
theorem play_differs_at_depth_limit :
    setting.keepsModules = true ∧ (∀ c ∈ twice (nested 488 form), c.IsText) ∧
    ¬ ∃ rel, List.Forall₂ (Option.Rel (Agree (Value.Like rel)))
      (initial.play setting (twice (nested 488 form))).1
      (initial.play setting.forgetful (twice (nested 488 form))).1 := by
  refine ⟨rfl, isText_twice (isCode_nested isCode_form 488), ?_⟩
  have hkept : (eval setting 980 (nested 488 form) 4).run after = (.ok (.module module), after) := by
    rw [run_nested setting 3 488, run_form setting 1, asks_after.run_eq rfl rfl]
  have hcut : ((eval setting.forgetful 980 (nested 488 form) 4).run afterwards).1 =
      .error .tooDeep := by
    have hrequire := require_forgetful_cut asks_afterwards rfl
    rw [run_nested setting.forgetful 3 488, run_form setting.forgetful 1]
    revert hrequire
    rcases (require setting.forgetful (eval setting.forgetful 0) 4 "a").run afterwards with ⟨_ | _, _⟩
    · rintro ⟨⟩
      rfl
    · rintro ⟨⟩
  rw [play_twice hkept, play_twice_forgetful rfl, hcut]
  rintro ⟨rel, _ | ⟨-, _ | ⟨-, _ | ⟨hlast, -⟩⟩⟩⟩
  cases hlast with
  | some hlast => cases hlast

end Session

end SmallLisp
