import SmallLisp.Proofs.LoadSteps

/-! # What is in play

Much of what can be said of every moment of an evaluation has one form: the functions and modules
that stand in values are of a certain kind, code is evaluated in frames of a certain kind only, the
expressions that are evaluated have a certain shape, and names of a certain kind are bound.  A
`Policy` puts these together, and a machine obeys it (`Policy.Obeyed`) if it holds of all that is in
play: the bindings of all frames, the modules that are kept, the tasks that wait, and what is about
to be done.

A policy is lawful (`Policy.Lawful`) if it goes along with what an evaluation does: with the ways in
which a heap changes (`Policy.Grows`), with the function that a function form makes and with the
body of a function that is called.  `Policy.Lawful.next` is the step lemma for all of them: the next
moment obeys a lawful policy again, and the heap has changed in one of these ways.
-/
namespace SmallLisp
open Evaluation

/-! ## Where values come from -/

namespace Scope

theorem exists_own_of_get {h : Heap} {scope : FrameId} {name : String} {v : Value}
    (hv : h.get? scope name = some v) : ∃ id name, h.own? id name = some v := by
  obtain ⟨id, -, hv⟩ := List.exists_of_findSome?_eq_some hv
  exact ⟨id, name, hv⟩

theorem exists_own_of_plain {h : Heap} {scope : FrameId} {name : String} {v : Value}
    (hv : plain h scope name = .ok v) : ∃ id name, h.own? id name = some v := by
  unfold plain at hv
  split at hv
  next w hw =>
    cases hv
    exact exists_own_of_get hw
  · cases hv

theorem exists_own_of_member {h : Heap} {m : Module} {moduleName name : String} {v : Value}
    (hv : member h m moduleName name = .ok v) : ∃ id name, h.own? id name = some v := by
  unfold member at hv
  split at hv
  next w hw =>
    cases hv
    exact ⟨m.scope, name, hw⟩
  · cases hv

/-- Whatever a symbol means is bound in some frame. -/
theorem exists_own_of_resolve {h : Heap} {scope : FrameId} {name : String} {v : Value}
    (hv : resolve h scope name = .ok v) : ∃ id name, h.own? id name = some v := by
  unfold resolve at hv
  split at hv
  · exact exists_own_of_plain hv
  · split at hv
    · cases hv
    · exact exists_own_of_member hv
    · cases hv

theorem exists_own_of_resolveHead {h : Heap} {scope : FrameId} {name : String} {v : Value}
    (hv : resolveHead h scope name = .ok v) : ∃ id name, h.own? id name = some v := by
  unfold resolveHead at hv
  split at hv
  · exact exists_own_of_plain hv
  · simp only at hv
    split at hv
    · exact exists_own_of_member hv
    · split at hv
      · exact exists_own_of_member hv
      · split at hv <;> cases hv

end Scope

namespace Machine

/-- What may be in play while a machine runs. -/
structure Policy where
  /-- A function or a module may stand in values. -/
  admits : Heap → Value → Prop
  /-- Code may be evaluated in a frame. -/
  hosts : Heap → FrameId → Prop
  /-- A value has a shape that may be evaluated. -/
  evaluates : Value → Prop
  /-- A name may be bound. -/
  binds : String → Prop

namespace Policy

variable (p : Policy)

/-- All functions and modules in a value are admitted. -/
def Allows (h : Heap) (v : Value) : Prop :=
  ∀ u, Value.Part u v → u.scope? ≠ none → p.admits h u

/-- A value is allowed and may be evaluated. -/
def Runs (h : Heap) (e : Value) : Prop :=
  p.Allows h e ∧ p.evaluates e

/-- What a frame may bind and where it may lie. -/
structure Furnishes (h : Heap) (f : Frame) : Prop where
  bindings : ∀ e ∈ f.bindings.entries, p.binds e.1 ∧ p.Allows h e.2
  outer : ∀ o ∈ f.outer?, p.hosts h o

/-- How one step may change a heap; a prelude is only made when something is opened. -/
inductive Grows (opens : Prop) (h : Heap) : Heap → Prop
  | same : Grows opens h h
  | define {id : FrameId} {name : String} {v : Value} (hid : p.hosts h id) (hname : p.binds name)
      (hv : p.Allows h v) : Grows opens h (h.define id name v)
  | enter {scope : FrameId} {bindings : Table String Value} (hscope : p.hosts h scope)
      (hb : ∀ e ∈ bindings.entries, p.binds e.1 ∧ p.Allows h e.2) :
      Grows opens h (h.alloc (some scope) bindings)
  | install (ho : opens) : Grows opens h (Prelude.install h)

/-- A policy that goes along with what an evaluation does. -/
structure Lawful : Prop where
  admits_grows : ∀ {opens : Prop} {h h' : Heap} {u : Value}, p.Grows opens h h' → p.admits h u →
    p.admits h' u
  hosts_grows : ∀ {opens : Prop} {h h' : Heap} {id : FrameId}, p.Grows opens h h' → p.hosts h id →
    p.hosts h' id
  /-- Code may be evaluated in the frame of a call and in a new prelude. -/
  hosts_alloc : ∀ {h : Heap} {scope : FrameId} (bindings : Table String Value), p.hosts h scope →
    p.hosts (h.alloc (some scope) bindings) h.size
  hosts_install : ∀ h : Heap, p.hosts (Prelude.install h) (Prelude.rootOf h)
  /-- The modules of a new prelude and modules of files are admitted. -/
  admits_builtin : ∀ (h : Heap) (i : Nat) (b : String × List (String × Native)),
    Prelude.builtins[i]? = some b →
      p.admits (Prelude.install h) (.module ⟨"builtin:" ++ b.1, h.size + i⟩)
  admits_module : ∀ {h : Heap} {m : Module}, p.hosts h m.scope → p.admits h (.module m)
  /-- What a function form makes is admitted. -/
  admits_lambda : ∀ {h : Heap} {scope : FrameId} {params : List Value} {names : List String}
    {body : Value} {limit : Nat}, p.hosts h scope →
      p.evaluates (.list [.sym SpecialForm.lambda.keyword, .list params, body]) →
      parameters limit params = .ok names → p.admits h (.fn names body scope)
  /-- A function that is admitted may be called. -/
  body : ∀ {h : Heap} {params : List String} {body : Value} {scope : FrameId},
    p.admits h (.fn params body scope) →
      p.hosts h scope ∧ p.evaluates body ∧ ∀ name ∈ params, p.binds name
  binds_of_free : ∀ {name : String}, SpecialForm.isKeyword name = false → p.binds name
  /-- The parts of an expression are evaluated, unless it is quoted. -/
  evaluates_item : ∀ {head : Value} {args : List Value}, p.evaluates (.list (head :: args)) →
    head ≠ .sym SpecialForm.quote.keyword → ∀ a ∈ head :: args, p.evaluates a

end Policy

/-! ## Machines that obey a policy -/

section Obeyed
variable (p : Policy) (h : Heap)

/-- What a task may hold. -/
def Task.Obeys : Task → Prop
  | .head _ scope args => p.hosts h scope ∧ ∀ a ∈ args, p.Runs h a
  | .argument _ scope f done rest =>
    p.hosts h scope ∧ p.Allows h f ∧ (∀ v ∈ done, p.Allows h v) ∧ ∀ a ∈ rest, p.Runs h a
  | .definition scope name => p.hosts h scope ∧ p.binds name
  | .branch _ scope consequence alternative? =>
    p.hosts h scope ∧ ∀ e ∈ consequence :: alternative?.toList, p.Runs h e
  | .specifier _ scope => p.hosts h scope
  | .form _ _ scope rest _ => p.hosts h scope ∧ ∀ e ∈ rest, p.Runs h e

/-- What may be about to be done. -/
def Control.Obeys : Control → Prop
  | .expr _ e scope => p.hosts h scope ∧ p.Runs h e
  | .value v => p.Allows h v
  | .fault _ => True

/-- A policy holds of a store and of the tasks that wait. -/
structure Policy.Ready (tasks : List Task) (s : Store) : Prop where
  frames : ∀ (id : FrameId) (f : Frame), s.heap.frames[id]? = some f → p.Furnishes s.heap f
  modules : ∀ path m, s.registry.get? path = some m → p.admits s.heap (.module m)
  tasks : ∀ task ∈ tasks, task.Obeys p s.heap

/-- A policy holds of all that is in play. -/
structure Policy.Obeyed (m : Machine) : Prop where
  ready : p.Ready m.tasks m.store
  control : m.control.Obeys p m.store.heap

/-- While certain files are being loaded, the load of one more begins in an outermost scope. -/
def BeginsLoad (before : List Path) (root : FrameId) (tasks : List Task) : Prop :=
  ∃ path levels forms stop? outer,
    tasks = .form (some path) levels root forms stop? :: outer ∧ loads outer = before

/-- From a store, while certain files are being loaded, a machine follows that obeys the policy; a
prelude is made only for one more load. -/
def Policy.Leads (before : List Path) (s : Store) (m : Machine) : Prop :=
  p.Obeyed m ∧
    p.Grows (BeginsLoad before (Prelude.rootOf s.heap) m.tasks) s.heap m.store.heap

end Obeyed

namespace Policy

variable {p : Policy} {h h' : Heap} {opens : Prop} {v : Value}

/-! ## What is allowed stays allowed -/

theorem Allows.of_part {u : Value} (hv : p.Allows h v) (hu : u.Part v) : p.Allows h u :=
  fun w hw hs => hv w (hw.trans hu) hs

theorem Allows.of_isCode (hv : v.IsCode) : p.Allows h v :=
  fun u hu hs => absurd (hv u hu) hs

theorem Allows.item {items : List Value} (hv : p.Allows h (.list items)) :
    ∀ a ∈ items, p.Allows h a :=
  fun _ ha => hv.of_part (.item ha .self)

theorem allows_module {m : Module} (hm : p.admits h (.module m)) : p.Allows h (.module m) := by
  intro u hu _
  cases hu
  exact hm

theorem allows_fn {params : List String} {body : Value} {scope : FrameId}
    (hf : p.admits h (.fn params body scope)) (hbody : p.Allows h body) :
    p.Allows h (.fn params body scope) := by
  intro u hu hs
  rcases Value.part_fn_iff.1 hu with rfl | hu
  · exact hf
  · exact hbody u hu hs

theorem Runs.item {head : Value} {args : List Value} (H : p.Lawful)
    (he : p.Runs h (.list (head :: args))) (hq : head ≠ .sym SpecialForm.quote.keyword) :
    ∀ a ∈ head :: args, p.Runs h a :=
  fun a ha => ⟨he.1.item a ha, H.evaluates_item he.2 hq a ha⟩

/-- The frames of a new prelude are furnished as any policy wants. -/
theorem furnishes_prelude (H : p.Lawful) (h : Heap) {f : Frame} (hf : f ∈ Prelude.frames h.size) :
    p.Furnishes (Prelude.install h) f := by
  have hnative (g : Native) : p.Allows (Prelude.install h) (.native g) :=
    .of_isCode (Value.isCode_native g)
  rcases List.mem_append.1 hf with hf | hf
  · obtain ⟨b, hb, rfl⟩ := List.mem_map.1 hf
    refine ⟨fun e he => ?_, nofun⟩
    obtain ⟨g, hg, rfl⟩ := Prelude.exists_of_mem_table he
    exact ⟨H.binds_of_free ((Prelude.isKeyword_builtins b hb).2 g hg), hnative g.2⟩
  · rw [List.mem_singleton.1 hf]
    refine ⟨fun e he => ?_, nofun⟩
    rcases Prelude.exists_of_mem_bindings he with ⟨i, b, hb, rfl⟩ | ⟨g, hg, rfl⟩
    · have hfree := (Prelude.isKeyword_builtins b (List.mem_of_getElem? hb)).1
      exact ⟨H.binds_of_free hfree, allows_module (H.admits_builtin h i b hb)⟩
    · have hfree := (Prelude.isKeyword_builtins ("math", Prelude.operators) List.mem_cons_self).2
      exact ⟨H.binds_of_free (hfree g hg), hnative g.2⟩

section Growth
variable (H : p.Lawful) (hg : p.Grows opens h h')
include H hg

theorem Allows.grows (hv : p.Allows h v) : p.Allows h' v :=
  fun u hu hs => H.admits_grows hg (hv u hu hs)

theorem Runs.grows {e : Value} (he : p.Runs h e) : p.Runs h' e :=
  ⟨he.1.grows H hg, he.2⟩

theorem Furnishes.grows {f : Frame} (hf : p.Furnishes h f) : p.Furnishes h' f :=
  ⟨fun e he => ⟨(hf.bindings e he).1, (hf.bindings e he).2.grows H hg⟩,
    fun o ho => H.hosts_grows hg (hf.outer o ho)⟩

/-- The frames of a heap stay furnished when it grows. -/
theorem furnishes_grows
    (hf : ∀ (id : FrameId) (f : Frame), h.frames[id]? = some f → p.Furnishes h f) :
    ∀ (id : FrameId) (f : Frame), h'.frames[id]? = some f → p.Furnishes h' f := by
  -- what was furnished before is furnished still; so only what the step has put there is left
  have hold := fun (id : FrameId) (f : Frame) hid => (hf id f hid).grows H hg
  cases hg with
  | same => exact hold
  | @define target name v hid hname hv =>
    intro id f hframe
    rw [Heap.frames_define] at hframe
    split at hframe
    next he =>
      obtain ⟨g, hg, rfl⟩ := Option.map_eq_some_iff.1 hframe
      have hgrown : p.Grows opens h (h.define target name v) := .define hid hname hv
      refine ⟨fun e hmem => ?_, (hold target g hg).outer⟩
      rcases Table.mem_insert hmem with hmem | rfl
      · exact (hold target g hg).bindings e hmem
      · exact ⟨hname, hv.grows H hgrown⟩
    next => exact hold id f hframe
  | @enter scope bindings hscope hb =>
    intro id f hframe
    rw [Heap.frames_alloc] at hframe
    split at hframe
    next he =>
      cases hframe
      have hgrown : p.Grows opens h (h.alloc (some scope) bindings) := .enter hscope hb
      refine ⟨fun e hmem => ⟨(hb e hmem).1, (hb e hmem).2.grows H hgrown⟩, fun o ho => ?_⟩
      have ho' : (some scope).filter (· < h.size) = some o := ho
      obtain rfl : scope = o := Option.some.inj (Option.filter_eq_some_iff.1 ho').1
      exact H.hosts_grows hgrown hscope
    next => exact hold id f hframe
  | install ho =>
    intro id f hframe
    rw [Heap.frames_install] at hframe
    split at hframe
    next => exact hold id f hframe
    next => exact furnishes_prelude H h (List.mem_of_getElem? hframe)

end Growth

end Policy

/-- A task may hold more and more as the heap grows. -/
theorem Task.Obeys.grows {p : Policy} {h h' : Heap} {opens : Prop} (H : p.Lawful)
    (hg : p.Grows opens h h') {task : Task} (ht : task.Obeys p h) : task.Obeys p h' := by
  cases task with
  | head levels scope args =>
    exact ⟨H.hosts_grows hg ht.1, fun a ha => (ht.2 a ha).grows H hg⟩
  | argument levels scope f done rest =>
    obtain ⟨hs, hf, hd, hr⟩ := ht
    exact ⟨H.hosts_grows hg hs, hf.grows H hg, fun a ha => (hd a ha).grows H hg,
      fun a ha => (hr a ha).grows H hg⟩
  | definition scope name => exact ⟨H.hosts_grows hg ht.1, ht.2⟩
  | branch levels scope consequence alternative? =>
    exact ⟨H.hosts_grows hg ht.1, fun a ha => (ht.2 a ha).grows H hg⟩
  | specifier levels scope => exact H.hosts_grows hg ht
  | form module? levels scope rest stop? =>
    exact ⟨H.hosts_grows hg ht.1, fun a ha => (ht.2 a ha).grows H hg⟩

namespace Policy

section Stores
variable {p : Policy} {tasks : List Task} {task : Task} {s s' : Store} {opens : Prop} {limit : Nat}
  {before : List Path} {control : Control} {v f : Value} {args : List Value} {scope : FrameId}

namespace Ready

theorem push (hr : p.Ready tasks s) (ht : task.Obeys p s.heap) : p.Ready (task :: tasks) s :=
  ⟨hr.frames, hr.modules, List.forall_mem_cons.2 ⟨ht, hr.tasks⟩⟩

theorem pop (hr : p.Ready (task :: tasks) s) : p.Ready tasks s :=
  ⟨hr.frames, hr.modules, (List.forall_mem_cons.1 hr.tasks).2⟩

/-- A policy holds of a store of which the heap has grown, if no more modules are kept. -/
theorem grows (H : p.Lawful) (hr : p.Ready tasks s) (hg : p.Grows opens s.heap s'.heap)
    (hreg : ∀ path m, s'.registry.get? path = some m → s.registry.get? path = some m) :
    p.Ready tasks s' where
  frames := furnishes_grows H hg hr.frames
  modules path m hm := H.admits_grows hg (hr.modules path m (hreg path m hm))
  tasks task ht := (hr.tasks task ht).grows H hg

theorem allows_own (hr : p.Ready tasks s) {id : FrameId} {name : String}
    (hv : s.heap.own? id name = some v) : p.Allows s.heap v := by
  rw [Heap.own?_eq] at hv
  obtain ⟨frame, hframe, hv⟩ := Option.bind_eq_some_iff.1 hv
  exact ((hr.frames id frame hframe).bindings _ (Table.mem_of_get? hv)).2

theorem allows_get (hr : p.Ready tasks s) {name : String}
    (hv : s.heap.get? scope name = some v) : p.Allows s.heap v := by
  obtain ⟨id, name', hv⟩ := Scope.exists_own_of_get hv
  exact hr.allows_own hv

/-- A symbol means a value that is allowed. -/
theorem allows_resolve (hr : p.Ready tasks s) {name : String}
    (hv : Scope.resolve s.heap scope name = .ok v) : p.Allows s.heap v := by
  obtain ⟨id, name', hv⟩ := Scope.exists_own_of_resolve hv
  exact hr.allows_own hv

theorem allows_resolveHead (hr : p.Ready tasks s) {name : String}
    (hv : Scope.resolveHead s.heap scope name = .ok v) : p.Allows s.heap v := by
  obtain ⟨id, name', hv⟩ := Scope.exists_own_of_resolveHead hv
  exact hr.allows_own hv

end Ready

theorem Ready.keeping (hr : p.Ready tasks s) (setting : Setting) {path : Path} {m : Module}
    (hm : p.admits s.heap (.module m)) : p.Ready tasks (s.keeping setting path m) := by
  rw [Store.keeping]
  split
  · refine ⟨hr.frames, fun other m' hget => ?_, hr.tasks⟩
    rw [Registry.get?_insert] at hget
    split at hget
    · cases hget
      exact hm
    · exact hr.modules other m' hget
  · exact hr

theorem Ready.admits_kept (hr : p.Ready tasks s) {setting : Setting} {path : Path} {m : Module}
    (hm : s.kept? setting path = some m) : p.admits s.heap (.module m) := by
  rw [Store.kept?] at hm
  split at hm
  · exact hr.modules path m hm
  · cases hm

namespace Leads

/-- A step that leaves the store as it is. -/
theorem same (hr : p.Ready tasks s) (hc : control.Obeys p s.heap) :
    p.Leads before s ⟨control, tasks, s⟩ :=
  ⟨⟨hr, hc⟩, .same⟩

theorem fault (hr : p.Ready tasks s) (f : Fault) : p.Leads before s ⟨.fault f, tasks, s⟩ :=
  .same hr trivial

theorem after {result : Except Fault Value} (hr : p.Ready tasks s)
    (hv : ∀ v, result = .ok v → p.Allows s.heap v) :
    p.Leads before s (Machine.after tasks (result, s)) := by
  cases result with
  | error f => exact .fault hr f
  | ok v => exact .same hr (hv v rfl)

/-- An expression is evaluated, and a task waits for its value. -/
theorem push (hr : p.Ready tasks s) (task : Task) (ht : task.Obeys p s.heap) (levels : Nat)
    {e : Value} (hs : p.hosts s.heap scope) (he : p.Runs s.heap e) :
    p.Leads before s ⟨.expr levels e scope, task :: tasks, s⟩ :=
  .same (hr.push ht) ⟨hs, he⟩

/-- A step that changes nothing but the registry. -/
theorem of_heap_eq {t : Store} (hr : p.Ready tasks t) (heq : t.heap = s.heap)
    (hc : control.Obeys p s.heap) : p.Leads before s ⟨control, tasks, t⟩ := by
  rw [← heq] at hc
  refine ⟨⟨hr, hc⟩, ?_⟩
  rw [heq]
  exact .same

end Leads

/-! ## Calls and forms -/

theorem callNative_leads (H : p.Lawful) (hr : p.Ready tasks s) (g : Native)
    (ha : ∀ a ∈ args, p.Allows s.heap a) :
    p.Leads before s (Machine.after tasks ((callNative limit g args).run s)) := by
  obtain ⟨result, out, hrun⟩ := run_callNative limit g args
  rw [hrun]
  have hg : p.Grows True s.heap s.heap := .same
  refine ⟨⟨hr.grows H hg fun _ _ hm => hm, ?_⟩, .same⟩
  cases result with
  | error e => exact trivial
  | ok v =>
    intro u hu hs
    obtain ⟨a, hmem, hua⟩ := part_of_callNative (hrun s) hu hs
    exact ha a hmem u hua hs

theorem enter_leads (H : p.Lawful) (hr : p.Ready tasks s) (levels : Nat) (hf : p.Allows s.heap f)
    (ha : ∀ a ∈ args, p.Allows s.heap a) :
    p.Leads before s (enter limit levels f args tasks s) := by
  cases f with
  | native g => exact callNative_leads H hr g ha
  | fn params body outer =>
    simp only [enter]
    split
    · obtain ⟨houter, hbody, hparams⟩ := H.body (hf _ .self (Option.some_ne_none _))
      have hb : ∀ e ∈ (Table.empty.insertAll (params.zip args)).entries,
          p.binds e.1 ∧ p.Allows s.heap e.2 := by
        intro e he
        rcases Table.mem_insertAll he with he | he
        · cases he
        · exact ⟨hparams _ (List.of_mem_zip he).1, ha _ (List.of_mem_zip he).2⟩
      -- the body is code from where the function was made, and its frame lies in that scope
      have hg : ∀ opens, p.Grows opens s.heap
          (s.entering outer (Table.empty.insertAll (params.zip args))).heap :=
        fun _ => .enter houter hb
      have hinside : p.Allows s.heap body := hf.of_part (.body .self)
      exact ⟨⟨hr.grows H (hg True) fun _ _ hm => hm,
        H.hosts_alloc _ houter, hinside.grows H (hg True), hbody⟩, hg _⟩
    · exact .fault hr _
  | _ => exact .fault hr _

theorem continueCall_leads (H : p.Lawful) (hr : p.Ready tasks s) (levels : Nat)
    (hs : p.hosts s.heap scope) (hf : p.Allows s.heap f) {done rest : List Value}
    (hd : ∀ v ∈ done, p.Allows s.heap v) (hrest : ∀ a ∈ rest, p.Runs s.heap a) :
    p.Leads before s (continueCall limit levels scope f done rest tasks s) := by
  cases rest with
  | nil => exact enter_leads H hr levels hf fun a ha => hd a (List.mem_reverse.1 ha)
  | cons expr rest =>
    obtain ⟨hexpr, hrest⟩ := List.forall_mem_cons.1 hrest
    exact .push hr (.argument levels scope f done rest) ⟨hs, hf, hd, hrest⟩ (levels - 1) hs hexpr

theorem enterForm_leads (H : p.Lawful) (hr : p.Ready tasks s) (levels : Nat)
    (hs : p.hosts s.heap scope) {word : String} {form : SpecialForm}
    (hform : SpecialForm.ofKeyword? word = some form)
    (he : p.Runs s.heap (.list (.sym word :: args))) :
    p.Leads before s (enterForm limit levels scope form args tasks s) := by
  obtain rfl := SpecialForm.keyword_of_ofKeyword? hform
  have hallows : ∀ a ∈ args, p.Allows s.heap a :=
    fun a ha => he.1.item a (List.mem_cons_of_mem _ ha)
  have hruns (hq : form ≠ .quote) : ∀ a ∈ args, p.Runs s.heap a := by
    have hhead : Value.sym form.keyword ≠ .sym SpecialForm.quote.keyword := by
      intro heq
      injection heq with hword
      cases form with
      | quote => exact hq rfl
      | _ => exact absurd hword (by decide)
    exact fun a ha => he.item H hhead a (List.mem_cons_of_mem _ ha)
  cases formShape form args with
  | quote v => exact .same hr (hallows v List.mem_cons_self)
  | malformed hm =>
    rw [enterForm_malformed hm]
    exact .fault hr _
  | lambda params body =>
    refine .after hr fun v hv => ?_
    obtain ⟨ps, names, rfl, hnames, rfl⟩ := exists_of_lambdaResult hv
    have hbody := hallows body (List.mem_cons_of_mem _ List.mem_cons_self)
    exact allows_fn (H.admits_lambda hs he.2 hnames) hbody
  | define target expr =>
    simp only [enterForm]
    rcases hname : boundName limit target with e | name
    · exact .fault hr e
    · have hexpr := hruns (by decide) expr (List.mem_cons_of_mem _ List.mem_cons_self)
      obtain ⟨-, hfree⟩ := of_boundName hname
      exact .push hr (.definition scope name) ⟨hs, H.binds_of_free hfree⟩ (levels - 1) hs hexpr
  | conditional condition consequence alternative? =>
    rw [enterForm_conditional]
    obtain ⟨hcondition, hbranches⟩ := List.forall_mem_cons.1 (hruns (by decide))
    exact .push hr (.branch levels scope consequence alternative?) ⟨hs, hbranches⟩ (levels - 1) hs
      hcondition
  | require expr =>
    have hexpr := hruns (by decide) expr List.mem_cons_self
    exact .push hr (.specifier levels scope) hs (levels - 1) hs hexpr

theorem enterExpr_leads (H : p.Lawful) (hr : p.Ready tasks s) (levels : Nat)
    (hs : p.hosts s.heap scope) {e : Value} (he : p.Runs s.heap e) :
    p.Leads before s (enterExpr limit levels e scope tasks s) := by
  cases exprShape e with
  | symbol name => exact .after hr fun v hv => hr.allows_resolve (ok_of_mapError hv)
  | constant hc =>
    rw [enterExpr_constant hc]
    exact .same hr he.1
  | form hform args =>
    rw [enterExpr_form hform]
    exact enterForm_leads H hr levels hs hform he
  | @call head ho args =>
    have hquote : head ≠ .sym SpecialForm.quote.keyword := by
      rintro rfl
      cases ho _ rfl
    obtain ⟨hhead, hargs⟩ := List.forall_mem_cons.1 (he.item H hquote)
    rcases enterExpr_call limit levels ho args scope tasks s with ⟨word, rfl, hw⟩ | ⟨hw, -⟩
    · rw [hw]
      rcases hf : Scope.resolveHead s.heap scope word with e | f
      · exact .fault hr _
      · exact continueCall_leads H hr levels hs (hr.allows_resolveHead hf) nofun hargs
    · rw [hw]
      exact .push hr (.head levels scope args) ⟨hs, hargs⟩ levels hs hhead

/-! ## Loads -/

/-- In no file is there anything that may not be evaluated. -/
def Reads (p : Policy) (setting : Setting) : Prop :=
  ∀ (path : Path) (text : List Char), setting.files.readText setting.here path = .ok text →
    ∀ form ∈ (Script.ofText setting.nestingLimit (Text.trimStart text)).forms, p.evaluates form

theorem continueForms_leads (H : p.Lawful) (setting : Setting) (hr : p.Ready tasks s)
    (module? : Option Path) (levels : Nat) (hs : p.hosts s.heap scope) (hv : p.Allows s.heap v)
    {rest : List Value} (hrest : ∀ a ∈ rest, p.Runs s.heap a) (stop? : Option ReadingStop) :
    p.Leads before s (continueForms setting module? levels scope v rest stop? tasks s) := by
  cases rest with
  | cons form rest =>
    obtain ⟨hform, hrest⟩ := List.forall_mem_cons.1 hrest
    exact .push hr (.form module? levels scope rest stop?) ⟨hs, hrest⟩ levels hs hform
  | nil =>
    cases module? with
    | none =>
      cases stop? with
      | none => exact .same hr hv
      | some stop => exact .fault hr _
    | some path =>
      have hclosed : p.Ready tasks (s.closing path) := ⟨hr.frames, hr.modules, hr.tasks⟩
      have hmodule := H.admits_module (m := ⟨path.text, scope⟩) hs
      cases stop? with
      | none =>
        exact .of_heap_eq (hclosed.keeping setting hmodule) (Store.heap_keeping ..)
          (allows_module hmodule)
      | some stop => exact .of_heap_eq hclosed rfl trivial

theorem enterLoad_leads (H : p.Lawful) {setting : Setting} (hreads : p.Reads setting)
    (hr : p.Ready tasks s) (levels : Nat) (path : Path) :
    p.Leads (loads tasks) s (enterLoad setting levels path tasks s) := by
  have hshape := enterLoad_shape setting levels path tasks s
  generalize enterLoad setting levels path tasks s = m' at hshape ⊢
  cases hshape with
  | kept m hk => exact .same hr (allows_module (hr.admits_kept hk))
  | refused => exact .fault hr _
  | @begins text hk hn hread =>
    have hg : ∀ opens : Prop, opens → p.Grows opens s.heap (s.opening path).heap :=
      fun _ ho => .install ho
    have hready : p.Ready tasks (s.opening path) :=
      hr.grows H (hg True trivial) fun q m hm => by
        rwa [Store.opening, Registry.Grows.get?_beginLoad] at hm
    refine ⟨⟨hready.push ⟨H.hosts_install s.heap, fun form hform => ?_⟩, ?_⟩,
      hg _ ⟨_, _, _, _, _, rfl, rfl⟩⟩
    · have hcode := Script.isCode_ofText setting.nestingLimit (Text.trimStart text) form hform
      exact ⟨.of_isCode hcode, hreads path text hread form hform⟩
    · exact .of_isCode Value.isCode_nil

theorem enterRequire_leads (H : p.Lawful) {setting : Setting} (hreads : p.Reads setting)
    (hr : p.Ready tasks s) (levels : Nat) (specifier : String) :
    p.Leads (loads tasks) s (enterRequire setting levels scope specifier tasks s) := by
  have hshape := enterRequire_shape setting levels scope specifier tasks s
  generalize enterRequire setting levels scope specifier tasks s = m' at hshape ⊢
  cases hshape with
  | bound m hb =>
    obtain ⟨v, hv, hm⟩ := Option.bind_eq_some_iff.1 hb
    cases v with
    | module m' =>
      cases hm
      exact .same hr (hr.allows_get hv)
    | _ => cases hm
  | nowhere => exact .fault hr _
  | asks => exact enterLoad_leads H hreads hr levels _

/-! ## Steps and runs -/

theorem resume_leads (H : p.Lawful) {setting : Setting} (hreads : p.Reads setting)
    (hr : p.Ready tasks s) (ht : task.Obeys p s.heap) (hv : p.Allows s.heap v) :
    p.Leads (loads (task :: tasks)) s (resume setting v task tasks s) := by
  cases task with
  | head levels scope args => exact continueCall_leads H hr levels ht.1 hv nofun ht.2
  | argument levels scope f done rest =>
    obtain ⟨hs, hf, hd, hrest⟩ := ht
    exact continueCall_leads H hr levels hs hf (List.forall_mem_cons.2 ⟨hv, hd⟩) hrest
  | definition scope name =>
    have hg : ∀ opens : Prop, p.Grows opens s.heap (s.defining scope name v).heap :=
      fun _ => .define ht.1 ht.2 hv
    exact ⟨⟨hr.grows H (hg True) fun _ _ hm => hm, hv.grows H (hg True)⟩, hg _⟩
  | branch levels scope consequence alternative? =>
    obtain ⟨hs, hbranches⟩ := ht
    obtain ⟨hconsequence, halternative⟩ := List.forall_mem_cons.1 hbranches
    simp only [resume]
    split
    · exact .same hr ⟨hs, hconsequence⟩
    · cases alternative? with
      | none => exact .same hr (.of_isCode Value.isCode_nil)
      | some alternative => exact .same hr ⟨hs, halternative _ List.mem_cons_self⟩
  | specifier levels scope =>
    simp only [resume]
    rcases specifier? v with _ | specifier
    · exact .fault hr _
    · exact enterRequire_leads H hreads hr levels specifier
  | form module? levels scope rest stop? =>
    exact continueForms_leads H setting hr module? levels ht.1 hv ht.2 stop?

theorem drop_leads (hr : p.Ready tasks s) (f : Fault) (task : Task) :
    p.Leads before s (drop f task tasks s) := by
  cases task with
  | form module? levels scope rest stop? =>
    cases module? with
    | none => exact .fault hr _
    | some path =>
      have hclosed : p.Ready tasks (s.closing path) := ⟨hr.frames, hr.modules, hr.tasks⟩
      exact .of_heap_eq hclosed rfl trivial
  | _ => exact .fault hr _

end Stores

/-- **A step keeps to a lawful policy**, and it changes the heap in one of the ways that the policy
goes along with; a prelude is made if one more file is being loaded. -/
theorem Lawful.next {p : Policy} (H : p.Lawful) {setting : Setting} (hreads : p.Reads setting)
    {m m' : Machine} (ho : p.Obeyed m) (hm : m.next setting = some m') :
    p.Leads (loads m.tasks) m.store m' := by
  obtain ⟨control, tasks, s⟩ := m
  obtain ⟨hr, hc⟩ := ho
  cases control with
  | expr levels e scope =>
    cases levels with
    | zero =>
      cases hm
      exact .fault hr _
    | succ levels =>
      cases hm
      exact enterExpr_leads H hr levels hc.1 hc.2
  | value v =>
    cases tasks with
    | nil => cases hm
    | cons task tasks =>
      cases hm
      exact resume_leads H hreads hr.pop (hr.tasks task List.mem_cons_self) hc
  | fault f =>
    cases tasks with
    | nil => cases hm
    | cons task tasks =>
      cases hm
      exact drop_leads hr.pop f task

end Policy

end Machine

end SmallLisp
