import SmallLisp.Proofs.Bindings
import SmallLisp.Proofs.InPlay
import SmallLisp.Proofs.LoadStack

/-! # Sound heaps

The heap of a process is sound at every moment of a run of source texts (`Process.Reachable.sound`),
in the middle of an evaluation and after an error as well as between evaluations.  Every frame that
is mentioned anywhere is there (`Process.Mentions`).  Outward from every frame one comes, without
meeting a frame twice, to the outermost scope of a prelude that was made for an interpreter or for
the module of a file; only the frames of built-in modules stand alone, and they hold for ever what
they were made with.  No frame binds a reserved word and no function takes one as a parameter, so a
reserved word means nothing as a symbol, and at the head of a list it means its form.

That a frame comes from a prelude is a fact about the past of the moment (`Process.HasPrelude`), and
no state tells it.  What a state tells is that code is evaluated only in frames that lie in others
or else bind the names of the built-in modules (`Machine.Hosts`).  The frames of the built-in
modules do neither, so nothing is ever bound there, and nothing is made inside of them.
-/
namespace SmallLisp
open Evaluation

/-! ## Frames around frames -/

/-- The frame that lies directly around a frame. -/
def Heap.Around (h : Heap) (inner outer : FrameId) : Prop :=
  h.outer? inner = some outer

namespace Heap
variable {h : Heap} {id inner outer : FrameId}

theorem outer?_of_frame {f : Frame} (hf : h.frames[id]? = some f) : h.outer? id = f.outer? := by
  rw [outer?, hf, Option.bind_some]

theorem Around.lt (ha : h.Around inner outer) : outer < inner := by
  obtain ⟨f, hf, ho⟩ := Option.bind_eq_some_iff.1 ha
  exact h.outer_lt_of_frame hf ho

theorem lt_of_transGen_around (ha : Relation.TransGen h.Around inner outer) : outer < inner := by
  induction ha with
  | single ha => exact ha.lt
  | tail _ ha ih => exact Nat.lt_trans ha.lt ih

/-- No frame is met twice on the way outward. -/
theorem not_transGen_around (id : FrameId) : ¬ Relation.TransGen h.Around id id :=
  fun ha => Nat.lt_irrefl id (lt_of_transGen_around ha)

theorem root_of_outermost (hid : id < h.size) (ho : h.outer? id = none) : h.root id = id := by
  rw [root, chain_eq, if_pos hid, ho]
  rfl

theorem root_of_around (ha : h.Around inner outer) (hid : outer < h.size) :
    h.root inner = h.root outer := by
  obtain ⟨f, hf, -⟩ := Option.bind_eq_some_iff.1 ha
  have ha' : h.outer? inner = some outer := ha
  rw [root, chain_eq, if_pos (h.lt_size_of_frame hf), ha']
  -- the chain of a frame that is there is not empty, so it does not matter what it ends with else
  cases hchain : h.chain outer with
  | nil =>
    rw [chain_eq, if_pos hid] at hchain
    split at hchain <;> cases hchain
  | cons first rest => rw [root, List.getLastD_cons, hchain, List.getLastD_cons, List.getLastD_cons]

end Heap

/-! ## What is mentioned, and what was made -/

namespace Machine

/-- The scope in which a machine is about to evaluate an expression. -/
def Control.scope? : Control → Option FrameId
  | .expr _ _ scope => some scope
  | .value _ | .fault _ => none

/-- The values that a machine is about to do something with. -/
def Control.values : Control → List Value
  | .expr _ e _ => [e]
  | .value v => [v]
  | .fault _ => []

end Machine

namespace Process

/-- A value is in play at a moment: a frame binds it, it is a module that is kept, the evaluation in
progress holds it, or it is a part of such a value. -/
inductive InPlay (P : Process) : Value → Prop
  | bound {id : FrameId} {f : Frame} {e : String × Value}
      (hf : P.store.heap.frames[id]? = some f) (he : e ∈ f.bindings.entries) : InPlay P e.2
  | kept {path : Path} {m : Module} (hm : P.store.registry.get? path = some m) :
      InPlay P (.module m)
  | waiting {task : Machine.Task} {v : Value} (ht : task ∈ P.machine.tasks)
      (hv : v ∈ task.values) : InPlay P v
  | current {v : Value} (hv : v ∈ P.machine.control.values) : InPlay P v
  | part {u v : Value} (hv : InPlay P v) (hu : u.Part v) : InPlay P u

/-- A frame is mentioned at a moment: it lies around another one, a function or module in play lies
in it, it is the outermost scope of an interpreter, or something is evaluated in it. -/
inductive Mentions (P : Process) : FrameId → Prop
  | around {inner outer : FrameId} (ha : P.store.heap.Around inner outer) : Mentions P outer
  | value {v : Value} {id : FrameId} (hv : P.InPlay v) (hid : v.scope? = some id) : Mentions P id
  | root {id : FrameId} (hid : id ∈ P.roots) : Mentions P id
  | waiting {task : Machine.Task} (ht : task ∈ P.machine.tasks) : Mentions P task.scope
  | current {id : FrameId} (hid : P.machine.control.scope? = some id) : Mentions P id

/-- Between two moments there is the reason for a new prelude: another interpreter is opened, or the
load of a module begins. -/
def Opens (P Q : Process) : Prop :=
  Q.roots = Prelude.rootOf P.store.heap :: P.roots ∨
    Machine.BeginsLoad (Machine.loads P.machine.tasks) (Prelude.rootOf P.store.heap)
      Q.machine.tasks

/-- At or before a moment of a run of source texts a prelude was made for an interpreter or for the
module of a file; its first frame has the given number. -/
def HasPrelude (P : Process) (first : FrameId) : Prop :=
  ∃ Q R, Reachable Value.IsCode Q ∧ Step Value.IsCode Q R ∧ Later Value.IsCode R P ∧
    Q.Opens R ∧ R.store.heap = Prelude.install Q.store.heap ∧ first = Q.store.heap.size

/-- The outermost scope that was made with a prelude. -/
def IsRoot (P : Process) (id : FrameId) : Prop :=
  ∃ first, P.HasPrelude first ∧ id = first + Prelude.builtins.length

/-- A frame that was made for a built-in module together with a prelude. -/
def IsBuiltin (P : Process) (b : String × List (String × Native)) (id : FrameId) : Prop :=
  ∃ first i, P.HasPrelude first ∧ Prelude.builtins[i]? = some b ∧ id = first + i

/-- The heap of a process is sound. -/
structure Sound (P : Process) : Prop where
  /-- Every frame that is mentioned is there. -/
  exist : ∀ id, P.Mentions id → id < P.store.heap.size
  /-- The frames around one another do not make a circle. -/
  acyclic : ∀ id, ¬ Relation.TransGen P.store.heap.Around id id
  /-- Outward from a frame lies the outermost scope of a prelude, unless the frame belongs to a
  built-in module. -/
  outermost : ∀ id, id < P.store.heap.size → (∃ b, P.IsBuiltin b id) ∨
    ∃ root, P.IsRoot root ∧ Relation.ReflTransGen P.store.heap.Around id root ∧
      P.store.heap.outer? root = none ∧ P.store.heap.root id = root
  /-- The frame of a built-in module lies in no other and holds what it was made with. -/
  builtins : ∀ b id, P.IsBuiltin b id →
    P.store.heap.frames[id]? = some ⟨Prelude.table b.2, none⟩
  /-- No frame binds a reserved word. -/
  unbound : ∀ (id : FrameId) (f : Frame), P.store.heap.frames[id]? = some f →
    ∀ e ∈ f.bindings.entries, SpecialForm.isKeyword e.1 = false
  /-- No function takes a reserved word as a parameter. -/
  parameters : ∀ params body scope, P.InPlay (.fn params body scope) → ∀ name ∈ params,
    SpecialForm.isKeyword name = false
  /-- A reserved word means nothing as a symbol. -/
  undefined : ∀ (form : SpecialForm) (setting : Setting) (levels : Nat) (scope : FrameId),
    (eval setting (levels + 1) (.sym form.keyword) scope).run P.store =
      (.error (.lisp (.undefinedSymbol form.keyword)), P.store)
  /-- At the head of a list a reserved word means its form. -/
  dispatched : ∀ (form : SpecialForm) (args : List Value) (setting : Setting) (levels : Nat)
    (scope : FrameId),
    (eval setting (levels + 1) (.list (.sym form.keyword :: args)) scope).run P.store =
      (evalForm setting (eval setting (levels - 1)) (eval setting (levels - 4)) scope form
        args).run P.store

end Process

/-! ## What a prelude holds -/

theorem Table.isSome_insertAll {κ α : Type} [DecidableEq κ] (t : Table κ α)
    (bindings : List (κ × α)) (key : κ) :
    ((t.insertAll bindings).get? key).isSome ↔
      (t.get? key).isSome ∨ key ∈ bindings.map Prod.fst := by
  induction bindings generalizing t with
  | nil => exact (or_iff_left List.not_mem_nil).symm
  | cons b rest ih =>
    rw [insertAll_cons, ih, get?_insert, List.map_cons, List.mem_cons]
    by_cases heq : b.1 = key
    · simp [heq]
    · simp [heq, Ne.symm heq]

namespace Prelude

theorem names_moduleValues (first : FrameId) (modules : List (String × List (String × Native))) :
    (moduleValues first modules).map Prod.fst = modules.map Prod.fst := by
  induction modules generalizing first with
  | nil => rfl
  | cons b rest ih => exact congrArg (b.1 :: ·) (ih (first + 1))

/-- The outermost scope of a prelude binds the names of the built-in modules. -/
theorem isSome_bindings (first : FrameId) {b : String × List (String × Native)}
    (hb : b ∈ builtins) : ((bindings first).get? b.1).isSome := by
  have hname : b.1 ∈ (moduleValues first builtins).map Prod.fst := by
    rw [names_moduleValues]
    exact List.mem_map_of_mem hb
  exact (Table.isSome_insertAll ..).2 (.inl ((Table.isSome_insertAll ..).2 (.inr hname)))

/-- No built-in module has members by the names of all of them. -/
theorem exists_not_isSome_table : ∀ b ∈ builtins, ∃ c ∈ builtins,
    ((table b.2).get? c.1).isSome = false := by
  decide

theorem frames_builtins {b : String × List (String × Native)} {first i : Nat}
    (hb : builtins[i]? = some b) : (frames first)[i]? = some ⟨table b.2, none⟩ := by
  have hi : i < builtins.length := (List.getElem?_eq_some_iff.1 hb).1
  rw [frames, List.getElem?_append_left (by rwa [List.length_map]), List.getElem?_map, hb]
  rfl

/-- A new prelude has a frame for each of the built-in modules. -/
theorem install_builtins (h : Heap) {b : String × List (String × Native)} {i : Nat}
    (hb : builtins[i]? = some b) :
    (install h).frames[h.size + i]? = some ⟨table b.2, none⟩ := by
  rw [Heap.frames_install, if_neg (Nat.not_lt.2 (Nat.le_add_right _ _)), Nat.add_sub_cancel_left]
  exact frames_builtins hb

/-- A new prelude ends with its outermost scope. -/
theorem install_rootOf (h : Heap) :
    (install h).frames[rootOf h]? = some ⟨bindings h.size, none⟩ := by
  rw [Heap.frames_install, if_neg (Nat.not_lt.2 h.size_le_rootOf), rootOf,
    Nat.add_sub_cancel_left]
  rfl

end Prelude

/-! ## Frames in which code is evaluated -/

namespace Machine

/-- Code may be evaluated in a frame: the frame is there, and if it lies in no other, then it binds
the names of the built-in modules. -/
def Hosts (h : Heap) (id : FrameId) : Prop :=
  ∃ f, h.frames[id]? = some f ∧
    (f.outer? = none → ∀ b ∈ Prelude.builtins, (f.bindings.get? b.1).isSome)

/-- A function lies in a frame in which code may be evaluated, and it takes no reserved words; a
module lies in such a frame as well, or else is built in. -/
def Placed (h : Heap) : Value → Prop
  | .fn params _ scope => Hosts h scope ∧ ∀ name ∈ params, SpecialForm.isKeyword name = false
  | .module m =>
    Hosts h m.scope ∨
      ∃ b ∈ Prelude.builtins, h.frames[m.scope]? = some ⟨Prelude.table b.2, none⟩
  | _ => True

/-- Functions and modules are well placed, and no reserved word is bound. -/
def Policy.placing : Policy where
  admits := Placed
  hosts := Hosts
  evaluates _ := True
  binds name := SpecialForm.isKeyword name = false

variable {h h' : Heap} {id : FrameId} {opens : Prop} {b : String × List (String × Native)}

theorem Hosts.lt_size (hid : Hosts h id) : id < h.size := by
  obtain ⟨f, hf, -⟩ := hid
  exact h.lt_size_of_frame hf

/-- No code is evaluated in the frame of a built-in module. -/
theorem not_hosts_of_builtin (hb : b ∈ Prelude.builtins)
    (hf : h.frames[id]? = some ⟨Prelude.table b.2, none⟩) : ¬ Hosts h id := by
  rintro ⟨f, hf', hbinds⟩
  rw [hf] at hf'
  cases hf'
  obtain ⟨c, hc, hnone⟩ := Prelude.exists_not_isSome_table b hb
  have hsome := hbinds rfl c hc
  rw [hnone] at hsome
  cases hsome

/-- The frames of built-in modules stay as they are. -/
theorem builtin_grows (hg : Policy.placing.Grows opens h h') (hb : b ∈ Prelude.builtins)
    (hf : h.frames[id]? = some ⟨Prelude.table b.2, none⟩) :
    h'.frames[id]? = some ⟨Prelude.table b.2, none⟩ := by
  have hlt := h.lt_size_of_frame hf
  cases hg with
  | same => exact hf
  | @define target name v hid =>
    have hne : id ≠ target := by
      rintro rfl
      exact not_hosts_of_builtin hb hf hid
    rwa [Heap.frames_define_of_ne _ _ _ hne]
  | enter => rwa [Heap.frames_alloc_of_lt _ hlt]
  | install => rwa [Heap.frames_install_of_lt _ hlt]

theorem Hosts.grows (hg : Policy.placing.Grows opens h h') (hid : Hosts h id) : Hosts h' id := by
  obtain ⟨f, hf, hbinds⟩ := hid
  have hlt := h.lt_size_of_frame hf
  cases hg with
  | same => exact ⟨f, hf, hbinds⟩
  | @define target name v =>
    by_cases heq : id = target
    · subst heq
      refine ⟨⟨f.bindings.insert name v, f.outer?⟩, ?_, fun ho b hb => ?_⟩
      · rw [Heap.frames_define, if_pos rfl, hf]
        rfl
      · rw [Table.get?_insert]
        split
        · rfl
        · exact hbinds ho b hb
    · exact ⟨f, by rwa [Heap.frames_define_of_ne _ _ _ heq], hbinds⟩
  | enter => exact ⟨f, by rwa [Heap.frames_alloc_of_lt _ hlt], hbinds⟩
  | install => exact ⟨f, by rwa [Heap.frames_install_of_lt _ hlt], hbinds⟩

theorem hosts_alloc (bindings : Table String Value) {scope : FrameId} (hs : Hosts h scope) :
    Hosts (h.alloc (some scope) bindings) h.size :=
  ⟨_, h.frames_alloc_in hs.lt_size bindings, nofun⟩

theorem hosts_install (h : Heap) : Hosts (Prelude.install h) (Prelude.rootOf h) :=
  ⟨_, Prelude.install_rootOf h, fun _ _ hb => Prelude.isSome_bindings h.size hb⟩

/-- The placing of functions, modules and bindings goes along with what an evaluation does. -/
theorem Policy.lawful_placing : Policy.placing.Lawful where
  admits_grows := by
    intro opens h h' u hg hu
    cases u with
    | fn params body scope => exact ⟨hu.1.grows hg, hu.2⟩
    | module m =>
      rcases hu with hu | ⟨b, hb, hf⟩
      · exact .inl (hu.grows hg)
      · exact .inr ⟨b, hb, builtin_grows hg hb hf⟩
    | _ => exact trivial
  hosts_grows hg hid := hid.grows hg
  hosts_alloc bindings hs := Machine.hosts_alloc bindings hs
  hosts_install := Machine.hosts_install
  admits_builtin h i b hb := .inr ⟨b, List.mem_of_getElem? hb, Prelude.install_builtins h hb⟩
  admits_module hm := .inl hm
  admits_lambda hs _ hnames := ⟨hs, (of_parameters hnames).2⟩
  body hf := ⟨hf.1, trivial, hf.2⟩
  binds_of_free hname := hname
  evaluates_item _ _ _ _ := trivial

end Machine

/-! ## Policies over whole runs -/

namespace Machine

section Obeyed
variable {p : Policy} {h : Heap} {task : Task} {control : Control}

theorem Task.Obeys.hosts_scope (ht : task.Obeys p h) : p.hosts h task.scope := by
  cases task with
  | specifier levels scope => exact ht
  | _ => exact ht.1

theorem Task.Obeys.allows_values (ht : task.Obeys p h) : ∀ v ∈ task.values, p.Allows h v := by
  cases task with
  | head levels scope args => exact fun v hv => (ht.2 v hv).1
  | argument levels scope f done rest =>
    obtain ⟨-, hf, hd, hr⟩ := ht
    refine List.forall_mem_cons.2 ⟨hf, fun v hv => ?_⟩
    rcases List.mem_append.1 hv with hv | hv
    · exact hd v hv
    · exact (hr v hv).1
  | branch levels scope consequence alternative? => exact fun v hv => (ht.2 v hv).1
  | form module? levels scope rest stop? => exact fun v hv => (ht.2 v hv).1
  | definition scope name => exact List.forall_mem_nil _
  | specifier levels scope => exact List.forall_mem_nil _

theorem Control.Obeys.hosts_scope (hc : control.Obeys p h) {id : FrameId}
    (hid : control.scope? = some id) : p.hosts h id := by
  cases control with
  | expr levels e scope =>
    cases hid
    exact hc.1
  | value v => cases hid
  | fault f => cases hid

theorem Control.Obeys.allows_values (hc : control.Obeys p h) :
    ∀ v ∈ control.values, p.Allows h v := by
  cases control with
  | expr levels e scope => exact List.forall_mem_singleton.2 hc.2.1
  | value v => exact List.forall_mem_singleton.2 hc
  | fault f => exact List.forall_mem_nil _

end Obeyed

end Machine

namespace Machine.Policy
variable {p : Policy} {opens opens' : Prop} {h h' : Heap}

/-- A policy holds at a moment of a process. -/
structure Governs (p : Policy) (P : Process) : Prop where
  obeyed : p.Obeyed P.machine
  roots : ∀ root ∈ P.roots, p.hosts P.store.heap root

theorem Grows.mono (hg : p.Grows opens h h') (ho : opens → opens') : p.Grows opens' h h' := by
  cases hg with
  | same => exact .same
  | define hid hname hv => exact .define hid hname hv
  | enter hs hb => exact .enter hs hb
  | install h => exact .install (ho h)

end Machine.Policy

namespace Process
open Machine

variable {P Q R : Process}

section Policies
variable {p : Policy} (H : p.Lawful) (hall : ∀ v, p.evaluates v)
include H hall

/-- **A step of a process keeps to a lawful policy** under which everything may be evaluated. -/
theorem Step.governs (h : p.Governs P) (hs : Step Value.IsCode P Q) :
    p.Governs Q ∧ p.Grows (P.Opens Q) P.store.heap Q.store.heap := by
  obtain ⟨⟨hr, hc⟩, hroots⟩ := h
  have hidle (hi : P.Idle) : p.Ready [] P.store := hi.tasks ▸ hr
  cases hs with
  | @work m hm =>
    obtain ⟨ho, hg⟩ := H.next (fun _ _ _ _ _ => hall _) ⟨hr, hc⟩ hm
    exact ⟨⟨ho, fun root hroot => H.hosts_grows hg (hroots root hroot)⟩, hg.mono .inr⟩
  | interpreter hi =>
    have hg : ∀ opens : Prop, opens → p.Grows opens P.store.heap (Prelude.install P.store.heap) :=
      fun _ ho => .install ho
    have hready : p.Ready [] { P.store with heap := Prelude.install P.store.heap } :=
      (hidle hi).grows H (hg True trivial) fun _ _ hm => hm
    refine ⟨⟨⟨hready, .of_isCode Value.isCode_nil⟩, fun root hroot => ?_⟩, hg _ (.inl rfl)⟩
    rcases List.mem_cons.1 hroot with rfl | hroot
    · exact H.hosts_install _
    · exact H.hosts_grows (hg True trivial) (hroots root hroot)
  | @script setting root script hi hk hroot hcode =>
    have htask : Task.Obeys p P.store.heap
        (.form none setting.depthLimit root script.forms script.stop?) :=
      ⟨hroots root hroot, fun form hform => ⟨.of_isCode (hcode form hform), hall form⟩⟩
    exact ⟨⟨⟨(hidle hi).push htask, .of_isCode Value.isCode_nil⟩, hroots⟩, .same⟩
  | @call setting f args hi hk hf ha =>
    have hleads : p.Leads (loads P.machine.tasks) P.store
        (Machine.ofCall setting.writingLimit setting.depthLimit f args P.store) :=
      Policy.enter_leads H (hidle hi) _ (.of_isCode hf) fun a hmem => .of_isCode (ha a hmem)
    obtain ⟨ho, hg⟩ := hleads
    exact ⟨⟨ho, fun root hroot => H.hosts_grows hg (hroots root hroot)⟩, hg.mono .inr⟩

/-- **A lawful policy holds at every moment of a run** of source texts. -/
theorem Reachable.governs (h : Reachable Value.IsCode P) : p.Governs P := by
  obtain ⟨setting, -, hl⟩ := h
  induction hl with
  | refl =>
    have hframes : ∀ (id : FrameId) (f : Frame), Heap.empty.frames[id]? = some f →
        p.Furnishes Heap.empty f := fun id f hf => by cases hf
    exact ⟨⟨⟨hframes, nofun, nofun⟩, .of_isCode Value.isCode_nil⟩, nofun⟩
  | tail _ hs ih => exact (hs.governs H hall ih).1

end Policies

theorem Reachable.placed (h : Reachable Value.IsCode P) : Policy.placing.Governs P :=
  h.governs Policy.lawful_placing fun _ => trivial

theorem Step.grows (h : Reachable Value.IsCode P) (hs : Step Value.IsCode P Q) :
    Policy.placing.Grows (P.Opens Q) P.store.heap Q.store.heap :=
  (hs.governs Policy.lawful_placing (fun _ => trivial) h.placed).2

/-! ## Where frames come from -/

theorem HasPrelude.later {first : FrameId} (h : P.HasPrelude first)
    (hl : Later Value.IsCode P Q) : Q.HasPrelude first := by
  obtain ⟨Q₀, R₀, hreach, hstep, hlater, hopens⟩ := h
  exact ⟨Q₀, R₀, hreach, hstep, hlater.trans hl, hopens⟩

/-- Built-in modules keep their frames as long as a run goes on. -/
theorem Later.frames_builtin {b : String × List (String × Native)} {id : FrameId}
    (h : Reachable Value.IsCode P) (hl : Later Value.IsCode P Q) (hb : b ∈ Prelude.builtins)
    (hf : P.store.heap.frames[id]? = some ⟨Prelude.table b.2, none⟩) :
    Q.store.heap.frames[id]? = some ⟨Prelude.table b.2, none⟩ := by
  induction hl with
  | refl => exact hf
  | tail hl hs ih => exact builtin_grows (hs.grows (h.later hl)) hb ih

theorem IsBuiltin.mem {b : String × List (String × Native)} {id : FrameId}
    (h : P.IsBuiltin b id) : b ∈ Prelude.builtins := by
  obtain ⟨first, i, -, hb, -⟩ := h
  exact List.mem_of_getElem? hb

theorem IsBuiltin.frame {b : String × List (String × Native)} {id : FrameId}
    (h : P.IsBuiltin b id) : P.store.heap.frames[id]? = some ⟨Prelude.table b.2, none⟩ := by
  obtain ⟨first, i, ⟨Q, R, hreach, hstep, hlater, -, hheap, rfl⟩, hb, rfl⟩ := h
  have hmade : R.store.heap.frames[Q.store.heap.size + i]? = some ⟨Prelude.table b.2, none⟩ := by
    rw [hheap]
    exact Prelude.install_builtins Q.store.heap hb
  exact Later.frames_builtin (hreach.later (.single hstep)) hlater (List.mem_of_getElem? hb) hmade

/-- A frame in a heap that has grown was there, lies in a frame that was there, or is new with a
prelude. -/
theorem origin_of_grows {opens : Prop} {h h' : Heap} (hg : Policy.placing.Grows opens h h')
    {id : FrameId} {f : Frame} (hf : h'.frames[id]? = some f) (ho : f.outer? = none) :
    (∃ f', h.frames[id]? = some f' ∧ f'.outer? = none) ∨
      opens ∧ h' = Prelude.install h ∧ h.size ≤ id ∧ id ≤ h.size + Prelude.builtins.length := by
  cases hg with
  | same => exact .inl ⟨f, hf, ho⟩
  | @define target name v =>
    rw [Heap.frames_define] at hf
    split at hf
    next heq =>
      obtain ⟨f', hf', rfl⟩ := Option.map_eq_some_iff.1 hf
      exact .inl ⟨f', heq ▸ hf', ho⟩
    next => exact .inl ⟨f, hf, ho⟩
  | @enter scope bindings hscope =>
    by_cases heq : id = h.size
    · rw [heq, h.frames_alloc_in hscope.lt_size] at hf
      cases hf
      cases ho
    · exact .inl ⟨f, by rwa [Heap.frames_alloc, if_neg heq] at hf, ho⟩
  | install hopens =>
    rcases Nat.lt_or_ge id h.size with hlt | hge
    · exact .inl ⟨f, by rwa [Heap.frames_install_of_lt _ hlt] at hf, ho⟩
    · have hid := (Prelude.install h).lt_size_of_frame hf
      rw [Prelude.size_install, Prelude.rootOf] at hid
      exact .inr ⟨hopens, rfl, hge, Nat.le_of_lt_succ hid⟩

/-- **A frame that lies in no other was made with a prelude.** -/
theorem Reachable.origin (h : Reachable Value.IsCode P) {id : FrameId} {f : Frame}
    (hf : P.store.heap.frames[id]? = some f) (ho : f.outer? = none) :
    ∃ first, P.HasPrelude first ∧ first ≤ id ∧ id ≤ first + Prelude.builtins.length := by
  obtain ⟨setting, hk, hl⟩ := h
  induction hl generalizing id f with
  | refl => cases hf
  | @tail Q R hl hs ih =>
    have hreach : Reachable Value.IsCode Q := ⟨setting, hk, hl⟩
    rcases origin_of_grows (hs.grows hreach) hf ho with ⟨f', hf', ho'⟩ | ⟨hopens, hheap, hid⟩
    · obtain ⟨first, hfirst, hbounds⟩ := ih hf' ho'
      exact ⟨first, hfirst.later (.single hs), hbounds⟩
    · exact ⟨_, ⟨Q, R, hreach, hs, .refl, hopens, hheap, rfl⟩, hid⟩

/-- **Outward lies the outermost scope of a prelude.** -/
theorem Reachable.outermost (h : Reachable Value.IsCode P) (id : FrameId)
    (hid : id < P.store.heap.size) : (∃ b, P.IsBuiltin b id) ∨
      ∃ root, P.IsRoot root ∧ Relation.ReflTransGen P.store.heap.Around id root ∧
        P.store.heap.outer? root = none ∧ P.store.heap.root id = root := by
  -- frames lie in frames with smaller numbers
  induction id using Nat.strongRecOn with
  | ind id ih =>
    obtain ⟨f, hf⟩ := P.store.heap.frame_of_lt_size hid
    cases ho : f.outer? with
    | none =>
      obtain ⟨first, hfirst, hge, hle⟩ := h.origin hf ho
      have hnone := (Heap.outer?_of_frame hf).trans ho
      rcases Nat.lt_or_eq_of_le hle with hlt | rfl
      · have hi : id - first < Prelude.builtins.length := Nat.sub_lt_left_of_lt_add hge hlt
        exact .inl ⟨_, first, id - first, hfirst, List.getElem?_eq_getElem hi,
          (Nat.add_sub_cancel' hge).symm⟩
      · exact .inr ⟨_, ⟨first, hfirst, rfl⟩, .refl, hnone, Heap.root_of_outermost hid hnone⟩
    | some outer =>
      have haround : P.store.heap.Around id outer := (Heap.outer?_of_frame hf).trans ho
      have hhosts : Hosts P.store.heap outer :=
        (h.placed.obeyed.ready.frames id f hf).outer outer ho
      -- nothing lies in the frame of a built-in module, for no code is evaluated there
      rcases ih outer haround.lt hhosts.lt_size with ⟨b, hb⟩ | ⟨root, hroot, hpath, hnone, heq⟩
      · exact absurd hhosts (not_hosts_of_builtin hb.mem hb.frame)
      · exact .inr ⟨root, hroot, .head haround hpath, hnone,
          (Heap.root_of_around haround hhosts.lt_size).trans heq⟩

/-! ## Soundness -/

/-- What is in play is well placed. -/
theorem InPlay.allows {v : Value} (hv : P.InPlay v) (h : Policy.placing.Obeyed P.machine) :
    Policy.placing.Allows P.store.heap v := by
  induction hv with
  | bound hf he => exact ((h.ready.frames _ _ hf).bindings _ he).2
  | kept hm => exact Policy.allows_module (h.ready.modules _ _ hm)
  | waiting ht hv => exact (h.ready.tasks _ ht).allows_values _ hv
  | current hv => exact h.control.allows_values _ hv
  | part _ hu ih => exact ih.of_part hu

/-- A function or module that is well placed lies in a frame that is there. -/
theorem lt_size_of_placed {heap : Heap} {v : Value} {id : FrameId} (hv : Placed heap v)
    (hid : v.scope? = some id) : id < heap.size := by
  cases v with
  | fn params body scope =>
    cases hid
    exact hv.1.lt_size
  | module m =>
    cases hid
    rcases hv with hv | ⟨b, -, hf⟩
    · exact hv.lt_size
    · exact heap.lt_size_of_frame hf
  | _ => cases hid

theorem Reachable.exist (h : Reachable Value.IsCode P) (id : FrameId) (hid : P.Mentions id) :
    id < P.store.heap.size := by
  have hplaced := h.placed
  cases hid with
  | around ha =>
    obtain ⟨f, hf, -⟩ := Option.bind_eq_some_iff.1 ha
    exact Nat.lt_trans ha.lt (P.store.heap.lt_size_of_frame hf)
  | @value v id hv hid =>
    have hsome : v.scope? ≠ none := by
      rw [hid]
      nofun
    exact lt_size_of_placed (hv.allows hplaced.obeyed v .self hsome) hid
  | root hid => exact (hplaced.roots id hid).lt_size
  | waiting ht => exact (hplaced.obeyed.ready.tasks _ ht).hosts_scope.lt_size
  | current hid => exact (hplaced.obeyed.control.hosts_scope hid).lt_size

theorem splitQualified_keyword (form : SpecialForm) : splitQualified form.keyword = none := by
  cases form <;> decide

/-- A name that no frame binds means nothing. -/
theorem resolve_of_unbound {heap : Heap} {name : String} (hplain : splitQualified name = none)
    (hnone : ∀ (id : FrameId) (f : Frame), heap.frames[id]? = some f →
      ∀ e ∈ f.bindings.entries, e.1 ≠ name)
    (scope : FrameId) : Scope.resolve heap scope name = .error (.undefinedSymbol name) := by
  have hget : heap.get? scope name = none := by
    refine List.findSome?_eq_none_iff.2 fun id _ => ?_
    rw [Heap.own?_eq]
    cases hf : heap.frames[id]? with
    | none => rfl
    | some f =>
      cases hv : f.bindings.get? name with
      | none => exact hv
      | some v => exact absurd rfl (hnone id f hf _ (Table.mem_of_get? hv))
  rw [Scope.resolve, hplain]
  show Scope.plain heap scope name = _
  rw [Scope.plain, hget]

/-- **The heap is sound at every moment** of a run of source texts. -/
theorem Reachable.sound (h : Reachable Value.IsCode P) : P.Sound where
  exist := h.exist
  acyclic := Heap.not_transGen_around
  outermost := h.outermost
  builtins _ _ hb := hb.frame
  unbound id f hf e he := ((h.placed.obeyed.ready.frames id f hf).bindings e he).1
  parameters _ _ _ hv := (hv.allows h.placed.obeyed _ .self nofun).2
  undefined form setting levels scope := by
    have hunbound : ∀ (id : FrameId) (f : Frame), P.store.heap.frames[id]? = some f →
        ∀ e ∈ f.bindings.entries, e.1 ≠ form.keyword := by
      rintro id f hf e he heq
      have hfree : SpecialForm.isKeyword e.1 = false :=
        ((h.placed.obeyed.ready.frames id f hf).bindings e he).1
      have hkeyword : SpecialForm.isKeyword e.1 = true := by
        rw [heq, SpecialForm.isKeyword, SpecialForm.ofKeyword?_keyword]
        rfl
      rw [hkeyword] at hfree
      cases hfree
    rw [eval_succ, run_step_sym, resolve_of_unbound (splitQualified_keyword form) hunbound]
    rfl
  dispatched form args setting levels scope := by
    rw [eval_succ, step_form _ _ _ (SpecialForm.ofKeyword?_keyword form)]

/-- While a file that requires itself is being loaded, the heap is sound. -/
theorem sound_of_self_require :
    Reachable Value.IsCode SelfFile.asking ∧ SelfFile.asking.Sound :=
  ⟨SelfFile.reachable_asking, SelfFile.reachable_asking.sound⟩

end Process

end SmallLisp
