import SmallLisp.Proofs.Confinement
import SmallLisp.Proofs.NativeLikeness

/-! # Modules and their copies

Beside a process that keeps the modules it has loaded stands one that keeps none and evaluates a
file anew at each `require` (`Setting.forgetful`).  Where the first gives one frame again and again,
the second makes a copy each time, so frames correspond one to many: each frame of the second
process is the copy of one frame of the first (`Heap.Copies`).

Values are written to frames that an evaluation in progress works in, and to no others.  Of these
active frames there is one copy each; of a module, which nothing is ever written to again, there may
be any number (`Mirrors`).  That every module that is kept can be had again, as a copy, by
evaluating its file anew is a property of the first process alone (`Kept`).

`Follows` says of two actions that the second does what the first does, up to copies, unless it is
cut off for going too deep; actions in sequence follow one another if their parts do
(`Follows.bind`).
-/
namespace SmallLisp
open SmallLisp.Action Evaluation

/-- The same setting, except that no module is kept. -/
def Setting.forgetful (setting : Setting) : Setting :=
  { setting with keepsModules := false }

/-- In the second heap are copies of frames of the first, every one of a single frame. -/
structure Heap.Copies (rel : FrameId → FrameId → Prop) (h h' : Heap) : Prop where
  alike : h.Alike rel h'
  lt : ∀ a b, rel a b → a < h.size ∧ b < h'.size
  original : ∀ {a x b}, rel a b → rel x b → x = a

/-- The frames of two new preludes correspond in their order. -/
def Prelude.pairs (h h' : Heap) (a b : Nat) : Prop :=
  ∃ i, i ≤ builtins.length ∧ a = h.size + i ∧ b = h'.size + i

section Definitions
variable (setting : Setting) (T : List Printed → List Printed → Prop) (active : FrameId → Prop)
variable (rel : FrameId → FrameId → Prop)

/-- While nothing that is kept is being loaded, the file of a module, if it is evaluated anew, gives
a copy of the module in new frames, unless the evaluation is cut off.  It copies no active frame. -/
def Reloads (s : Store) (path : Path) (m : Module) : Prop :=
  ∀ (levels : Nat) (s' : Store), (∀ q ∈ s'.registry.loading, s.registry.get? q = none) →
    let o := (load setting.forgetful (eval setting.forgetful levels) path).run s'
    o.1 = .error .tooDeep ∨ ∃ rel copy, o.1 = .ok ⟨m.name, copy⟩ ∧ rel m.scope copy ∧
      Heap.Copies rel s.heap o.2.heap ∧ ∀ a b, rel a b → ¬ active a ∧ s'.heap.size ≤ b

/-- The modules that are kept can be had again by evaluating their files. -/
structure Kept (s : Store) : Prop where
  apart : s.registry.Apart
  active_lt : ∀ a, active a → a < s.heap.size
  reloads : ∀ path m, s.registry.get? path = some m → Reloads setting active s path m

/-- A relation between what two processes printed that outlasts common lines, and loads of the same
file whatever they print. -/
structure Talks : Prop where
  lines : ∀ (out : List Printed) {xs ys : List Printed}, T xs ys → T (out ++ xs) (out ++ ys)
  loads : ∀ {active : FrameId → Prop} {s s' : Store} (path : Path) (levels levels' : Nat),
    Kept setting active s → T s.printed s'.printed →
      T ((load setting (eval setting levels) path).run s).2.printed
        ((load setting.forgetful (eval setting.forgetful levels') path).run s').2.printed

/-- The second process mirrors the first: it has copies of some of its frames, of an active frame
one at most. -/
structure Mirrors (s s' : Store) : Prop where
  copies : Heap.Copies rel s.heap s'.heap
  single : ∀ {a b y}, active a → rel a b → rel a y → y = b
  kept : Kept setting active s
  talk : T s.printed s'.printed

/-- There are more copies, all of them in new frames, and none of an active frame. -/
structure Grown (s' : Store) (rel' : FrameId → FrameId → Prop) (t' : Store) : Prop where
  more : ∀ a b, rel a b → rel' a b
  new : ∀ a b, rel' a b → rel a b ∨ (¬ active a ∧ s'.heap.size ≤ b)
  size_le : s'.heap.size ≤ t'.heap.size
  loading : t'.registry.loading = s'.registry.loading

/-- What is being loaded does not keep the second process from doing what ended so in the first:
none of it has a module then, and if there was a fault the two have been loading the same. -/
structure Allows {α : Type} (s s' : Store) (o : Except Fault α × Store) : Prop where
  unkept : ∀ q ∈ s'.registry.loading, o.2.registry.get? q = none
  loading : ∀ e, o.1 = .error e → s.registry.loading = s'.registry.loading

/-- The ends of two actions of which the second does what the first does, up to copies: unless it is
cut off for going too deep, or the first one is, which then has fewer levels. -/
inductive Ends {α β : Type} (deeper : Prop) (R : (FrameId → FrameId → Prop) → α → β → Prop)
    (s' : Store) : Except Fault α × Store → Except Fault β × Store → Prop
  | cut {o : Except Fault α × Store} {t' : Store} : Ends deeper R s' o (.error .tooDeep, t')
  | deeper {t : Store} {o' : Except Fault β × Store} :
      deeper → Ends deeper R s' (.error .tooDeep, t) o'
  | alike {rel' : FrameId → FrameId → Prop} {r : Except Fault α} {r' : Except Fault β}
      {t t' : Store} : Grown active rel s' rel' t' → Mirrors setting T active rel' t t' →
        Agree (R rel') r r' → Ends deeper R s' (r, t) (r', t')

/-- The second action does what the first does, in states of which the second mirrors the first. -/
def Follows {α β : Type} (deeper : Prop) (R : (FrameId → FrameId → Prop) → α → β → Prop)
    (s s' : Store) (x : Action α) (x' : Action β) : Prop :=
  Mirrors setting T active rel s s' → Allows s s' (x.run s) →
    Ends setting T active rel deeper R s' (x.run s) (x'.run s')

end Definitions

variable {setting : Setting} {T : List Printed → List Printed → Prop}
variable {active active' : FrameId → Prop} {rel rel' rel'' : FrameId → FrameId → Prop}
variable {s s' t t' u' : Store}

/-- What is printed need not matter. -/
theorem talks_anything : Talks setting fun _ _ => True :=
  ⟨fun _ _ _ _ => trivial, fun _ _ _ _ _ => trivial⟩

/-! ## More copies -/

namespace Grown

theorem refl : Grown active rel s' rel s' :=
  ⟨fun _ _ h => h, fun _ _ h => .inl h, Nat.le_refl _, rfl⟩

theorem trans (h : Grown active rel s' rel' t') (h' : Grown active rel' t' rel'' u') :
    Grown active rel s' rel'' u' where
  more a b hab := h'.more a b (h.more a b hab)
  new a b hab := by
    rcases h'.new a b hab with hab | ⟨ha, hb⟩
    · exact h.new a b hab
    · exact .inr ⟨ha, Nat.le_trans h.size_le hb⟩
  size_le := Nat.le_trans h.size_le h'.size_le
  loading := h'.loading.trans h.loading

theorem mono (h : Grown active' rel s' rel' t') (ha : ∀ a, active a → active' a) :
    Grown active rel s' rel' t' where
  more := h.more
  new a b hab := (h.new a b hab).imp_right fun hn => ⟨fun hact => hn.1 (ha a hact), hn.2⟩
  size_le := h.size_le
  loading := h.loading

end Grown

/-! ## Modules that can be had again -/

/-- What is written to active frames, and more frames and more modules, leave it possible to have a
module again. -/
theorem Reloads.mono {path : Path} {m : Module} (h : Reloads setting active s path m)
    (ha : ∀ a, active' a → a < s.heap.size → active a)
    (hf : ∀ id, id < s.heap.size → ¬ active id → t.heap.frames[id]? = s.heap.frames[id]?)
    (hz : s.heap.size ≤ t.heap.size)
    (hk : ∀ q, t.registry.get? q = none → s.registry.get? q = none) :
    Reloads setting active' t path m := by
  intro levels s' hfree
  rcases h levels s' fun q hq => hk q (hfree q hq) with hcut | ⟨rel, copy, ho, hm, hc, hn⟩
  · exact .inl hcut
  · refine .inr ⟨rel, copy, ho, hm, ⟨fun a b hab => ?_, fun a b hab => ?_, hc.original⟩,
      fun a b hab => ⟨fun hact => ?_, (hn a b hab).2⟩⟩
    · rw [hf a (hc.lt a b hab).1 (hn a b hab).1]
      exact hc.alike a b hab
    · exact ⟨Nat.lt_of_lt_of_le (hc.lt a b hab).1 hz, (hc.lt a b hab).2⟩
    · exact (hn a b hab).1 (ha a hact (hc.lt a b hab).1)

/-- If the modules are the same, other active frames and more frames change nothing for them. -/
theorem Kept.mono (h : Kept setting active s) (hapart : t.registry.Apart)
    (hlt : ∀ a, active' a → a < t.heap.size)
    (ha : ∀ a, active' a → a < s.heap.size → active a)
    (hf : ∀ id, id < s.heap.size → ¬ active id → t.heap.frames[id]? = s.heap.frames[id]?)
    (hz : s.heap.size ≤ t.heap.size) (hg : ∀ q, t.registry.get? q = s.registry.get? q) :
    Kept setting active' t where
  apart := hapart
  active_lt := hlt
  reloads path m hm := by
    refine (h.reloads path m ((hg path).symm.trans hm)).mono ha hf hz fun q hq => ?_
    exact (hg q).symm.trans hq

/-! ## Heaps with copies -/

namespace Heap.Copies
variable {h h' k k' : Heap} {a b : FrameId}

/-- The first heap may get more frames. -/
theorem mono_left (H : Copies rel h h')
    (hf : ∀ id, id < h.size → k.frames[id]? = h.frames[id]?) (hz : h.size ≤ k.size) :
    Copies rel k h' where
  alike a b hab := by
    rw [hf a (H.lt a b hab).1]
    exact H.alike a b hab
  lt a b hab := ⟨Nat.lt_of_lt_of_le (H.lt a b hab).1 hz, (H.lt a b hab).2⟩
  original := H.original

/-- The second heap may get copies of other frames, or again of the same. -/
theorem union (H : Copies rel h h') (H' : Copies rel' h k')
    (hf : ∀ id, id < h'.size → k'.frames[id]? = h'.frames[id]?) (hz : h'.size ≤ k'.size)
    (hn : ∀ a b, rel' a b → h'.size ≤ b) : Copies (fun a b => rel a b ∨ rel' a b) h k' where
  alike a b hab := by
    rcases hab with hab | hab
    · rw [hf b (H.lt a b hab).2]
      exact optionRel_mono (fun _ _ hfg => hfg.mono fun _ _ => .inl) (H.alike a b hab)
    · exact optionRel_mono (fun _ _ hfg => hfg.mono fun _ _ => .inr) (H'.alike a b hab)
  lt a b hab := by
    rcases hab with hab | hab
    · exact ⟨(H.lt a b hab).1, Nat.lt_of_lt_of_le (H.lt a b hab).2 hz⟩
    · exact H'.lt a b hab
  original {a x b} hab hxb := by
    have hold {y} (hy : rel y b) : ¬ h'.size ≤ b := Nat.not_le.2 (H.lt y b hy).2
    rcases hab with hab | hab <;> rcases hxb with hxb | hxb
    · exact H.original hab hxb
    · exact absurd (hn x b hxb) (hold hab)
    · exact absurd (hn a b hab) (hold hxb)
    · exact H'.original hab hxb

/-- Alike definitions in a frame and its only copy. -/
theorem define (H : Copies rel h h') (hab : rel a b) (hs : ∀ y, rel a y → y = b) (name : String)
    {v w : Value} (hv : v.Like rel w) : Copies rel (h.define a name v) (h'.define b name w) where
  alike := by
    refine H.alike.define (fun x y hxy => ⟨?_, ?_⟩) name hv
    · rintro rfl
      exact hs y hxy
    · rintro rfl
      exact H.original hab hxy
  lt x y hxy := by
    rw [Heap.size_define, Heap.size_define]
    exact H.lt x y hxy
  original := H.original

/-- Alike new frames in frames and their copies. -/
theorem alloc (H : Copies rel h h') (hab : rel a b) {bindings bindings' : Table String Value}
    (hb : bindings.Alike rel bindings') :
    Copies (fun x y => rel x y ∨ (x = h.size ∧ y = h'.size)) (h.alloc (some a) bindings)
      (h'.alloc (some b) bindings') where
  alike := by
    have hmore : ∀ x y, rel x y → rel x y ∨ (x = h.size ∧ y = h'.size) := fun _ _ => .inl
    have hext : h.Alike (fun x y => rel x y ∨ (x = h.size ∧ y = h'.size)) h' := by
      refine H.alike.extend hmore fun x y hxy => ?_
      rcases hxy with hxy | ⟨rfl, rfl⟩
      · exact .inl hxy
      · exact .inr ⟨Nat.le_refl _, Nat.le_refl _⟩
    refine hext.alloc (fun x y hxy => ?_) (.inl hab) (hb.mono hmore)
    rcases hxy with hxy | ⟨rfl, rfl⟩
    · have hlt := H.lt x y hxy
      exact ⟨fun hx => absurd hx (Nat.ne_of_lt hlt.1), fun hy => absurd hy (Nat.ne_of_lt hlt.2)⟩
    · exact ⟨fun _ => rfl, fun _ => rfl⟩
  lt x y hxy := by
    rw [Heap.size_alloc, Heap.size_alloc]
    rcases hxy with hxy | ⟨rfl, rfl⟩
    · exact ⟨Nat.lt_succ_of_lt (H.lt x y hxy).1, Nat.lt_succ_of_lt (H.lt x y hxy).2⟩
    · exact ⟨Nat.lt_succ_self _, Nat.lt_succ_self _⟩
  original {x z y} hxy hzy := by
    rcases hxy with hxy | ⟨rfl, rfl⟩ <;> rcases hzy with hzy | ⟨rfl, hy⟩
    · exact H.original hxy hzy
    · exact absurd hy (Nat.ne_of_lt (H.lt x y hxy).2)
    · exact absurd rfl (Nat.ne_of_lt (H.lt z _ hzy).2)
    · rfl

end Heap.Copies

/-! ## Preludes -/

namespace Prelude

variable (h h' : Heap)

theorem pairs_root : pairs h h' (rootOf h) (rootOf h') :=
  ⟨builtins.length, Nat.le_refl _, rfl, rfl⟩

theorem natives_alike (functions : List (String × Native)) :
    List.Forall₂ (fun e e' : String × Value => e.1 = e'.1 ∧ e.2.Like rel e'.2)
      (functions.map fun (name, f) => (name, Value.native f))
      (functions.map fun (name, f) => (name, Value.native f)) := by
  refine List.forall₂_same.2 fun e he => ⟨rfl, ?_⟩
  obtain ⟨⟨name, f⟩, -, rfl⟩ := List.mem_map.1 he
  exact .refl_of_isCode (Value.isCode_native f)

theorem moduleValues_alike {first first' : Nat} (modules : List (String × List (String × Native)))
    (hr : ∀ i, i < modules.length → rel (first + i) (first' + i)) :
    List.Forall₂ (fun e e' : String × Value => e.1 = e'.1 ∧ e.2.Like rel e'.2)
      (moduleValues first modules) (moduleValues first' modules) := by
  induction modules generalizing first first' with
  | nil => exact .nil
  | cons m rest ih =>
    refine .cons ⟨rfl, .module (hr 0 (Nat.succ_pos _))⟩ (ih fun i hi => ?_)
    have hnext := hr (i + 1) (Nat.succ_lt_succ hi)
    rwa [Nat.add_comm i 1, ← Nat.add_assoc, ← Nat.add_assoc] at hnext

theorem frames_alike :
    List.Forall₂ (Frame.Alike (pairs h h')) (frames h.size) (frames h'.size) := by
  refine List.rel_append (List.forall₂_same.2 fun f hf => ?_) (.cons ⟨?_, .none⟩ .nil)
  · obtain ⟨b, -, rfl⟩ := List.mem_map.1 hf
    exact ⟨Table.Alike.empty.insertAll (natives_alike b.2), .none⟩
  · refine (Table.Alike.empty.insertAll (moduleValues_alike builtins fun i hi => ?_)).insertAll
      (natives_alike operators)
    exact ⟨i, Nat.le_of_lt hi, rfl, rfl⟩

/-- A new prelude is a copy of any other. -/
theorem copies : Heap.Copies (pairs h h') (install h) (install h') where
  alike := by
    rintro a b ⟨i, -, rfl, rfl⟩
    rw [Heap.frames_install, Heap.frames_install, if_neg (Nat.not_lt.2 (Nat.le_add_right _ _)),
      if_neg (Nat.not_lt.2 (Nat.le_add_right _ _)), Nat.add_sub_cancel_left, Nat.add_sub_cancel_left]
    exact optionRel_getElem? (frames_alike h h') i
  lt := by
    rintro a b ⟨i, hi, rfl, rfl⟩
    rw [size_install, size_install]
    exact ⟨Nat.lt_succ_of_le (Nat.add_le_add_left hi _), Nat.lt_succ_of_le (Nat.add_le_add_left hi _)⟩
  original := by
    rintro a x b ⟨i, -, rfl, rfl⟩ ⟨j, -, rfl, hj⟩
    rw [Nat.add_left_cancel hj]

end Prelude

/-! ## What both processes do -/

namespace Mirrors
variable {a b : FrameId}

theorem printing (h : Mirrors setting T active rel s s') (hT : Talks setting T)
    (out : List Printed) :
    Mirrors setting T active rel { s with printed := out ++ s.printed }
      { s' with printed := out ++ s'.printed } :=
  ⟨h.copies, h.single, ⟨h.kept.apart, h.kept.active_lt, h.kept.reloads⟩, hT.lines out h.talk⟩

theorem defining (h : Mirrors setting T active rel s s') (ha : active a) (hab : rel a b)
    (name : String) {v w : Value} (hv : v.Like rel w) :
    Mirrors setting T active rel (s.defining a name v) (s'.defining b name w) := by
  have hsize : (s.defining a name v).heap.size = s.heap.size := Heap.size_define _ _ _ _
  refine ⟨h.copies.define hab (fun y hy => h.single ha hab hy) name hv, h.single, ?_, h.talk⟩
  refine h.kept.mono h.kept.apart (fun x hx => ?_) (fun x hx _ => hx) (fun id _ hid => ?_)
    (Nat.le_of_eq hsize.symm) fun _ => rfl
  · rw [hsize]
    exact h.kept.active_lt x hx
  · exact Heap.frames_define_of_ne _ name v fun he => hid (he ▸ ha)

/-- The new frames of a call are active. -/
theorem entering (h : Mirrors setting T active rel s s') (hab : rel a b)
    {bindings bindings' : Table String Value} (hb : bindings.Alike rel bindings') :
    Mirrors setting T (fun x => active x ∨ x = s.heap.size)
      (fun x y => rel x y ∨ (x = s.heap.size ∧ y = s'.heap.size))
      (s.entering a bindings) (s'.entering b bindings') := by
  have hsize : (s.entering a bindings).heap.size = s.heap.size + 1 := Heap.size_alloc _ _ _
  refine ⟨h.copies.alloc hab hb, fun {x y z} hx hxy hxz => ?_, ?_, h.talk⟩
  · rcases hxy with hxy | ⟨rfl, rfl⟩ <;> rcases hxz with hxz | ⟨hx', rfl⟩
    · refine h.single (hx.resolve_right fun he => ?_) hxy hxz
      exact Nat.ne_of_lt (h.copies.lt x y hxy).1 he
    · exact absurd hx' (Nat.ne_of_lt (h.copies.lt x y hxy).1)
    · exact absurd rfl (Nat.ne_of_lt (h.copies.lt _ z hxz).1)
    · rfl
  · refine h.kept.mono h.kept.apart (fun x hx => ?_) (fun x hx hlt => ?_) (fun id hlt _ => ?_)
      (by rw [hsize]; exact Nat.le_succ _) fun _ => rfl
    · rw [hsize]
      rcases hx with hx | rfl
      · exact Nat.lt_succ_of_lt (h.kept.active_lt x hx)
      · exact Nat.lt_succ_self _
    · exact hx.resolve_right (Nat.ne_of_lt hlt)
    · exact Heap.frames_alloc_of_lt _ hlt

/-- So is the outermost scope of a new prelude. -/
theorem installing (h : Mirrors setting T active rel s s') :
    Mirrors setting T (fun id => active id ∨ id = Prelude.rootOf s.heap)
      (fun a b => rel a b ∨ Prelude.pairs s.heap s'.heap a b)
      { s with heap := Prelude.install s.heap } { s' with heap := Prelude.install s'.heap } := by
  have hold (a b : FrameId) (hab : rel a b) : a < s.heap.size := (h.copies.lt a b hab).1
  refine ⟨?_, fun {a b y} ha hab hay => ?_, ?_, h.talk⟩
  · refine (h.copies.mono_left (fun id hid => Heap.frames_install_of_lt _ hid)
      (Heap.size_le_install _)).union (Prelude.copies _ _)
      (fun id hid => Heap.frames_install_of_lt _ hid) (Heap.size_le_install _) ?_
    rintro a b ⟨i, -, rfl, rfl⟩
    exact Nat.le_add_right _ _
  · rcases hab with hab | ⟨i, -, rfl, rfl⟩ <;> rcases hay with hay | ⟨j, -, hj, rfl⟩
    · refine h.single (ha.resolve_right fun he => ?_) hab hay
      exact Nat.ne_of_lt (Heap.lt_rootOf_of_lt _ (hold a b hab)) he
    · exact absurd (hj ▸ hold a b hab) (Nat.not_lt.2 (Nat.le_add_right _ _))
    · exact absurd (hold _ y hay) (Nat.not_lt.2 (Nat.le_add_right _ _))
    · rw [Nat.add_left_cancel hj]
  · refine h.kept.mono h.kept.apart (fun a ha => ?_) (fun a ha hlt => ?_)
      (fun id hid _ => Heap.frames_install_of_lt _ hid) (Heap.size_le_install _) fun q => rfl
    · rcases ha with ha | rfl
      · exact Nat.lt_of_lt_of_le (h.kept.active_lt a ha) (Heap.size_le_install _)
      · exact Heap.rootOf_lt_install _
    · exact ha.resolve_right (Nat.ne_of_lt (Heap.lt_rootOf_of_lt _ hlt))

/-- What has been done with more active frames, and whatever was printed, has been done. -/
theorem leaving {T' : List Printed → List Printed → Prop}
    (h : Mirrors setting T' active' rel t t') (ha : ∀ a, active a → active' a)
    (hT : T t.printed t'.printed) : Mirrors setting T active rel t t' where
  copies := h.copies
  single hx := h.single (ha _ hx)
  kept := h.kept.mono h.kept.apart (fun x hx => h.kept.active_lt x (ha x hx))
    (fun x hx _ => ha x hx) (fun _ _ _ => rfl) (Nat.le_refl _) fun _ => rfl
  talk := hT

end Mirrors

/-! ## Actions that follow one another -/

/-- An action changes the registry as evaluations do, whatever the state. -/
def Growing (setting : Setting) {α : Type} (x : Action α) : Prop :=
  ∀ s : Store, s.registry.Grows setting (x.run s).2.registry

section Actions
variable {α β γ δ : Type} {deeper deeper' : Prop}
variable {R : (FrameId → FrameId → Prop) → α → β → Prop}
variable {R' : (FrameId → FrameId → Prop) → γ → δ → Prop}
variable {x : Action α} {x' : Action β}

namespace Ends
variable {o : Except Fault α × Store} {o' : Except Fault β × Store}

theorem of_cut (h : o'.1 = .error .tooDeep) : Ends setting T active rel deeper R s' o o' := by
  obtain ⟨r', t'⟩ := o'
  cases h
  exact .cut

theorem mono_deeper (h : Ends setting T active rel deeper R s' o o') (hd : deeper → deeper') :
    Ends setting T active rel deeper' R s' o o' := by
  cases h with
  | cut => exact .cut
  | deeper h => exact .deeper (hd h)
  | alike hg hm hr => exact .alike hg hm hr

/-- The copies that there were before are among those made since. -/
theorem of_grown (hg : Grown active rel s' rel' t')
    (h : Ends setting T active rel' deeper R t' o o') :
    Ends setting T active rel deeper R s' o o' := by
  cases h with
  | cut => exact .cut
  | deeper h => exact .deeper h
  | alike hg' hm hr => exact .alike (hg.trans hg') hm hr

/-- When a call is over, its scope is not active any more. -/
theorem of_entering {outer' : FrameId} {bindings' : Table String Value}
    (hm : Mirrors setting T active rel s s')
    (h : Ends setting T (fun id => active id ∨ id = s.heap.size)
      (fun x y => rel x y ∨ (x = s.heap.size ∧ y = s'.heap.size)) deeper R
      (s'.entering outer' bindings') o o') : Ends setting T active rel deeper R s' o o' := by
  cases h with
  | cut => exact .cut
  | deeper h => exact .deeper h
  | alike hg hm' hr =>
    refine .alike (Grown.trans ?_ (hg.mono fun _ => .inl)) (hm'.leaving (fun _ => .inl) hm'.talk) hr
    refine ⟨fun _ _ => .inl, fun x y hxy => hxy.imp_right ?_, ?_, rfl⟩
    · rintro ⟨rfl, rfl⟩
      exact ⟨fun hact => Nat.lt_irrefl _ (hm.kept.active_lt _ hact), Nat.le_refl _⟩
    · exact Nat.le_trans (Nat.le_succ _) (Nat.le_of_eq (Heap.size_alloc _ _ _).symm)

/-- If neither was cut off, the ends are alike. -/
theorem of_uncut (h : Ends setting T active rel deeper R s' o o')
    (huncut : o'.1 ≠ .error .tooDeep) (hd : ¬ deeper) :
    ∃ rel', Grown active rel s' rel' o'.2 ∧ Mirrors setting T active rel' o.2 o'.2 ∧
      Agree (R rel') o.1 o'.1 := by
  cases h with
  | cut => exact absurd rfl huncut
  | deeper h => exact absurd h hd
  | alike hg hm hr => exact ⟨_, hg, hm, hr⟩

end Ends

/-- What is kept after an action is kept when its first part ends. -/
theorem Allows.first {f : α → Action γ} (hk : setting.keepsModules = true)
    (hapart : s.registry.Apart) (hxg : Growing setting x) (hfg : ∀ a, Growing setting (f a))
    (ha : Allows s s' ((x >>= f).run s)) : Allows s s' (x.run s) := by
  have hgrows := hxg s
  rw [run_bind] at ha
  rcases hrun : x.run s with ⟨e | a, t⟩ <;> rw [hrun] at ha hgrows
  · exact ⟨ha.unkept, fun _ _ => ha.loading _ rfl⟩
  · refine ⟨fun q hq => ?_, nofun⟩
    rcases hget : t.registry.get? q with _ | m
    · rfl
    · have hlater := (hfg a t).kept hk (hgrows.apart hk hapart) q m hget
      have hnone := ha.unkept q hq
      rw [hlater] at hnone
      cases hnone

namespace Follows

/-- Actions that leave the state as it is and end alike. -/
theorem of_run_eq {r : Except Fault α} {r' : Except Fault β} (hx : x.run s = (r, s))
    (hx' : x'.run s' = (r', s')) (hr : Agree (R rel) r r') :
    Follows setting T active rel deeper R s s' x x' := by
  intro hm _
  rw [hx, hx']
  exact .alike .refl hm hr

theorem congr {y : Action α} {y' : Action β} (h : Follows setting T active rel deeper R s s' y y')
    (hx : x.run s = y.run s) (hx' : x'.run s' = y'.run s') :
    Follows setting T active rel deeper R s s' x x' := by
  intro hm ha
  rw [hx] at ha ⊢
  rw [hx']
  exact h hm ha

theorem pure {a : α} {b : β} (h : R rel a b) :
    Follows setting T active rel deeper R s s' (pure a) (pure b) :=
  of_run_eq (run_pure a s) (run_pure b s') (.ok h)

theorem mono_deeper (h : Follows setting T active rel deeper R s s' x x') (hd : deeper → deeper') :
    Follows setting T active rel deeper' R s s' x x' :=
  fun hm ha => (h hm ha).mono_deeper hd

/-- Actions that make the same of the results of others and leave faults to be faults. -/
theorem map {y : Action γ} {y' : Action δ} (h : Follows setting T active rel deeper R s s' x x')
    (g : Except Fault α → Except Fault γ) (g' : Except Fault β → Except Fault δ)
    (hy : y.run s = (g (x.run s).1, (x.run s).2)) (hy' : y'.run s' = (g' (x'.run s').1, (x'.run s').2))
    (hfault : ∀ e, ∃ e', g (.error e) = .error e') (hcut : g (.error .tooDeep) = .error .tooDeep)
    (hcut' : g' (.error .tooDeep) = .error .tooDeep)
    (hr : ∀ rel' r r', Agree (R rel') r r' → Agree (R' rel') (g r) (g' r')) :
    Follows setting T active rel deeper R' s s' y y' := by
  intro hm ha
  rw [hy] at ha ⊢
  rw [hy']
  have ha' : Allows s s' (x.run s) := by
    refine ⟨ha.unkept, fun e he => ?_⟩
    obtain ⟨e', he'⟩ := hfault e
    exact ha.loading e' ((congrArg g he).trans he')
  have hends := h hm ha'
  rcases hrun : x.run s with ⟨r, t⟩
  rcases hrun' : x'.run s' with ⟨r', t'⟩
  rw [hrun, hrun'] at hends
  cases hends with
  | cut => exact .of_cut hcut'
  | deeper hd =>
    rw [hcut]
    exact .deeper hd
  | alike hg hm' hrel => exact .alike hg hm' (hr _ _ _ hrel)

/-- Actions in sequence follow one another if their parts do. -/
theorem bind {f : α → Action γ} {f' : β → Action δ} (hk : setting.keepsModules = true)
    (hx : Follows setting T active rel deeper R s s' x x') (hxg : Growing setting x)
    (hfg : ∀ a, Growing setting (f a))
    (hf : ∀ rel' a b t t', (∀ x y, rel x y → rel' x y) → R rel' a b →
      Follows setting T active rel' deeper R' t t' (f a) (f' b)) :
    Follows setting T active rel deeper R' s s' (x >>= f) (x' >>= f') := by
  intro hm ha
  have hgrows := hxg s
  have hfirst := hx hm (ha.first hk hm.kept.apart hxg hfg)
  rw [run_bind] at ha ⊢
  rw [run_bind]
  rcases hrun : x.run s with ⟨r, t⟩
  rcases hrun' : x'.run s' with ⟨r', t'⟩
  rw [hrun] at ha hgrows hfirst
  rw [hrun'] at hfirst
  cases hfirst with
  | cut => exact .cut
  | deeper hd => exact .deeper hd
  | alike hg hm' hr =>
    cases hr with
    | error e => exact .alike hg hm' (.error e)
    | ok hab =>
      have hloading : t'.registry.loading = s'.registry.loading := hg.loading
      refine .of_grown hg (hf _ _ _ t t' hg.more hab hm' ⟨fun q hq => ?_, fun e he => ?_⟩)
      · exact ha.unkept q (hloading ▸ hq)
      · exact hgrows.loading.trans ((ha.loading e he).trans hloading.symm)

end Follows

end Actions

end SmallLisp
