import Mathlib.Data.List.Forall2
import SmallLisp.Proofs.Code
import SmallLisp.Proofs.Frames
import SmallLisp.Scope

/-! # Values that differ in their frames alone

The number of a frame is a name and nothing more: no function of the language can tell it, and
two states whose frames correspond, one to one or one to many, are the same to every expression.
`Value.Like` compares two values up to a correspondence of frames, and `Heap.Alike` says that the
frames that correspond hold alike bindings, so that following names, outer frames and members
never leaves the correspondence.

What the language does with values respects likeness: texts are the same (`Value.Like.write`),
and names mean alike values (`Scope.resolve_alike`, `Scope.resolveHead_alike`).
-/
namespace SmallLisp

variable {rel rel' : FrameId → FrameId → Prop}

/-! ## Values -/

/-- Values that are the same but for frames, which correspond. -/
inductive Value.Like (rel : FrameId → FrameId → Prop) : Value → Value → Prop
  | atom {v : Value} (hs : v.scope? = none) (hl : ∀ items, v ≠ .list items) : Like rel v v
  | list {vs ws : List Value} (hl : vs.length = ws.length)
      (h : ∀ i hv hw, Like rel (vs.get ⟨i, hv⟩) (ws.get ⟨i, hw⟩)) : Like rel (.list vs) (.list ws)
  | fn {params : List String} {body body' : Value} {scope scope' : FrameId} :
      Like rel body body' → rel scope scope' →
        Like rel (.fn params body scope) (.fn params body' scope')
  | module {name : String} {scope scope' : FrameId} :
      rel scope scope' → Like rel (.module ⟨name, scope⟩) (.module ⟨name, scope'⟩)

/-- Results that end with the same fault, or else with values in a relation. -/
inductive Agree {α β : Type} (r : α → β → Prop) : Except Fault α → Except Fault β → Prop
  | ok {a : α} {b : β} : r a b → Agree r (.ok a) (.ok b)
  | error (e : Fault) : Agree r (.error e) (.error e)

namespace Agree

variable {α β γ δ : Type} {r : α → β → Prop} {r' : γ → δ → Prop}

theorem of_error_eq {e e' : Fault} (h : e = e') :
    Agree r (.error e : Except Fault α) (.error e' : Except Fault β) :=
  h ▸ .error e

theorem mono {r₁ : α → β → Prop} (hr : ∀ a b, r a b → r₁ a b) {x : Except Fault α}
    {y : Except Fault β} (h : Agree r x y) : Agree r₁ x y := by
  cases h with
  | ok h => exact .ok (hr _ _ h)
  | error e => exact .error e

theorem bind {x : Except Fault α} {y : Except Fault β} {f : α → Except Fault γ}
    {g : β → Except Fault δ} (h : Agree r x y) (hf : ∀ a b, r a b → Agree r' (f a) (g b)) :
    Agree r' (x >>= f) (y >>= g) := by
  cases h with
  | ok h => exact hf _ _ h
  | error e => exact .error e

end Agree

namespace Value.Like

variable {v w : Value} {vs ws : List Value}

theorem list_iff : Like rel (.list vs) (.list ws) ↔ List.Forall₂ (Like rel) vs ws := by
  rw [List.forall₂_iff_get]
  constructor
  · intro h
    cases h with
    | atom _ hl => exact absurd rfl (hl _)
    | list hl h => exact ⟨hl, h⟩
  · rintro ⟨hl, h⟩
    exact .list hl h

theorem mono (hr : ∀ a b, rel a b → rel' a b) (h : Like rel v w) : Like rel' v w := by
  induction h with
  | atom hs hl => exact .atom hs hl
  | list hl _ ih => exact .list hl ih
  | fn _ hs ih => exact .fn ih (hr _ _ hs)
  | module hs => exact .module (hr _ _ hs)

/-- A value is like itself if every frame it refers to corresponds to itself. -/
theorem refl_of (h : ∀ id, v.RefersTo id → rel id id) : Like rel v v := by
  induction v using Value.induction_on with
  | atom v hs hl => exact .atom hs hl
  | list items ih =>
    refine list_iff.2 (List.forall₂_same.2 fun v hm => ih v hm fun id hv => ?_)
    obtain ⟨u, hu, hs⟩ := hv
    exact h id ⟨u, .item hm hu, hs⟩
  | fn params body scope ih =>
    refine .fn (ih fun id hv => ?_) (h scope ⟨_, .self, rfl⟩)
    obtain ⟨u, hu, hs⟩ := hv
    exact h id ⟨u, .body hu, hs⟩
  | module m => exact .module (h m.scope ⟨_, .self, rfl⟩)

theorem refl_of_isCode (h : v.IsCode) : Like rel v v := by
  refine refl_of fun id hv => ?_
  obtain ⟨u, hu, hs⟩ := hv
  rw [h u hu] at hs
  cases hs

theorem writeAll_eq (writeString : List Char → List Char)
    (h : List.Forall₂ (fun v w => Value.write writeString v = Value.write writeString w) vs ws) :
    writeAll writeString vs = writeAll writeString ws := by
  induction h with
  | nil => rfl
  | cons hv _ ih => rw [writeAll, writeAll, hv, ih]

/-- Alike values have the same text. -/
theorem write (writeString : List Char → List Char) (h : Like rel v w) :
    v.write writeString = w.write writeString := by
  induction h with
  | atom _ _ => rfl
  | list hl _ ih =>
    have hall := writeAll_eq writeString (List.forall₂_iff_get.2 ⟨hl, ih⟩)
    rw [write_list, write_list, hall]
  | fn _ _ _ => rfl
  | module _ => rfl

theorem nestingOfAll_eq (h : List.Forall₂ (fun v w : Value => v.nesting = w.nesting) vs ws) :
    nestingOfAll vs = nestingOfAll ws := by
  induction h with
  | nil => rfl
  | cons hv _ ih => rw [nestingOfAll, nestingOfAll, hv, ih]

theorem nesting (h : Like rel v w) : v.nesting = w.nesting := by
  induction h with
  | atom _ _ => rfl
  | list hl _ ih =>
    rw [Value.nesting, Value.nesting, nestingOfAll_eq (List.forall₂_iff_get.2 ⟨hl, ih⟩)]
  | fn _ _ _ => rfl
  | module _ => rfl

variable (limit : Nat)

theorem isWritable (h : Like rel v w) : v.isWritable limit = w.isWritable limit := by
  rw [Value.isWritable, Value.isWritable, h.nesting]

theorem all_isWritable_eq (h : List.Forall₂ (Like rel) vs ws) :
    vs.all (Value.isWritable limit) = ws.all (Value.isWritable limit) := by
  induction h with
  | nil => rfl
  | cons hv _ ih => rw [List.all_cons, List.all_cons, hv.isWritable, ih]

theorem writeReadable (h : Like rel v w) : v.writeReadable limit = w.writeReadable limit := by
  rw [Value.writeReadable, Value.writeReadable, h.isWritable, readable, readable, h.write]

theorem wrongType (h : Like rel v w) (expected : Expectation) :
    Fault.wrongType limit expected v = Fault.wrongType limit expected w := by
  rw [Fault.wrongType, Fault.wrongType, h.writeReadable]

theorem notAFunction (h : Like rel v w) :
    Fault.notAFunction limit v = Fault.notAFunction limit w := by
  rw [Fault.notAFunction, Fault.notAFunction, h.writeReadable]

theorem isTruthy (h : Like rel v w) : v.isTruthy = w.isTruthy := by
  cases h <;> rfl

end Value.Like

/-! ## Options and lists of related things -/

section Related
variable {α β γ δ : Type} {r r₁ : α → β → Prop} {r' : γ → δ → Prop}

theorem optionRel_cases {x : Option α} {y : Option β} (h : Option.Rel r x y) :
    (x = none ∧ y = none) ∨ ∃ a b, x = some a ∧ y = some b ∧ r a b := by
  cases h with
  | none => exact .inl ⟨rfl, rfl⟩
  | some h => exact .inr ⟨_, _, rfl, rfl, h⟩

theorem optionRel_mono (hr : ∀ a b, r a b → r₁ a b) {x : Option α} {y : Option β}
    (h : Option.Rel r x y) : Option.Rel r₁ x y := by
  cases h with
  | none => exact .none
  | some h => exact .some (hr _ _ h)

theorem optionRel_bind {x : Option α} {y : Option β} {f : α → Option γ} {g : β → Option δ}
    (h : Option.Rel r x y) (hf : ∀ a b, r a b → Option.Rel r' (f a) (g b)) :
    Option.Rel r' (x.bind f) (y.bind g) := by
  cases h with
  | none => exact .none
  | some h => exact hf _ _ h

theorem optionRel_of_forall₂_toList {x : Option α} {ys : List β}
    (h : List.Forall₂ r x.toList ys) : ∃ y : Option β, ys = y.toList ∧ Option.Rel r x y := by
  cases x with
  | none =>
    cases h
    exact ⟨none, rfl, .none⟩
  | some a =>
    rcases h with _ | ⟨hab, _ | _⟩
    exact ⟨some _, rfl, .some hab⟩

theorem isSome_eq_of_optionRel {x : Option α} {y : Option β} (h : Option.Rel r x y) :
    x.isSome = y.isSome := by
  cases h <;> rfl

theorem optionRel_findSome? {xs : List α} {ys : List β} {f : α → Option γ} {g : β → Option δ}
    (h : List.Forall₂ r xs ys) (hf : ∀ a b, r a b → Option.Rel r' (f a) (g b)) :
    Option.Rel r' (xs.findSome? f) (ys.findSome? g) := by
  induction h with
  | nil => exact .none
  | cons hxy _ ih =>
    rw [List.findSome?_cons, List.findSome?_cons]
    rcases optionRel_cases (hf _ _ hxy) with ⟨hx, hy⟩ | ⟨v, w, hx, hy, hv⟩
    · rw [hx, hy]
      exact ih
    · rw [hx, hy]
      exact .some hv

theorem optionRel_getElem? {xs : List α} {ys : List β} (h : List.Forall₂ r xs ys) (i : Nat) :
    Option.Rel r xs[i]? ys[i]? := by
  induction h generalizing i with
  | nil => exact .none
  | cons hxy _ ih =>
    cases i with
    | zero => exact .some hxy
    | succ i => exact ih i

theorem rel_getLastD {xs : List α} {ys : List β} (h : List.Forall₂ r xs ys) {a : α} {b : β}
    (hab : r a b) : r (xs.getLastD a) (ys.getLastD b) := by
  induction h generalizing a b with
  | nil => exact hab
  | cons hxy _ ih =>
    rw [List.getLastD_cons, List.getLastD_cons]
    exact ih hxy

end Related

/-! ## Frames -/

/-- Bindings of the same names in the same order to alike values. -/
def Table.Alike (rel : FrameId → FrameId → Prop) (t t' : Table String Value) : Prop :=
  List.Forall₂ (fun e e' => e.1 = e'.1 ∧ Value.Like rel e.2 e'.2) t.entries t'.entries

/-- Frames with alike bindings whose outer frames correspond. -/
structure Frame.Alike (rel : FrameId → FrameId → Prop) (f f' : Frame) : Prop where
  bindings : f.bindings.Alike rel f'.bindings
  outer : Option.Rel rel f.outer? f'.outer?

/-- Heaps in which frames that correspond are alike. -/
def Heap.Alike (rel : FrameId → FrameId → Prop) (h h' : Heap) : Prop :=
  ∀ a b, rel a b → Option.Rel (Frame.Alike rel) h.frames[a]? h'.frames[b]?

namespace Table.Alike

variable {t t' : Table String Value}

theorem empty : Alike rel Table.empty Table.empty := .nil

theorem mono (hr : ∀ a b, rel a b → rel' a b) (h : Alike rel t t') : Alike rel' t t' :=
  List.Forall₂.imp (fun _ _ he => ⟨he.1, he.2.mono hr⟩) h

theorem get? (h : Alike rel t t') (key : String) :
    Option.Rel (Value.Like rel) (t.get? key) (t'.get? key) := by
  obtain ⟨entries⟩ := t
  obtain ⟨entries'⟩ := t'
  change List.Forall₂ _ entries entries' at h
  simp only [Table.get?]
  induction h with
  | nil => exact .none
  | @cons e e' _ _ he _ ih =>
    obtain ⟨k, v⟩ := e
    obtain ⟨k', v'⟩ := e'
    obtain ⟨rfl, hv⟩ := he
    simp only [lookup]
    split
    · exact .some hv
    · exact ih

theorem insert (h : Alike rel t t') (key : String) {v v' : Value} (hv : v.Like rel v') :
    Alike rel (t.insert key v) (t'.insert key v') := by
  obtain ⟨entries⟩ := t
  obtain ⟨entries'⟩ := t'
  change List.Forall₂ _ entries entries' at h
  change List.Forall₂ _ (replace key v entries) (replace key v' entries')
  induction h with
  | nil => exact .cons ⟨rfl, hv⟩ .nil
  | @cons e e' _ _ he hrest ih =>
    obtain ⟨k, w⟩ := e
    obtain ⟨k', w'⟩ := e'
    obtain ⟨rfl, hw⟩ := he
    simp only [replace]
    split
    · exact .cons ⟨rfl, hv⟩ hrest
    · exact .cons ⟨rfl, hw⟩ ih

theorem insertAll (h : Alike rel t t') {bindings bindings' : List (String × Value)}
    (hb : List.Forall₂ (fun e e' => e.1 = e'.1 ∧ Value.Like rel e.2 e'.2) bindings bindings') :
    Alike rel (t.insertAll bindings) (t'.insertAll bindings') := by
  induction hb generalizing t t' with
  | nil => exact h
  | @cons e e' _ _ he _ ih =>
    obtain ⟨key, v⟩ := e
    obtain ⟨key', v'⟩ := e'
    obtain ⟨rfl, hv⟩ := he
    exact ih (h.insert key hv)

theorem insertAll_zip (h : Alike rel t t') (names : List String) {vs vs' : List Value}
    (hv : List.Forall₂ (Value.Like rel) vs vs') :
    Alike rel (t.insertAll (names.zip vs)) (t'.insertAll (names.zip vs')) := by
  refine h.insertAll ?_
  induction hv generalizing names with
  | nil =>
    rw [List.zip_nil_right]
    exact .nil
  | cons hv _ ih =>
    cases names with
    | nil => exact .nil
    | cons name names => exact .cons ⟨rfl, hv⟩ (ih names)

end Table.Alike

theorem Frame.Alike.mono {f f' : Frame} (hr : ∀ a b, rel a b → rel' a b) (h : f.Alike rel f') :
    f.Alike rel' f' :=
  ⟨h.bindings.mono hr, optionRel_mono hr h.outer⟩

namespace Heap.Alike

variable {h h' : Heap} {a b : FrameId}

theorem size_iff (H : h.Alike rel h') (hr : rel a b) : a < h.size ↔ b < h'.size := by
  have ha := h.frames_eq_none_iff a
  have hb := h'.frames_eq_none_iff b
  rw [← Nat.not_le, ← Nat.not_le, ← ha, ← hb]
  rcases optionRel_cases (H a b hr) with ⟨hx, hy⟩ | ⟨f, g, hx, hy, -⟩
  · rw [hx, hy]
  · rw [hx, hy]
    exact ⟨fun _ => nofun, fun _ => nofun⟩

theorem outer? (H : h.Alike rel h') (hr : rel a b) :
    Option.Rel rel (h.outer? a) (h'.outer? b) :=
  optionRel_bind (H a b hr) fun _ _ hf => hf.outer

theorem own? (H : h.Alike rel h') (hr : rel a b) (name : String) :
    Option.Rel (Value.Like rel) (h.own? a name) (h'.own? b name) := by
  rw [own?_eq, own?_eq]
  exact optionRel_bind (H a b hr) fun _ _ hf => hf.bindings.get? name

/-- The frames around frames that correspond do so one by one. -/
theorem chain (H : h.Alike rel h') (hr : rel a b) :
    List.Forall₂ rel (h.chain a) (h'.chain b) := by
  induction a using Nat.strongRecOn generalizing b with
  | ind a ih =>
    rw [chain_eq h, chain_eq h']
    by_cases ha : a < h.size
    · rw [if_pos ha, if_pos ((H.size_iff hr).1 ha)]
      rcases optionRel_cases (H.outer? hr) with ⟨hx, hy⟩ | ⟨o, o', hx, hy, ho⟩
      · rw [hx, hy]
        exact .cons hr .nil
      · have hlt : o < a := by
          obtain ⟨f, hf, hfo⟩ := Option.bind_eq_some_iff.1 hx
          exact h.outer_lt_of_frame hf hfo
        rw [hx, hy]
        exact .cons hr (ih o hlt ho)
    · rw [if_neg ha, if_neg fun hb => ha ((H.size_iff hr).2 hb)]
      exact .nil

theorem get? (H : h.Alike rel h') (hr : rel a b) (name : String) :
    Option.Rel (Value.Like rel) (h.get? a name) (h'.get? b name) :=
  optionRel_findSome? (H.chain hr) fun _ _ hxy => H.own? hxy name

theorem root (H : h.Alike rel h') (hr : rel a b) : rel (h.root a) (h'.root b) :=
  rel_getLastD (H.chain hr) hr

/-- More frames may correspond if they are not there yet. -/
theorem extend (H : h.Alike rel h') (hr : ∀ a b, rel a b → rel' a b)
    (hn : ∀ a b, rel' a b → rel a b ∨ h.size ≤ a ∧ h'.size ≤ b) : h.Alike rel' h' := by
  intro a b hab
  rcases hn a b hab with hab | ⟨ha, hb⟩
  · exact optionRel_mono (fun _ _ hf => hf.mono hr) (H a b hab)
  · rw [(h.frames_eq_none_iff a).2 ha, (h'.frames_eq_none_iff b).2 hb]
    exact .none

/-- Alike definitions in frames that correspond to one another alone. -/
theorem define (H : h.Alike rel h') (hab : ∀ x y, rel x y → (x = a ↔ y = b)) (name : String)
    {v w : Value} (hv : v.Like rel w) : (h.define a name v).Alike rel (h'.define b name w) := by
  intro x y hxy
  have hf := H x y hxy
  rw [frames_define, frames_define]
  by_cases hx : x = a
  · rw [if_pos hx, if_pos ((hab x y hxy).1 hx), ← hx, ← (hab x y hxy).1 hx,
      Option.map_eq_bind, Option.map_eq_bind]
    exact optionRel_bind hf fun _ _ hf => .some ⟨hf.bindings.insert name hv, hf.outer⟩
  · rw [if_neg hx, if_neg fun hy => hx ((hab x y hxy).2 hy)]
    exact hf

/-- Alike new frames in heaps whose next frames correspond to one another alone. -/
theorem alloc (H : h.Alike rel h') (hn : ∀ x y, rel x y → (x = h.size ↔ y = h'.size))
    {bindings bindings' : Table String Value} (hr : rel a b) (ht : bindings.Alike rel bindings') :
    (h.alloc (some a) bindings).Alike rel (h'.alloc (some b) bindings') := by
  intro x y hxy
  have hf := H x y hxy
  rw [frames_alloc, frames_alloc]
  by_cases hx : x = h.size
  · rw [if_pos hx, if_pos ((hn x y hxy).1 hx)]
    refine .some ⟨ht, ?_⟩
    by_cases ha : a < h.size
    · have hb := (H.size_iff hr).1 ha
      simp only [Option.filter_some, ha, hb, decide_true, if_true]
      exact .some hr
    · have hb : ¬ b < h'.size := fun hb => ha ((H.size_iff hr).2 hb)
      simp only [Option.filter_some, ha, hb, decide_false, Bool.false_eq_true, if_false]
      exact .none
  · rw [if_neg hx, if_neg fun hy => hx ((hn x y hxy).2 hy)]
    exact hf

end Heap.Alike

/-! ## What names mean -/

namespace Scope

variable {h h' : Heap} {a b : FrameId}

theorem plain_alike (H : h.Alike rel h') (hr : rel a b) (name : String) :
    Agree (Value.Like rel) ((plain h a name).mapError .lisp) ((plain h' b name).mapError .lisp) := by
  unfold plain
  rcases optionRel_cases (H.get? hr name) with ⟨hx, hy⟩ | ⟨v, w, hx, hy, hv⟩
  · rw [hx, hy]
    exact .error _
  · rw [hx, hy]
    exact .ok hv

theorem member_alike (H : h.Alike rel h') {m m' : Module} (hr : rel m.scope m'.scope)
    (moduleName name : String) :
    Agree (Value.Like rel) ((member h m moduleName name).mapError .lisp)
      ((member h' m' moduleName name).mapError .lisp) := by
  unfold member
  rcases optionRel_cases (H.own? hr name) with ⟨hx, hy⟩ | ⟨v, w, hx, hy, hv⟩
  · rw [hx, hy]
    exact .error _
  · rw [hx, hy]
    exact .ok hv

/-- A symbol means alike values in scopes that correspond, or the same error. -/
theorem resolve_alike (H : h.Alike rel h') (hr : rel a b) (name : String) :
    Agree (Value.Like rel) ((resolve h a name).mapError .lisp)
      ((resolve h' b name).mapError .lisp) := by
  unfold resolve
  split
  · exact plain_alike H hr name
  · next moduleName memberName _ =>
    rcases optionRel_cases (H.get? hr moduleName) with ⟨hx, hy⟩ | ⟨v, w, hx, hy, hv⟩
    · rw [hx, hy]
      exact .error _
    · rw [hx, hy]
      cases hv with
      | module hm => exact member_alike H hm moduleName memberName
      | @atom v hs hl =>
        cases v with
        | module m => cases hs
        | _ => exact .error _
      | _ => exact .error _

/-- Of values that are alike, either both are modules, or none is. -/
theorem module?_alike {x y : Option Value} (h : Option.Rel (Value.Like rel) x y) :
    Option.Rel (fun m m' : Module => m.name = m'.name ∧ rel m.scope m'.scope)
      (x.bind Value.module?) (y.bind Value.module?) := by
  refine optionRel_bind h fun v w hv => ?_
  cases hv with
  | module hm => exact .some ⟨rfl, hm⟩
  | atom hs _ =>
    cases v with
    | module m => cases hs
    | _ => exact .none
  | _ => exact .none

/-- So it does at the head of a call. -/
theorem resolveHead_alike (H : h.Alike rel h') (hr : rel a b) (name : String) :
    Agree (Value.Like rel) ((resolveHead h a name).mapError .lisp)
      ((resolveHead h' b name).mapError .lisp) := by
  unfold resolveHead
  split
  · exact plain_alike H hr name
  · next moduleName memberName _ =>
    have hnear := H.get? hr moduleName
    have hout := H.own? (H.root hr) moduleName
    rcases optionRel_cases (module?_alike hnear) with ⟨hx, hy⟩ | ⟨m, m', hx, hy, -, hm⟩
    · rcases optionRel_cases (module?_alike hout) with ⟨hx', hy'⟩ | ⟨m, m', hx', hy', -, hm⟩
      · simp only [hx, hy, hx', hy', isSome_eq_of_optionRel hnear,
          isSome_eq_of_optionRel hout]
        split
        · exact .error _
        · exact .error _
      · simp only [hx, hy, hx', hy']
        exact member_alike H hm moduleName memberName
    · simp only [hx, hy]
      exact member_alike H hm moduleName memberName

end Scope

/-! ## What the evaluator tells apart -/

namespace Evaluation

variable {v w : Value} {vs ws : List Value} {params params' body body' : Value}
  {scope scope' : FrameId} {limit : Nat}

theorem boundName_eq (h : v.Like rel w) : boundName limit v = boundName limit w := by
  have hw := h.wrongType limit .symbol
  cases h with
  | atom _ _ => rfl
  | _ => exact congrArg Except.error hw

theorem parameters_eq (h : List.Forall₂ (Value.Like rel) vs ws) :
    parameters limit vs = parameters limit ws := by
  induction h with
  | nil => rfl
  | @cons v w _ _ hv _ ih =>
    have hw := hv.wrongType limit .symbol
    cases hv with
    | atom _ _ =>
      cases v with
      | sym name => rw [parameters, parameters, ih]
      | _ => rfl
    | _ => exact congrArg Except.error hw

theorem lambdaResult_alike (hs : rel scope scope')
    (hp : params.Like rel params') (hb : body.Like rel body') :
    Agree (Value.Like rel) (lambdaResult limit scope params body)
      (lambdaResult limit scope' params' body') := by
  have hw := hp.wrongType limit .parameterList
  cases hp with
  | list hl h =>
    have hvs := Value.Like.list_iff.1 (.list hl h)
    rw [lambdaResult, lambdaResult, parameters_eq hvs]
    rcases parameters limit _ with e | names
    · exact .error e
    · exact .ok (.fn hb hs)
  | atom hs' hl =>
    cases params with
    | list items => exact absurd rfl (hl items)
    | _ => exact .error _
  | fn _ _ => exact .of_error_eq hw
  | module _ => exact .of_error_eq hw

theorem specifier?_eq (h : v.Like rel w) : specifier? v = specifier? w := by
  cases h <;> rfl

theorem isConstant_eq (h : v.Like rel w) : v.isConstant = w.isConstant := by
  cases h with
  | @list vs ws hl _ => cases vs <;> cases ws <;> first | rfl | cases hl
  | _ => rfl

theorem isOrdinary_iff (h : v.Like rel w) : IsOrdinary v ↔ IsOrdinary w := by
  cases h with
  | atom _ _ => exact Iff.rfl
  | _ => exact ⟨fun _ => nofun, fun _ => nofun⟩

end Evaluation

end SmallLisp
