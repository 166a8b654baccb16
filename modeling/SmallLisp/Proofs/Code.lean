import SmallLisp.Script

/-! # What a value refers to

Functions and modules refer to a frame of the heap, and they can stand anywhere in a value: in a
list, in a list of lists, in the body of a function.  `Value.Part` is what stands in a value, and
everything that is said about the frames that a value refers to is said about its parts.

What is read from a text refers to no frame (`Script.isCode_ofText`), and that is all the program
text that is ever evaluated, unless the surrounding program hands over something else.
-/
namespace SmallLisp

namespace Value

/-- A value stands in a value: it is that value, or it stands in an element of the list or in the
body of the function that it is. -/
inductive Part (u : Value) : Value → Prop
  | self : Part u u
  | item {v : Value} {items : List Value} : v ∈ items → Part u v → Part u (.list items)
  | body {params : List String} {body : Value} {scope : FrameId} :
      Part u body → Part u (.fn params body scope)

/-- The frame that a value itself refers to. -/
def scope? : Value → Option FrameId
  | fn _ _ scope => some scope
  | module m => some m.scope
  | _ => none

/-- A value refers to a frame. -/
def RefersTo (v : Value) (id : FrameId) : Prop :=
  ∃ u, Part u v ∧ u.scope? = some id

/-- A value refers to no frame. -/
def IsCode (v : Value) : Prop :=
  ∀ u, Part u v → u.scope? = none

/-- All functions in a value refer to frames inside some limits, and all modules to settled
frames. -/
structure Fits (settled inside : FrameId → Prop) (v : Value) : Prop where
  functions : ∀ params body scope, Part (.fn params body scope) v → inside scope
  modules : ∀ m, Part (.module m) v → settled m.scope

variable {u v w : Value} {settled settled' inside inside' : FrameId → Prop}

/-- Induction over what stands in a value. -/
@[elab_as_elim]
theorem induction_on {P : Value → Prop} (v : Value)
    (atom : ∀ v : Value, v.scope? = none → (∀ items, v ≠ .list items) → P v)
    (list : ∀ items : List Value, (∀ v ∈ items, P v) → P (.list items))
    (fn : ∀ params body scope, P body → P (.fn params body scope))
    (module : ∀ m, P (.module m)) : P v := by
  refine @Value.rec P (fun vs => ∀ v ∈ vs, P v) ?_ ?_ ?_ ?_ ?_ list fn ?_ module ?_ ?_ v
  · exact atom _ rfl nofun
  · exact fun _ => atom _ rfl nofun
  · exact fun _ => atom _ rfl nofun
  · exact fun _ => atom _ rfl nofun
  · exact fun _ => atom _ rfl nofun
  · exact fun _ => atom _ rfl nofun
  · intro v hv
    cases hv
  · intro v vs hv hvs w hw
    rcases List.mem_cons.1 hw with rfl | hw
    · exact hv
    · exact hvs w hw

theorem Part.trans (h : Part u v) (h' : Part v w) : Part u w := by
  induction h' with
  | self => exact h
  | item hm _ ih => exact .item hm ih
  | body _ ih => exact .body ih

theorem part_list_iff {items : List Value} :
    Part u (.list items) ↔ u = .list items ∨ ∃ v ∈ items, Part u v := by
  constructor
  · intro h
    cases h with
    | self => exact .inl rfl
    | item hm h => exact .inr ⟨_, hm, h⟩
  · rintro (rfl | ⟨v, hm, h⟩)
    · exact .self
    · exact .item hm h

theorem part_fn_iff {params : List String} {body : Value} {scope : FrameId} :
    Part u (.fn params body scope) ↔ u = .fn params body scope ∨ Part u body := by
  constructor
  · intro h
    cases h with
    | self => exact .inl rfl
    | body h => exact .inr h
  · rintro (rfl | h)
    · exact .self
    · exact .body h

theorem IsCode.of_part (h : IsCode v) (hp : Part u v) : IsCode u :=
  fun w hw => h w (hw.trans hp)

theorem isCode_list_iff {items : List Value} :
    IsCode (.list items) ↔ ∀ v ∈ items, IsCode v := by
  constructor
  · intro h v hm
    exact h.of_part (.item hm .self)
  · intro h u hu
    rcases part_list_iff.1 hu with rfl | ⟨v, hm, hv⟩
    · rfl
    · exact h v hm u hv

namespace Fits

theorem of_part (h : v.Fits settled inside) (hp : Part u v) : u.Fits settled inside where
  functions params body scope hu := h.functions params body scope (hu.trans hp)
  modules m hu := h.modules m (hu.trans hp)

theorem mono (h : v.Fits settled inside) (hs : ∀ id, settled id → settled' id)
    (hi : ∀ id, inside id → inside' id) : v.Fits settled' inside' where
  functions params body scope hu := hi _ (h.functions params body scope hu)
  modules m hu := hs _ (h.modules m hu)

theorem of_isCode (h : IsCode v) : v.Fits settled inside where
  functions params body scope hu := by cases h _ hu
  modules m hu := by cases h _ hu

theorem fn_iff {params : List String} {body : Value} {scope : FrameId} :
    (Value.fn params body scope).Fits settled inside ↔
      inside scope ∧ body.Fits settled inside := by
  constructor
  · intro h
    exact ⟨h.functions params body scope .self, h.of_part (.body .self)⟩
  · rintro ⟨hscope, hbody⟩
    constructor
    · intro params' body' scope' hu
      rcases part_fn_iff.1 hu with he | hu
      · cases he
        exact hscope
      · exact hbody.functions params' body' scope' hu
    · intro m hu
      exact hbody.modules m ((part_fn_iff.1 hu).resolve_left (by rintro ⟨⟩))

theorem module_iff {m : Module} :
    (Value.module m).Fits settled inside ↔ settled m.scope := by
  constructor
  · intro h
    exact h.modules m .self
  · intro h
    constructor
    · intro params body scope hu
      cases hu
    · intro m' hu
      cases hu
      exact h

end Fits

/-- A value in which nothing else stands, and which refers to no frame, is code. -/
theorem isCode_of_atom (hs : v.scope? = none) (hl : ∀ items, v ≠ .list items) : IsCode v := by
  intro u hu
  cases hu with
  | self => exact hs
  | item _ _ => exact absurd rfl (hl _)
  | body _ => cases hs

section Atoms

theorem isCode_nil : IsCode .nil := isCode_of_atom rfl nofun

theorem isCode_bool (b : Bool) : IsCode (.bool b) := isCode_of_atom rfl nofun

theorem isCode_num (x : Float) : IsCode (.num x) := isCode_of_atom rfl nofun

theorem isCode_str (s : String) : IsCode (.str s) := isCode_of_atom rfl nofun

theorem isCode_sym (name : String) : IsCode (.sym name) := isCode_of_atom rfl nofun

theorem isCode_native (f : Native) : IsCode (.native f) := isCode_of_atom rfl nofun

end Atoms

theorem isCode_quoted (h : IsCode v) : IsCode v.quoted := by
  rw [quoted, isCode_list_iff]
  intro w hw
  rcases List.mem_cons.1 hw with rfl | hw
  · exact isCode_sym _
  · rw [List.mem_singleton.1 hw]
    exact h

end Value

/-! ## What is read -/

namespace Reader
open Value

/-- Everything read so far inside what is open is code. -/
def Opening.HoldsCode : Opening → Prop
  | bracket _ items => ∀ v ∈ items, IsCode v
  | quote _ => True

/-- What a token leads to holds code. -/
def Step.HoldsCode : Step → Prop
  | refused _ => True
  | complete v => IsCode v
  | continued stack => ∀ o ∈ stack, o.HoldsCode

theorem isCode_literal {text : List Char} {v : Value} (h : literal? text = some v) :
    IsCode v := by
  unfold literal? at h
  repeat' split at h
  all_goals cases h
  · exact isCode_bool true
  · exact isCode_bool false
  · exact isCode_nil

theorem isCode_atom (text : List Char) : IsCode (atom text) := by
  unfold atom
  split
  · exact isCode_num _
  · rcases hl : literal? text with _ | v
    · exact isCode_sym _
    · exact isCode_literal hl

theorem deliver_holdsCode {v : Value} (hv : IsCode v) {stack : List Opening}
    (hs : ∀ o ∈ stack, o.HoldsCode) : (deliver v stack).HoldsCode := by
  induction stack generalizing v with
  | nil => exact hv
  | cons o outer ih =>
    have houter : ∀ o ∈ outer, o.HoldsCode := fun o ho => hs o (List.mem_cons_of_mem _ ho)
    cases o with
    | quote offset => exact ih (isCode_quoted hv) houter
    | bracket offset items =>
      have hitems : ∀ w ∈ items, IsCode w := hs _ List.mem_cons_self
      intro o ho
      rcases List.mem_cons.1 ho with rfl | ho
      · intro w hw
        rcases List.mem_cons.1 hw with rfl | hw
        · exact hv
        · exact hitems w hw
      · exact houter o ho

theorem step_holdsCode {stack : List Opening} (hs : ∀ o ∈ stack, o.HoldsCode) (t : Token) :
    (step stack t).HoldsCode := by
  unfold step
  split
  · intro o ho
    rcases List.mem_cons.1 ho with rfl | ho
    · intro v hv
      cases hv
    · exact hs o ho
  · intro o ho
    rcases List.mem_cons.1 ho with rfl | ho
    · trivial
    · exact hs o ho
  · split
    next items outer =>
      refine deliver_holdsCode (isCode_list_iff.2 fun v hv => ?_)
        fun o ho => hs o (List.mem_cons_of_mem _ ho)
      exact hs _ List.mem_cons_self v (List.mem_reverse.1 hv)
    · trivial
  · split
    next text _ =>
      exact deliver_holdsCode (isCode_str _) hs
    · trivial
  · trivial
  all_goals exact deliver_holdsCode (isCode_atom _) hs

theorem isCode_of_readOne {stack : List Opening} (hs : ∀ o ∈ stack, o.HoldsCode)
    {tokens rest : List Token} {v : Value} (h : readOne stack tokens = .ok (some (v, rest))) :
    IsCode v := by
  induction tokens generalizing stack with
  | nil => cases stack <;> cases h
  | cons t tokens ih =>
    have ht := step_holdsCode hs t
    simp only [readOne] at h
    split at h
    · cases h
    next w hw =>
      cases h
      rw [hw] at ht
      exact ht
    next next hn =>
      rw [hn] at ht
      exact ih ht h

theorem isCode_of_parseOne {s rest : List Char} {v : Value}
    (h : parseOne s = .ok (some (v, rest))) : IsCode v := by
  unfold parseOne at h
  rcases hr : readOne [] (Token.meaningful s) with e | _ | ⟨w, tokens⟩
  all_goals
    rw [hr] at h
    cases h
  refine isCode_of_readOne (fun o ho => ?_) hr
  cases ho

end Reader

/-- A script in terms of the first expression of its text. -/
theorem Script.ofText_eq (limit : Nat) (s : List Char) :
    Script.ofText limit s =
      if limit < Reader.nestingOfFirst s then ⟨[], some .tooDeep⟩
      else
        match Reader.parseOne s with
        | .error e => ⟨[], some (.malformed e)⟩
        | .ok none => ⟨[], none⟩
        | .ok (some (v, rest)) =>
          ⟨v :: (Script.ofText limit rest).forms, (Script.ofText limit rest).stop?⟩ := by
  rw [Script.ofText]
  split
  · rfl
  · split
    next hp => rw [hp]
    next hp => rw [hp]
    next hp => rw [hp]

theorem Script.ofText_nil (limit : Nat) : Script.ofText limit [] = ⟨[], none⟩ := by
  have htokens : Token.meaningful [] = [] := by decide +kernel
  have hnesting : Reader.nestingOfFirst [] = 0 := by
    rw [Reader.nestingOfFirst, htokens]
    rfl
  have hparse : Reader.parseOne [] = .ok none := by
    rw [Reader.parseOne, htokens]
    rfl
  rw [Script.ofText_eq, hnesting, hparse, if_neg (Nat.not_lt_zero limit)]

/-- The expressions of a text refer to no frame. -/
theorem Script.isCode_ofText (limit : Nat) (s : List Char) :
    ∀ form ∈ (Script.ofText limit s).forms, form.IsCode := by
  induction hn : s.length using Nat.strongRecOn generalizing s with
  | ind n ih =>
    subst hn
    rw [Script.ofText_eq]
    split
    · nofun
    · split
      · nofun
      · nofun
      next v rest hp =>
        intro form hm
        rcases List.mem_cons.1 hm with rfl | hm
        · exact Reader.isCode_of_parseOne hp
        · exact ih rest.length (Reader.parseOne_length hp) rest rfl form hm

end SmallLisp
