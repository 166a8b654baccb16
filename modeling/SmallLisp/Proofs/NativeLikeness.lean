import SmallLisp.Native.Arithmetic
import SmallLisp.Native.Lists
import SmallLisp.Native.Strings
import SmallLisp.Proofs.Likeness

/-! # Native functions and frames

A native function gets values and gives a value, and it never looks at a frame.  So of arguments
that differ in their frames alone it makes results that do so too (`Evaluation.callNative_alike`),
and whatever in its result refers to a frame it was given (`Evaluation.part_of_callNative`).
-/
namespace SmallLisp
open Value

variable {rel : FrameId → FrameId → Prop}

variable {v w : Value} {args args' : List Value} {limit : Nat}

/-- A computation that goes well does so in each of its steps. -/
theorem ok_of_bind {α β : Type} {x : Except Fault α} {f : α → Except Fault β} {b : β}
    (h : x >>= f = .ok b) : ∃ a, x = .ok a ∧ f a = .ok b := by
  cases x with
  | error e => cases h
  | ok a => exact ⟨a, rfl, h⟩

namespace Arithmetic

theorem number_eq (h : Like rel v w) : number limit v = number limit w := by
  have hw := h.wrongType limit .number
  cases h with
  | atom _ _ => rfl
  | _ => exact congrArg Except.error hw

theorem numbers_eq (h : List.Forall₂ (Like rel) args args') :
    numbers limit args = numbers limit args' := by
  induction h with
  | nil => rfl
  | cons hv _ ih => rw [numbers, numbers, number_eq hv, ih]

theorem divideBy_eq (h : List.Forall₂ (Like rel) args args') (x : Float) (place : Nat) :
    divideBy limit x place args = divideBy limit x place args' := by
  induction h generalizing x place with
  | nil => rfl
  | cons hv _ ih => simp only [divideBy, number_eq hv, ih]

theorem allEqual_eq (h : List.Forall₂ (Like rel) args args') (x : Float) :
    allEqual limit x args = allEqual limit x args' := by
  induction h with
  | nil => rfl
  | cons hv _ ih => simp only [allEqual, number_eq hv, ih]

theorem compare_eq (h : List.Forall₂ (Like rel) args args') (f : Arithmetic)
    (holds : Float → Float → Bool) :
    compare limit f holds args = compare limit f holds args' := by
  rcases h with _ | ⟨hv, _ | ⟨hw, _ | ⟨hx, ht⟩⟩⟩
  · rfl
  · rfl
  · rw [compare, compare, number_eq hv, number_eq hw]
  · simp only [compare, List.length_cons, ht.length_eq]

theorem apply_eq (h : List.Forall₂ (Like rel) args args') (f : Arithmetic) :
    apply limit f args = apply limit f args' := by
  cases f with
  | add => rw [apply, apply, numbers_eq h]
  | multiply => rw [apply, apply, numbers_eq h]
  | less => exact compare_eq h _ _
  | greater => exact compare_eq h _ _
  | atMost => exact compare_eq h _ _
  | atLeast => exact compare_eq h _ _
  | subtract =>
    rcases h with _ | ⟨hv, _ | ⟨hw, ht⟩⟩
    · rfl
    · rw [apply, apply, number_eq hv]
    · simp only [apply, number_eq hv, numbers_eq (.cons hw ht)]
  | divide =>
    rcases h with _ | ⟨hv, _ | ⟨hw, ht⟩⟩
    · rfl
    · rw [apply, apply, number_eq hv]
    · simp only [apply, number_eq hv, divideBy_eq (.cons hw ht)]
  | equal =>
    rcases h with _ | ⟨hv, _ | ⟨hw, ht⟩⟩
    · rfl
    · rfl
    · simp only [apply, number_eq hv, allEqual_eq (.cons hw ht)]

/-- The results of arithmetic are numbers and truth values. -/
theorem isCode_of_apply {f : Arithmetic} (h : apply limit f args = .ok v) : v.IsCode := by
  have hcompare {g : Arithmetic} {holds : Float → Float → Bool}
      (h : compare limit g holds args = .ok v) : v.IsCode := by
    unfold compare at h
    split at h
    · obtain ⟨x, -, h⟩ := ok_of_bind h
      obtain ⟨y, -, h⟩ := ok_of_bind h
      cases h
      exact isCode_bool _
    · cases h
  cases f with
  | add | multiply =>
    obtain ⟨xs, -, h⟩ := ok_of_bind h
    cases h
    exact isCode_num _
  | less | greater | atMost | atLeast => exact hcompare h
  | subtract =>
    rcases args with _ | ⟨a, _ | ⟨b, rest⟩⟩
    · cases h
    · obtain ⟨x, -, h⟩ := ok_of_bind h
      cases h
      exact isCode_num _
    · obtain ⟨x, -, h⟩ := ok_of_bind h
      obtain ⟨xs, -, h⟩ := ok_of_bind h
      cases h
      exact isCode_num _
  | divide =>
    rcases args with _ | ⟨a, _ | ⟨b, rest⟩⟩
    · cases h
    · obtain ⟨x, -, h⟩ := ok_of_bind h
      simp only at h
      split at h
      · cases h
      · cases h
        exact isCode_num _
    · obtain ⟨x, -, h⟩ := ok_of_bind h
      obtain ⟨y, -, h⟩ := ok_of_bind h
      cases h
      exact isCode_num _
  | equal =>
    rcases args with _ | ⟨a, _ | ⟨b, rest⟩⟩
    · cases h
    · cases h
    · obtain ⟨x, -, h⟩ := ok_of_bind h
      obtain ⟨y, -, h⟩ := ok_of_bind h
      cases h
      exact isCode_bool _

end Arithmetic

namespace StringFunction

theorem string_eq (h : Like rel v w) : string limit v = string limit w := by
  have hw := h.wrongType limit .string
  cases h with
  | atom _ _ => rfl
  | _ => exact congrArg Except.error hw

theorem concatAll_eq (h : List.Forall₂ (Like rel) args args') : concatAll limit args =
    concatAll limit args' := by
  induction h with
  | nil => rfl
  | cons hv _ ih => rw [concatAll, concatAll, string_eq hv, ih]

theorem single_eq (h : List.Forall₂ (Like rel) args args') (f : StringFunction) :
    single limit f args = single limit f args' := by
  rcases h with _ | ⟨hv, _ | ⟨hw, ht⟩⟩
  · rfl
  · exact string_eq hv
  · simp only [single, List.length_cons, ht.length_eq]

theorem fillGaps_eq (h : List.Forall₂ (Like rel) args args') (pieces : List (List Char)) :
    fillGaps pieces args = fillGaps pieces args' := by
  induction pieces generalizing args args' with
  | nil => rfl
  | cons piece more ih =>
    cases h with
    | nil => rfl
    | cons hv ht => rw [fillGaps, fillGaps, hv.write, ih ht]

theorem formatted_eq (h : List.Forall₂ (Like rel) args args') (s : List Char) :
    formatted limit s args = formatted limit s args' := by
  have hfill : fill s args = fill s args' := by
    unfold fill
    split
    · rfl
    · rw [fillGaps_eq h]
  simp only [formatted, hfill, Like.all_isWritable_eq limit (List.forall₂_take _ h)]

theorem apply_eq (h : List.Forall₂ (Like rel) args args') (f : StringFunction) :
    apply limit f args = apply limit f args' := by
  cases f with
  | concat => rw [apply, apply, concatAll_eq h]
  | format =>
    rcases h with _ | ⟨hv, ht⟩
    · rfl
    · have hw := hv.wrongType limit .formatString
      cases hv with
      | atom _ _ =>
        rename_i a rest rest' _ _
        cases a with
        | str s => exact formatted_eq ht _
        | _ => rfl
      | _ => exact congrArg Except.error hw
  | _ => simp only [apply, single_eq h]

/-- The results of string functions are strings and numbers. -/
theorem isCode_of_apply {f : StringFunction} (h : apply limit f args = .ok v) : v.IsCode := by
  have hformatted {s : List Char} {rest : List Value} (h : formatted limit s rest = .ok v) :
      v.IsCode := by
    simp only [formatted] at h
    split at h
    · cases h
      exact isCode_str _
    · cases h
  cases f with
  | length =>
    obtain ⟨s, -, h⟩ := ok_of_bind h
    cases h
    exact isCode_num _
  | format =>
    rcases args with _ | ⟨a, rest⟩
    · cases h
    · cases a with
      | str s => exact hformatted h
      | _ => cases h
  | _ =>
    obtain ⟨s, -, h⟩ := ok_of_bind h
    cases h
    exact isCode_str _

end StringFunction

namespace ListFunction

theorem items_agree (h : Like rel v w) :
    Agree (List.Forall₂ (Like rel)) (items limit v) (items limit w) := by
  have hw := h.wrongType limit .list
  cases h with
  | list hl h => exact .ok (Like.list_iff.1 (.list hl h))
  | atom hs hl =>
    cases v with
    | nil => exact .ok .nil
    | list items => exact absurd rfl (hl items)
    | _ => exact .error _
  | fn _ _ => exact .of_error_eq hw
  | module _ => exact .of_error_eq hw

theorem single_agree (h : List.Forall₂ (Like rel) args args') (f : ListFunction) :
    Agree (List.Forall₂ (Like rel)) (single limit f args) (single limit f args') := by
  rcases h with _ | ⟨hv, _ | ⟨hw, ht⟩⟩
  · exact .error _
  · exact items_agree hv
  · simp only [single, List.length_cons, ht.length_eq]
    exact .error _

theorem apply_agree (h : List.Forall₂ (Like rel) args args') (f : ListFunction) :
    Agree (Like rel) (apply limit f args) (apply limit f args') := by
  cases f with
  | list => exact .ok (Like.list_iff.2 h)
  | cons =>
    rcases h with _ | ⟨hv, _ | ⟨hw, _ | ⟨hx, ht⟩⟩⟩
    · exact .error _
    · exact .error _
    · refine (items_agree hw).bind fun vs ws hvs => ?_
      exact .ok (Like.list_iff.2 (.cons hv hvs))
    · simp only [apply, List.length_cons, ht.length_eq]
      exact .error _
  | car =>
    refine (single_agree h car).bind fun vs ws hvs => ?_
    cases hvs with
    | nil => exact .error _
    | cons hv _ => exact .ok hv
  | cdr =>
    refine (single_agree h cdr).bind fun vs ws hvs => ?_
    cases hvs with
    | nil => exact .error _
    | cons _ ht => exact .ok (Like.list_iff.2 ht)
  | length =>
    refine (single_agree h length).bind fun vs ws hvs => ?_
    rw [hvs.length_eq]
    exact .ok (.refl_of_isCode (isCode_num _))
  | isEmpty =>
    refine (single_agree h isEmpty).bind fun vs ws hvs => ?_
    cases hvs with
    | nil => exact .ok (.refl_of_isCode (isCode_bool true))
    | cons _ _ => exact .ok (.refl_of_isCode (isCode_bool false))

theorem part_of_items {u x : Value} {vs : List Value} (h : items limit v = .ok vs) (hx : x ∈ vs)
    (hu : Part u x) : Part u v := by
  cases v with
  | list items =>
    cases h
    exact .item hx hu
  | nil =>
    cases h
    cases hx
  | _ =>
    cases h

theorem part_of_single {f : ListFunction} {u x : Value} {vs : List Value}
    (h : single limit f args = .ok vs) (hx : x ∈ vs) (hu : Part u x) : ∃ a ∈ args, Part u a := by
  unfold single at h
  split at h
  · exact ⟨_, List.mem_singleton_self _, part_of_items h hx hu⟩
  · cases h

/-- What stands in the result of a list function and refers to a frame stands in an argument. -/
theorem part_of_apply {f : ListFunction} {u : Value} (h : apply limit f args = .ok v)
    (hu : Part u v) (hs : u.scope? ≠ none) : ∃ a ∈ args, Part u a := by
  have hlist {items : List Value} (hu : Part u (.list items)) : ∃ x ∈ items, Part u x :=
    (part_list_iff.1 hu).resolve_left fun he => hs (he ▸ rfl)
  have hcode (hc : v.IsCode) : ∃ a ∈ args, Part u a := absurd (hc u hu) hs
  cases f with
  | list =>
    cases h
    exact hlist hu
  | cons =>
    rcases args with _ | ⟨a, _ | ⟨b, _ | ⟨c, rest⟩⟩⟩
    · cases h
    · cases h
    · obtain ⟨vs, hvs, h⟩ := ok_of_bind h
      cases h
      obtain ⟨x, hx, hux⟩ := hlist hu
      rcases List.mem_cons.1 hx with rfl | hx
      · exact ⟨x, List.mem_cons_self, hux⟩
      · exact ⟨b, List.mem_cons_of_mem _ List.mem_cons_self, part_of_items hvs hx hux⟩
    · cases h
  | car =>
    obtain ⟨vs, hvs, h⟩ := ok_of_bind h
    cases vs with
    | nil => cases h
    | cons x rest =>
      cases h
      exact part_of_single hvs List.mem_cons_self hu
  | cdr =>
    obtain ⟨vs, hvs, h⟩ := ok_of_bind h
    cases vs with
    | nil => cases h
    | cons x rest =>
      cases h
      obtain ⟨y, hy, hu⟩ := hlist hu
      exact part_of_single hvs (List.mem_cons_of_mem _ hy) hu
  | length =>
    obtain ⟨vs, -, h⟩ := ok_of_bind h
    cases h
    exact hcode (isCode_num _)
  | isEmpty =>
    obtain ⟨vs, -, h⟩ := ok_of_bind h
    cases h
    exact hcode (isCode_bool _)

end ListFunction

namespace Evaluation

/-- **Native functions cannot tell frames apart**: of alike arguments they make alike results, and
they print the same. -/
theorem callNative_alike (limit : Nat) (h : List.Forall₂ (Like rel) args args') (f : Native) :
    ∃ result result' out, Agree (Like rel) result result' ∧
      (∀ s : Store, (callNative limit f args).run s =
        (result, { s with printed := out ++ s.printed })) ∧
      ∀ s : Store, (callNative limit f args').run s =
        (result', { s with printed := out ++ s.printed }) := by
  have hsame {r : Except Fault Value} (hc : ∀ v, r = .ok v → v.IsCode) : Agree (Like rel) r r := by
    cases r with
    | error e => exact .error e
    | ok v => exact .ok (.refl_of_isCode (hc v rfl))
  cases f with
  | arithmetic g =>
    refine ⟨g.apply limit args, g.apply limit args, [],
      hsame fun v hv => Arithmetic.isCode_of_apply hv,
      fun s => Action.run_ofExcept _ s, fun s => ?_⟩
    rw [Arithmetic.apply_eq h]
    exact Action.run_ofExcept _ s
  | string g =>
    refine ⟨g.apply limit args, g.apply limit args, [],
      hsame fun v hv => StringFunction.isCode_of_apply hv,
      fun s => Action.run_ofExcept _ s, fun s => ?_⟩
    rw [StringFunction.apply_eq h]
    exact Action.run_ofExcept _ s
  | list g =>
    exact ⟨g.apply limit args, g.apply limit args', [], ListFunction.apply_agree h g,
      fun s => Action.run_ofExcept _ s, fun s => Action.run_ofExcept _ s⟩
  | idle name =>
    exact ⟨.ok .nil, .ok .nil, [], .ok (.refl_of_isCode isCode_nil), fun _ => rfl, fun _ => rfl⟩
  | log g =>
    have hcall (s : Store) :
        (callNative limit (.log g) args').run s = (callNative limit (.log g) args).run s := by
      have hline : writeAll id args = writeAll id args' :=
        Like.writeAll_eq id (h.imp fun _ _ hv => hv.write id)
      simp only [callNative, Like.all_isWritable_eq limit h, hline]
    rcases run_log limit g args with ⟨line, out, hrun⟩ | hrun
    · exact ⟨_, _, [out], .ok (.refl_of_isCode (isCode_str line)), hrun,
        fun s => (hcall s).trans (hrun s)⟩
    · exact ⟨_, _, [], .error _, hrun, fun s => (hcall s).trans (hrun s)⟩

/-- What stands in the result of a native function and refers to a frame stands in an argument. -/
theorem part_of_callNative {f : Native} {s t : Store} {u : Value}
    (h : (callNative limit f args).run s = (.ok v, t)) (hu : Part u v) (hs : u.scope? ≠ none) :
    ∃ a ∈ args, Part u a := by
  have hcode (hc : v.IsCode) : ∃ a ∈ args, Part u a := absurd (hc u hu) hs
  cases f with
  | arithmetic g =>
    rw [callNative, Action.run_ofExcept] at h
    exact hcode (Arithmetic.isCode_of_apply (congrArg Prod.fst h))
  | string g =>
    rw [callNative, Action.run_ofExcept] at h
    exact hcode (StringFunction.isCode_of_apply (congrArg Prod.fst h))
  | list g =>
    rw [callNative, Action.run_ofExcept] at h
    exact ListFunction.part_of_apply (congrArg Prod.fst h) hu hs
  | idle name =>
    cases h
    exact hcode isCode_nil
  | log g =>
    rcases run_log limit g args with ⟨line, out, hrun⟩ | hrun
    · rw [hrun] at h
      cases h
      exact hcode (isCode_str _)
    · rw [hrun] at h
      cases h

end Evaluation

end SmallLisp
