import SmallLisp.Native.Arithmetic
import Mathlib.Data.List.Forall2

/-! # Operands

How a call of an arithmetic function ends is told before anything is computed.  The number of the
arguments is right or it is not (`accepts`).  If it is, each argument is one that there is something
to complain about or one that there is not (`complaint`), and the call fails with the complaint
about the leftmost one of the first kind, if there is any.

An equality does not look at everything: it is settled by the first number that differs from the
first argument, and what stands behind that number is not checked (`reach`).  So it is the only
function of these, besides division, whose faults depend on what the numbers are.
-/
namespace SmallLisp

/-- Whether a value is a number.  Truth values are not. -/
def Value.isNumber : Value → Bool
  | .num _ => true
  | _ => false

namespace Arithmetic
variable {f : Arithmetic} {args rest others : List Value} {limit count place : Nat} {x : Float}
  {v : Value} {fault : Fault}

/-- Whether a function takes so many arguments. -/
def accepts : Arithmetic → Nat → Bool
  | add, _ | multiply, _ => true
  | subtract, n | divide, n => 1 ≤ n
  | equal, n => 2 ≤ n
  | less, n | greater, n | atMost, n | atLeast, n => n == 2

/-- What there is to complain about in the argument at a place, with `count` arguments given, where
so many lists inside one another can be written.  A number is complained about if it is a zero to
divide by, be it the only argument or one behind the first. -/
def complaint (limit : Nat) (f : Arithmetic) (count place : Nat) : Value → Option Fault
  | .num x =>
    if f = divide ∧ x == 0 then
      if 0 < place then some (.lisp (.zeroDivisor (place + 1)))
      else if count = 1 then some (.lisp .zeroReciprocal)
      else none
    else none
  | v => some (.wrongType limit .number v)

/-- The arguments up to the first number that differs from a given one. -/
def upToDifference (x : Float) : List Value → List Value
  | [] => []
  | v :: rest =>
    v :: match v with
      | .num y => if y == x then upToDifference x rest else []
      | _ => upToDifference x rest

/-- The arguments that matter to a function: all of them, except that an equality is settled by the
first number that differs from the first argument. -/
def reach : Arithmetic → List Value → List Value
  | equal, v :: rest =>
    v :: match v with
      | .num x => upToDifference x rest
      | _ => rest
  | _, args => args

/-- A fault is the complaint about the leftmost argument complained about. -/
def IsLeftmost (limit : Nat) (f : Arithmetic) (count : Nat) (args : List Value) (fault : Fault) :
    Prop :=
  ∃ i v, args[i]? = some v ∧ f.complaint limit count i v = some fault ∧
    ∀ j < i, ∀ u, args[j]? = some u → f.complaint limit count j u = none

/-! ## Complaints -/

/-- There is nothing to complain about in a number that is not divided by or is not zero. -/
theorem complaint_eq_none_iff : f.complaint limit count place v = none ↔
    v.isNumber = true ∧
      (f = divide → 0 < place ∨ count = 1 → ∀ x, v = .num x → (x == 0) = false) := by
  cases v with
  | num x =>
    by_cases hzero : f = divide ∧ (x == 0) = true
    · obtain ⟨rfl, hx⟩ := hzero
      by_cases hplace : 0 < place <;> by_cases hcount : count = 1 <;>
        simp [complaint, Value.isNumber, hx, hplace, hcount]
    · simp only [complaint, if_neg hzero, Value.isNumber, true_and, true_iff]
      rintro rfl - y hy
      cases hy
      simpa using hzero
  | _ => simp [complaint, Value.isNumber]

theorem complaint_of_not_isNumber (h : v.isNumber = false) : f.complaint limit count place v =
    some (if v.isWritable limit then .lisp (.wrongType .number v.readable) else .tooDeep) := by
  cases v with
  | num x => cases h
  | _ =>
    simp only [complaint, Fault.wrongType, Value.writeReadable]
    split_ifs <;> rfl

/-- A complaint is never about the number of the arguments. -/
theorem complaint_ne_wrongArity (callee : Callee) (given : Nat) :
    f.complaint limit count place v ≠ some (.lisp (.wrongArity callee given)) := by
  by_cases hnumber : v.isNumber = true
  · cases v with
    | num x =>
      simp only [complaint]
      split_ifs <;> simp
    | _ => cases hnumber
  · rw [complaint_of_not_isNumber (Bool.eq_false_iff.2 hnumber)]
    split_ifs <;> simp

theorem complaint_of_ne_divide (hf : f ≠ divide) (x : Float) :
    f.complaint limit count place (.num x) = none := by
  simp [complaint, hf]

theorem complaint_eq_of_number_eq_error {e : Fault} (h : number limit v = .error e) :
    f.complaint limit count place v = some e := by
  cases v with
  | num x => cases h
  | _ =>
    cases h
    rfl

/-- The complaint about the leftmost argument complained about, the first being at a place. -/
def firstComplaint (limit : Nat) (f : Arithmetic) (count place : Nat) : List Value → Option Fault
  | [] => none
  | v :: rest =>
    (f.complaint limit count place v).or (firstComplaint limit f count (place + 1) rest)

theorem firstComplaint_eq_some_iff : f.firstComplaint limit count place args = some fault ↔
    ∃ i v, args[i]? = some v ∧ f.complaint limit count (place + i) v = some fault ∧
      ∀ j < i, ∀ u, args[j]? = some u → f.complaint limit count (place + j) u = none := by
  induction args generalizing place with
  | nil => simp [firstComplaint]
  | cons v rest ih =>
    -- with an argument in front, what stood at a place stands at the next one
    rw [firstComplaint, Option.or_eq_some_iff, ih]
    constructor
    · rintro (hv | ⟨hv, i, w, hw, hfault, hbefore⟩)
      · exact ⟨0, v, rfl, hv, fun j hj => absurd hj (Nat.not_lt_zero j)⟩
      · refine ⟨i + 1, w, hw, by rwa [Nat.add_right_comm] at hfault, fun j hj u hu => ?_⟩
        cases j with
        | zero =>
          cases hu
          exact hv
        | succ j =>
          have hnone := hbefore j (Nat.lt_of_succ_lt_succ hj) u hu
          rwa [Nat.add_right_comm] at hnone
    · rintro ⟨i, w, hw, hfault, hbefore⟩
      cases i with
      | zero =>
        cases hw
        exact .inl hfault
      | succ i =>
        refine .inr ⟨hbefore 0 (Nat.succ_pos i) v rfl, i, w, hw,
          by rwa [Nat.add_right_comm], fun j hj u hu => ?_⟩
        rw [Nat.add_right_comm]
        exact hbefore (j + 1) (Nat.succ_lt_succ hj) u hu

theorem firstComplaint_eq_none_iff : f.firstComplaint limit count place args = none ↔
    ∀ i v, args[i]? = some v → f.complaint limit count (place + i) v = none := by
  induction args generalizing place with
  | nil => simp [firstComplaint]
  | cons v rest ih =>
    rw [firstComplaint, Option.or_eq_none_iff, ih]
    constructor
    · rintro ⟨hv, hrest⟩ i w hw
      cases i with
      | zero =>
        cases hw
        exact hv
      | succ i =>
        have hnone := hrest i w hw
        rwa [Nat.add_right_comm] at hnone
    · intro hall
      refine ⟨hall 0 v rfl, fun i w hw => ?_⟩
      rw [Nat.add_right_comm]
      exact hall (i + 1) w hw

/-- Numbers in the same places are complained about alike where nothing is divided. -/
theorem firstComplaint_congr (hf : f ≠ divide)
    (h : List.Forall₂ (fun v w => v = w ∨ v.isNumber = true ∧ w.isNumber = true) args others) :
    f.firstComplaint limit count place args = f.firstComplaint limit count place others := by
  induction h generalizing place with
  | nil => rfl
  | @cons v w rest rest' hvw _ ih =>
    have hhead : f.complaint limit count place v = f.complaint limit count place w := by
      rcases hvw with rfl | ⟨hv, hw⟩
      · rfl
      · rw [complaint_eq_none_iff.2 ⟨hv, fun h => absurd h hf⟩,
          complaint_eq_none_iff.2 ⟨hw, fun h => absurd h hf⟩]
    rw [firstComplaint, firstComplaint, hhead, ih]

/-! ## What matters to a function -/

theorem reach_of_ne_equal (hf : f ≠ equal) (args : List Value) : f.reach args = args := by
  cases f with
  | equal => exact absurd rfl hf
  | _ => rfl

theorem upToDifference_cases (x : Float) (args : List Value) : upToDifference x args = args ∨
    ∃ y before after, args = before ++ .num y :: after ∧
      (∀ z, .num z ∈ before → (z == x) = true) ∧ (y == x) = false ∧
      upToDifference x args = before ++ [.num y] := by
  induction args with
  | nil => exact .inl rfl
  | cons v rest ih =>
    by_cases hdiffers : ∃ y, v = .num y ∧ (y == x) = false
    · obtain ⟨y, rfl, hy⟩ := hdiffers
      exact .inr ⟨y, [], rest, rfl, by simp, hy, by simp [upToDifference, hy]⟩
    · have hequal : ∀ y, v = .num y → (y == x) = true := by
        intro y hv
        by_contra hy
        exact hdiffers ⟨y, hv, Bool.eq_false_iff.2 hy⟩
      have hcons : upToDifference x (v :: rest) = v :: upToDifference x rest := by
        cases v with
        | num y => simp [upToDifference, hequal y rfl]
        | _ => rfl
      rw [hcons]
      rcases ih with hall | ⟨y, before, after, rfl, hbefore, hy, hreach⟩
      · exact .inl (by rw [hall])
      · refine .inr ⟨y, v :: before, after, rfl, fun z hz => ?_, hy, by rw [hreach]; rfl⟩
        rcases List.mem_cons.1 hz with hv | hmem
        · exact hequal z hv.symm
        · exact hbefore z hmem

theorem reach_cases (f : Arithmetic) (args : List Value) : f.reach args = args ∨
    f = equal ∧ ∃ x y before after, args = .num x :: before ++ .num y :: after ∧
      (∀ z, .num z ∈ before → (z == x) = true) ∧ (y == x) = false ∧
      f.reach args = .num x :: before ++ [.num y] := by
  by_cases hf : f = equal
  · subst hf
    by_cases hnumber : ∃ x rest, args = .num x :: rest
    · obtain ⟨x, rest, rfl⟩ := hnumber
      have hreach : equal.reach (.num x :: rest) = .num x :: upToDifference x rest := rfl
      rw [hreach]
      rcases upToDifference_cases x rest with hall | ⟨y, before, after, rfl, hbefore, hy, hcut⟩
      · exact .inl (by rw [hall])
      · exact .inr ⟨rfl, x, y, before, after, rfl, hbefore, hy, by rw [hcut]; rfl⟩
    · refine .inl ?_
      rcases args with _ | ⟨v, rest⟩
      · rfl
      · cases v with
        | num x => exact absurd ⟨x, rest, rfl⟩ hnumber
        | _ => rfl
  · exact .inl (reach_of_ne_equal hf args)

/-! ## The loops

Each loop fails with the first complaint about what it runs over.
-/

theorem bind_ok_eq_error_iff {α β : Type} {a : Except Fault α} {g : α → β} :
    (a >>= fun b => .ok (g b)) = .error fault ↔ a = .error fault := by
  cases a <;> simp [bind, Except.bind]

/-- A computation that begins with an argument fails as it should if its continuation does. -/
theorem number_bind_eq_error_iff {α : Type} {g : Float → Except Fault α} {later : Option Fault}
    (h : ∀ x, v = .num x → (g x = .error fault ↔
      (f.complaint limit count place v).or later = some fault)) :
    (number limit v >>= g) = .error fault ↔
      (f.complaint limit count place v).or later = some fault := by
  cases hv : number limit v with
  | error e =>
    rw [complaint_eq_of_number_eq_error hv]
    simp [bind, Except.bind]
  | ok x =>
    cases v with
    | num y =>
      cases hv
      exact h _ rfl
    | _ => cases hv

theorem numbers_eq_error_iff (hf : f ≠ divide) :
    numbers limit args = .error fault ↔ f.firstComplaint limit count place args = some fault := by
  induction args generalizing place with
  | nil => simp [numbers, firstComplaint]
  | cons v rest ih =>
    refine number_bind_eq_error_iff fun x hv => ?_
    subst hv
    rw [complaint_of_ne_divide hf, Option.none_or, ← ih]
    exact bind_ok_eq_error_iff

theorem divideBy_eq_error_iff (hplace : 0 < place) :
    divideBy limit x (place + 1) args = .error fault ↔
    divide.firstComplaint limit count place args = some fault := by
  induction args generalizing x place with
  | nil => simp [divideBy, firstComplaint]
  | cons v rest ih =>
    refine number_bind_eq_error_iff fun y hv => ?_
    subst hv
    by_cases hy : (y == 0) = true
    · simp [complaint, hy, hplace, throw, throwThe, MonadExceptOf.throw, bind, Except.bind]
    · rw [if_neg hy, complaint, if_neg (fun h => hy h.2), Option.none_or, ← ih (Nat.succ_pos place)]

theorem allEqual_eq_error_iff : allEqual limit x args = .error fault ↔
    equal.firstComplaint limit count place (upToDifference x args) = some fault := by
  induction args generalizing place with
  | nil => simp [allEqual, upToDifference, firstComplaint]
  | cons v rest ih =>
    refine number_bind_eq_error_iff fun y hv => ?_
    subst hv
    rw [complaint_of_ne_divide (by decide), Option.none_or]
    by_cases hy : (y == x) = true
    · simp only [hy, if_true]
      exact ih
    · simp [hy, firstComplaint, pure, Except.pure]

theorem compare_eq_error_iff {holds : Float → Float → Bool} (hf : f ≠ divide)
    (hcount : args.length = 2) :
    compare limit f holds args = .error fault ↔
      f.firstComplaint limit count place args = some fault := by
  obtain ⟨v, w, rfl⟩ := List.length_eq_two.1 hcount
  refine number_bind_eq_error_iff fun x hv => ?_
  rw [hv, complaint_of_ne_divide hf, Option.none_or]
  refine number_bind_eq_error_iff fun y hw => ?_
  rw [hw, complaint_of_ne_divide hf]
  simp [firstComplaint, pure, Except.pure]

/-! ## Whole calls -/

theorem apply_of_not_accepts (h : f.accepts args.length = false) :
    f.apply limit args = .error (.lisp (.wrongArity (.native (.arithmetic f)) args.length)) := by
  cases f with
  | add | multiply => cases h
  | less | greater | atMost | atLeast =>
    rcases args with _ | ⟨v, _ | ⟨w, _ | ⟨u, rest⟩⟩⟩ <;> first | rfl | cases h
  | subtract | divide | equal =>
    rcases args with _ | ⟨v, _ | ⟨w, rest⟩⟩ <;> first | rfl | simp [accepts] at h

theorem apply_eq_error_iff (h : f.accepts args.length = true) : f.apply limit args = .error fault ↔
    f.firstComplaint limit args.length 0 (f.reach args) = some fault := by
  cases f with
  | add | multiply => exact bind_ok_eq_error_iff.trans (numbers_eq_error_iff (by decide))
  | less | greater | atMost | atLeast =>
    exact compare_eq_error_iff (by decide) (by simpa [accepts] using h)
  | subtract =>
    rw [reach_of_ne_equal (by decide)]
    rcases args with _ | ⟨v, _ | ⟨w, rest⟩⟩
    · simp [accepts] at h
    · refine number_bind_eq_error_iff fun x hv => ?_
      rw [hv, complaint_of_ne_divide (by decide)]
      simp [firstComplaint, pure, Except.pure]
    · refine number_bind_eq_error_iff fun x hv => ?_
      rw [hv, complaint_of_ne_divide (by decide), Option.none_or]
      exact bind_ok_eq_error_iff.trans (numbers_eq_error_iff (by decide))
  | divide =>
    rw [reach_of_ne_equal (by decide)]
    rcases args with _ | ⟨v, _ | ⟨w, rest⟩⟩
    · simp [accepts] at h
    · refine number_bind_eq_error_iff fun x hv => ?_
      subst hv
      by_cases hx : (x == 0) = true
      · simp [complaint, hx, throw, throwThe, MonadExceptOf.throw, bind, Except.bind]
      · simp [complaint, hx, firstComplaint, pure, Except.pure]
    · refine number_bind_eq_error_iff fun x hv => ?_
      have hfirst : divide.complaint limit (v :: w :: rest).length 0 v = none := by
        rw [complaint_eq_none_iff, hv]
        simp [Value.isNumber]
      rw [hfirst, Option.none_or]
      exact bind_ok_eq_error_iff.trans (divideBy_eq_error_iff Nat.one_pos)
  | equal =>
    rcases args with _ | ⟨v, _ | ⟨w, rest⟩⟩
    · simp [accepts] at h
    · simp [accepts] at h
    · refine number_bind_eq_error_iff fun x hv => ?_
      subst hv
      rw [complaint_of_ne_divide (by decide), Option.none_or]
      exact bind_ok_eq_error_iff.trans allEqual_eq_error_iff

theorem exists_apply_eq_ok_iff (h : f.accepts args.length = true) :
    (∃ v, f.apply limit args = .ok v) ↔
    ∀ i v, (f.reach args)[i]? = some v → f.complaint limit args.length i v = none := by
  have hvalue : (∃ v, f.apply limit args = .ok v) ↔ ∀ fault, f.apply limit args ≠ .error fault := by
    cases f.apply limit args <;> simp
  simp only [hvalue, ne_eq, apply_eq_error_iff h]
  rw [← Option.eq_none_iff_forall_ne_some, firstComplaint_eq_none_iff]
  simp only [Nat.zero_add]

/-- How the calls of a function end, told from the arguments, where so many lists inside one another
can be written. -/
structure ChecksOperands (limit : Nat) (f : Arithmetic) : Prop where
  /-- The number of the arguments is complained about exactly if it is wrong. -/
  counts : ∀ args,
    (∃ callee given, f.apply limit args = .error (.lisp (.wrongArity callee given))) ↔
    f.accepts args.length = false
  /-- That complaint names the function and tells the number. -/
  tells : ∀ args, f.accepts args.length = false →
    f.apply limit args = .error (.lisp (.wrongArity (.native (.arithmetic f)) args.length))
  /-- Otherwise the leftmost argument complained about, of those that matter, is what the call fails
  for. -/
  complains : ∀ args fault, f.accepts args.length = true →
    (f.apply limit args = .error fault ↔ f.IsLeftmost limit args.length (f.reach args) fault)
  /-- What is not a number is complained about as such, with its text if it has one. -/
  quotes : ∀ count place v, v.isNumber = false → f.complaint limit count place v =
    some (if v.isWritable limit then .lisp (.wrongType .number v.readable) else .tooDeep)
  /-- There is a value exactly if there are as many arguments as there should be, those that matter
  are numbers, and none that is divided by is zero. -/
  answers : ∀ args, (∃ v, f.apply limit args = .ok v) ↔
    f.accepts args.length = true ∧ (∀ v ∈ f.reach args, v.isNumber = true) ∧
      (f = divide → ∀ i x, args[i]? = some (.num x) → 0 < i ∨ args.length = 1 → (x == 0) = false)
  /-- All arguments matter to every function but equality, and to that up to the first number that
  differs from the first argument. -/
  matters : ∀ args, f.reach args = args ∨
    f = equal ∧ ∃ x y before after, args = .num x :: before ++ .num y :: after ∧
      (∀ z, .num z ∈ before → (z == x) = true) ∧ (y == x) = false ∧
      f.reach args = .num x :: before ++ [.num y]
  /-- What numbers are given makes no difference to the faults, but for equality and division. -/
  unaffected : f ≠ equal → f ≠ divide → ∀ args others,
    List.Forall₂ (fun v w => v = w ∨ v.isNumber = true ∧ w.isNumber = true) args others →
      ∀ fault, f.apply limit args = .error fault ↔ f.apply limit others = .error fault

/-- **Every argument that matters is checked.** -/
theorem operands_checked (limit : Nat) (f : Arithmetic) : ChecksOperands limit f where
  counts := by
    intro args
    constructor
    · rintro ⟨callee, given, hfault⟩
      by_contra haccepts
      rw [Bool.not_eq_false] at haccepts
      obtain ⟨i, v, -, hv, -⟩ :=
        firstComplaint_eq_some_iff.1 ((apply_eq_error_iff haccepts).1 hfault)
      exact complaint_ne_wrongArity callee given hv
    · intro haccepts
      exact ⟨_, _, apply_of_not_accepts haccepts⟩
  tells := fun args => apply_of_not_accepts
  complains := by
    intro args fault haccepts
    rw [apply_eq_error_iff haccepts, firstComplaint_eq_some_iff]
    simp only [Nat.zero_add, IsLeftmost]
  quotes := fun count place v => complaint_of_not_isNumber
  answers := by
    intro args
    by_cases haccepts : f.accepts args.length = true
    · rw [exists_apply_eq_ok_iff haccepts]
      simp only [complaint_eq_none_iff, haccepts, true_and]
      constructor
      · intro hall
        refine ⟨fun v hv => ?_, ?_⟩
        · obtain ⟨i, hi⟩ := List.mem_iff_getElem?.1 hv
          exact (hall i v hi).1
        · rintro rfl i x hi hdivisor
          exact (hall i _ hi).2 rfl hdivisor x rfl
      · rintro ⟨hnumbers, hdivisors⟩ i v hi
        refine ⟨hnumbers v (List.mem_of_getElem? hi), ?_⟩
        rintro rfl hdivisor x rfl
        exact hdivisors rfl i x hi hdivisor
    · simp [haccepts, apply_of_not_accepts (Bool.eq_false_iff.2 haccepts)]
  matters := reach_cases f
  unaffected := by
    intro hequal hdivide args others hsame fault
    have hlength := hsame.length_eq
    by_cases haccepts : f.accepts args.length = true
    · rw [apply_eq_error_iff haccepts, apply_eq_error_iff (hlength ▸ haccepts),
        reach_of_ne_equal hequal, reach_of_ne_equal hequal, hlength,
        firstComplaint_congr hdivide hsame]
    · rw [Bool.not_eq_true] at haccepts
      rw [apply_of_not_accepts haccepts, apply_of_not_accepts (hlength ▸ haccepts), hlength]

/-- A difference hides what stands behind it: `nil` is an argument to be complained about, but not
behind a number that differs from the first. -/
theorem difference_hides_operand : Value.nil.isNumber = false ∧ ∀ limit,
    equal.apply limit [.num 1, .num 1, .nil] = .error (.wrongType limit .number .nil) ∧
    equal.apply limit [.num 1, .num 2, .nil] = .ok (.bool false) :=
  ⟨rfl, fun _ => ⟨rfl, rfl⟩⟩

end Arithmetic

end SmallLisp
