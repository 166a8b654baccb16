import SmallLisp.Proofs.Confinement

/-! # What a bound name denotes

A `let` form and the parameters of a function bind names as they stand, while a symbol is looked up
under its name only if that does not name a member of a module.  So a plain name denotes what it was
bound to, by itself and at the head of a call (`Evaluation.Denotes`), and a qualified name is bound
to no effect: what it denotes depends on the binding of the part before the slash, which is a
different name, and on the members of the module that this is bound to.

`Evaluation.bound_names_denote` says both, for any state and scope, and
`Evaluation.qualified_binding_lost` has a qualified name that denotes nothing after it was bound.
-/
namespace SmallLisp

/-- A name of a member of a module, as symbols are understood: there is a slash in it, with
characters on both sides. -/
def IsQualified (name : String) : Prop := splitQualified name ≠ none

/-! ## Tables -/

namespace Table
variable {κ α : Type} [DecidableEq κ] {t t' : Table κ α} {key : κ}

theorem insertAll_cons (t : Table κ α) (k : κ) (v : α) (rest : List (κ × α)) :
    t.insertAll ((k, v) :: rest) = (t.insert k v).insertAll rest := rfl

theorem get?_insertAll_congr (h : t.get? key = t'.get? key) (bindings : List (κ × α)) :
    (t.insertAll bindings).get? key = (t'.insertAll bindings).get? key := by
  induction bindings generalizing t t' with
  | nil => exact h
  | cons b rest ih =>
    refine ih ?_
    rw [get?_insert, get?_insert, h]

theorem get?_insertAll_of_notMem {bindings : List (κ × α)} (h : key ∉ bindings.map Prod.fst) :
    (t.insertAll bindings).get? key = t.get? key := by
  induction bindings generalizing t with
  | nil => rfl
  | cons b rest ih =>
    rw [List.map_cons, List.mem_cons, not_or] at h
    rw [insertAll_cons, ih h.2, get?_insert, if_neg (Ne.symm h.1)]

/-- Names that are bound to as many values are bound to these. -/
theorem get?_insertAll_zip {names : List κ} {args : List α} (hn : names.Nodup)
    (hlen : args.length = names.length) (t : Table κ α) (i : Nat) (hi : i < names.length) :
    (t.insertAll (names.zip args)).get? names[i] = some args[i] := by
  induction names generalizing args t i with
  | nil => cases hi
  | cons name names ih =>
    obtain ⟨a, args, rfl⟩ := List.exists_cons_of_length_eq_add_one hlen
    obtain ⟨hname, hn⟩ := List.nodup_cons.1 hn
    rw [List.zip_cons_cons, insertAll_cons]
    cases i with
    | zero =>
      have hothers : name ∉ (names.zip args).map Prod.fst := by
        intro hmem
        obtain ⟨⟨n, v⟩, hzip, rfl⟩ := List.mem_map.1 hmem
        exact hname (List.of_mem_zip hzip).1
      rw [List.getElem_cons_zero, get?_insertAll_of_notMem hothers, get?_insert, if_pos rfl]
      rfl
    | succ i => exact ih hn (Nat.succ.inj hlen) _ i (Nat.lt_of_succ_lt_succ hi)

/-- Another value for one of the names changes no other. -/
theorem get?_insertAll_zip_set {names : List κ} {args : List α} {i : Nat} (w : α)
    (hkey : names[i]? ≠ some key) :
    (t.insertAll (names.zip (args.set i w))).get? key =
      (t.insertAll (names.zip args)).get? key := by
  induction names generalizing args i t with
  | nil => rfl
  | cons name names ih =>
    cases args with
    | nil => rfl
    | cons a args =>
      cases i with
      | zero =>
        have hne : name ≠ key := fun h => hkey (congrArg some h)
        have hfirst : (t.insert name w).get? key = (t.insert name a).get? key := by
          rw [get?_insert, get?_insert, if_neg hne, if_neg hne]
        exact get?_insertAll_congr hfirst _
      | succ i => exact ih hkey

end Table

/-! ## Frames -/

namespace Heap
variable {h h' : Heap} {scope : FrameId} {name : String} {v : Value}

theorem lt_size_of_own? (hown : h.own? scope name = some v) : scope < h.size := by
  rw [own?_eq] at hown
  obtain ⟨f, hf, -⟩ := Option.bind_eq_some_iff.1 hown
  exact h.lt_size_of_frame hf

/-- A scope's own binding of a name is its nearest. -/
theorem get?_of_own? (hown : h.own? scope name = some v) : h.get? scope name = some v := by
  rw [get?, chain_eq, if_pos (lt_size_of_own? hown)]
  cases h.outer? scope <;> simp [hown]

/-- Heaps differ in nothing but what the frames bind to a name. -/
structure SameBut (name : String) (h h' : Heap) : Prop where
  size : h'.size = h.size
  outer : ∀ id, h'.outer? id = h.outer? id
  own : ∀ id key, key ≠ name → h'.own? id key = h.own? id key

namespace SameBut

theorem chain (hs : SameBut name h h') (id : FrameId) : h'.chain id = h.chain id := by
  induction id using Nat.strongRecOn with
  | ind id ih =>
    rw [chain_eq, chain_eq h, hs.size, hs.outer]
    split
    · cases houter : h.outer? id with
      | none => rfl
      | some o =>
        obtain ⟨f, hf, ho⟩ := Option.bind_eq_some_iff.1 houter
        exact congrArg (id :: ·) (ih o (h.outer_lt_of_frame hf ho))
    · rfl

theorem get? (hs : SameBut name h h') {key : String} (hkey : key ≠ name) (id : FrameId) :
    h'.get? id key = h.get? id key := by
  rw [Heap.get?, Heap.get?, hs.chain]
  simp only [hs.own _ key hkey]

theorem root (hs : SameBut name h h') (id : FrameId) : h'.root id = h.root id := by
  rw [Heap.root, Heap.root, hs.chain]

end SameBut

theorem sameBut_define (h : Heap) (scope : FrameId) (name : String) (v : Value) :
    SameBut name h (h.define scope name v) where
  size := size_define h scope name v
  outer id := outer?_define h scope id name v
  own id key hkey := by rw [own?_define, if_neg fun hboth => hkey hboth.2.1.symm]

theorem sameBut_alloc (h : Heap) (outer? : Option FrameId) {b b' : Table String Value}
    (hb : ∀ key, key ≠ name → b'.get? key = b.get? key) :
    SameBut name (h.alloc outer? b) (h.alloc outer? b') where
  size := by rw [size_alloc, size_alloc]
  outer id := by
    rw [Heap.outer?, Heap.outer?, frames_alloc, frames_alloc]
    split <;> rfl
  own id key hkey := by rw [own?_alloc, own?_alloc, hb key hkey]

end Heap

/-! ## Names -/

namespace Scope
variable {h h' : Heap} {scope : FrameId} {name : String} {v : Value}

theorem resolve_of_get? (hplain : ¬ IsQualified name) (hget : h.get? scope name = some v) :
    resolve h scope name = .ok v ∧ resolveHead h scope name = .ok v := by
  rw [resolve, resolveHead, Classical.not_not.1 hplain]
  simp only [plain, hget, and_self]

/-- Neither part of a qualified name is the name itself. -/
theorem ne_of_splitQualified {first second : String}
    (hsplit : splitQualified name = some (first, second)) : first ≠ name ∧ second ≠ name := by
  have hname := congrArg List.length (eq_of_splitQualified hsplit)
  rw [List.length_append, List.length_cons] at hname
  constructor <;> rintro rfl <;> omega

/-- **What a qualified name denotes has nothing to do with its bindings.** -/
theorem resolve_of_sameBut (hs : Heap.SameBut name h h') (hq : IsQualified name)
    (scope : FrameId) :
    resolve h' scope name = resolve h scope name ∧
      resolveHead h' scope name = resolveHead h scope name := by
  obtain ⟨⟨first, second⟩, hsplit⟩ := Option.ne_none_iff_exists'.1 hq
  obtain ⟨hfirst, hsecond⟩ := ne_of_splitQualified hsplit
  have hmember : ∀ m, member h' m first second = member h m first second := by
    intro m
    rw [member, member, hs.own m.scope second hsecond]
  constructor
  · rw [resolve, resolve, hsplit]
    simp only [hs.get? hfirst, hmember]
  · rw [resolveHead, resolveHead, hsplit]
    simp only [hs.get? hfirst, hs.own _ first hfirst, hs.root, hmember]

end Scope

namespace Evaluation
variable {setting : Setting} {scope : FrameId} {s t : Store} {name : String} {v : Value}

/-- A symbol denotes a value in a scope: it evaluates to the value, and at the head of a call it is
the value that is called, once the arguments are evaluated. -/
structure Denotes (setting : Setting) (s : Store) (scope : FrameId) (name : String) (v : Value) :
    Prop where
  value : ∀ levels, (eval setting (levels + 1) (.sym name) scope).run s = (.ok v, s)
  head : ∀ levels args, (eval setting (levels + 1) (.list (.sym name :: args)) scope).run s =
    match (evalEach (eval setting (levels - 1)) scope args).run s with
    | (.error f, t) => (.error f, t)
    | (.ok vs, t) => (call setting.writingLimit (eval setting (levels - 2)) v vs).run t

/-- A plain name that is bound denotes its nearest binding. -/
theorem denotes_of_get? (hkeyword : SpecialForm.isKeyword name = false)
    (hplain : ¬ IsQualified name) (hget : s.heap.get? scope name = some v) :
    Denotes setting s scope name v := by
  obtain ⟨hvalue, hhead⟩ := Scope.resolve_of_get? hplain hget
  constructor
  · intro levels
    rw [eval_succ, run_step_sym, hvalue]
    rfl
  · intro levels args
    have hordinary : IsOrdinary (.sym name) := by
      intro word hword
      cases hword
      exact hkeyword
    rw [eval_succ, step_call setting scope _ hordinary, run_evalCall, run_evalHead_sym, hhead]
    rfl

/-! ## Definitions -/

/-- What a definition does: the value is found, and then the name is bound to it in the scope, which
is still there. -/
theorem exists_of_run_let {levels : Nat} {e : Value} (hscope : scope < s.heap.size)
    (h : (eval setting levels (.list [.sym "let", .sym name, e]) scope).run s = (.ok v, t)) :
    ∃ between, (eval setting (levels - 2) e scope).run s = (.ok v, between) ∧
      scope < between.heap.size ∧ t = between.defining scope name v ∧
      SpecialForm.isKeyword name = false := by
  cases levels with
  | zero => cases h
  | succ levels =>
    have hform : SpecialForm.ofKeyword? "let" = some .define := rfl
    rw [eval_succ, step_form setting scope _ hform, run_define_form, boundName] at h
    by_cases hkeyword : SpecialForm.isKeyword name = true
    · rw [if_pos hkeyword] at h
      cases h
    · rw [if_neg hkeyword] at h
      rcases he : (eval setting (levels - 1) e scope).run s with ⟨f | w, between⟩
      · simp only [he] at h
        cases h
      · simp only [he] at h
        cases h
        have hevolves : s.Evolves setting scope (Value.Defines · e)
            ((eval setting (levels - 1) e scope).run s).2 := eval_evolves setting _ _ _ s
        rw [he] at hevolves
        exact ⟨between, he, Nat.lt_of_lt_of_le hscope hevolves.size_le, rfl, by simpa using hkeyword⟩

/-! ## Parameters -/

/-- Parameters are symbols, and no keywords. -/
theorem of_parameters {limit : Nat} {params : List Value} {names : List String}
    (h : parameters limit params = .ok names) :
    params = names.map .sym ∧ ∀ name ∈ names, SpecialForm.isKeyword name = false := by
  induction params generalizing names with
  | nil =>
    cases h
    exact ⟨rfl, nofun⟩
  | cons param rest ih =>
    cases param with
    | sym name =>
      rw [parameters] at h
      by_cases hkeyword : SpecialForm.isKeyword name = true
      · rw [if_pos hkeyword] at h
        cases h
      · rw [if_neg hkeyword] at h
        rcases hrest : parameters limit rest with f | more
        · rw [hrest] at h
          cases h
        · rw [hrest] at h
          cases h
          obtain ⟨hparams, hkeywords⟩ := ih hrest
          rw [hparams]
          exact ⟨rfl, List.forall_mem_cons.2 ⟨by simpa using hkeyword, hkeywords⟩⟩
    | _ => cases h

/-- What a function form gives is a function with its parameters, body and scope. -/
theorem exists_of_run_fn {levels : Nat} {params body : Value}
    (h : (eval setting levels (.list [.sym "fn", params, body]) scope).run s = (.ok v, t)) :
    t = s ∧ ∃ names, params = .list (names.map .sym) ∧ v = .fn names body scope ∧
      ∀ name ∈ names, SpecialForm.isKeyword name = false := by
  cases levels with
  | zero => cases h
  | succ levels =>
    have hform : SpecialForm.ofKeyword? "fn" = some .lambda := rfl
    rw [eval_succ, step_form setting scope _ hform, run_lambda_form] at h
    obtain ⟨hresult, rfl⟩ := Prod.mk.inj h
    obtain ⟨ps, names, rfl, hnames, rfl⟩ := exists_of_lambdaResult hresult
    obtain ⟨rfl, hkeywords⟩ := of_parameters hnames
    exact ⟨rfl, names, rfl, rfl, hkeywords⟩

/-- **Names that are bound denote what they are bound to**, unless they are qualified.

After a `let` form that gives a value, the state is that in which the value was found with the name
bound to it.  If the name is plain, it denotes the value there.  If it is qualified, it denotes
what it would without the binding.

A function form gives a function of its parameters, which are symbols.  If they are different
names, and the function is applied to as many arguments, its body begins in a frame in which each
plain parameter denotes its argument, and a qualified one what it would with any other argument. -/
theorem bound_names_denote (setting : Setting) :
    (∀ levels name e v scope s t, scope < s.heap.size →
      (eval setting levels (.list [.sym "let", .sym name, e]) scope).run s = (.ok v, t) →
      (¬ IsQualified name → Denotes setting t scope name v) ∧
      ∃ between, (eval setting (levels - 2) e scope).run s = (.ok v, between) ∧
        t = between.defining scope name v ∧
        (IsQualified name →
          Scope.resolve t.heap scope name = Scope.resolve between.heap scope name ∧
          Scope.resolveHead t.heap scope name = Scope.resolveHead between.heap scope name)) ∧
    ∀ levels params body f scope s t,
      (eval setting levels (.list [.sym "fn", params, body]) scope).run s = (.ok f, t) →
      t = s ∧ ∃ names, params = .list (names.map .sym) ∧ f = .fn names body scope ∧
        (names.Nodup → ∀ (args : List Value) (hlen : args.length = names.length) (u : Store)
          (limit : Nat) (inner : Evaluator),
          let inside (args : List Value) : Store :=
            u.entering scope (Table.empty.insertAll (names.zip args))
          (call limit inner f args).run u = (inner body u.heap.size).run (inside args) ∧
          ∀ i (hi : i < names.length),
            (¬ IsQualified names[i] →
              Denotes setting (inside args) u.heap.size names[i] args[i]) ∧
            (IsQualified names[i] → ∀ w,
              let other := inside (args.set i w)
              Scope.resolve (inside args).heap u.heap.size names[i] =
                Scope.resolve other.heap u.heap.size names[i] ∧
              Scope.resolveHead (inside args).heap u.heap.size names[i] =
                Scope.resolveHead other.heap u.heap.size names[i])) := by
  constructor
  · intro levels name e v scope s t hscope h
    obtain ⟨between, he, hbetween, rfl, hkeyword⟩ := exists_of_run_let hscope h
    refine ⟨fun hplain => denotes_of_get? hkeyword hplain (Heap.get?_of_own? ?_),
      between, he, rfl, fun hq => ?_⟩
    · rw [Store.defining, Heap.own?_define, if_pos ⟨rfl, rfl, hbetween⟩]
    · exact Scope.resolve_of_sameBut (Heap.sameBut_define _ scope name v) hq scope
  · intro levels params body f scope s t h
    obtain ⟨rfl, names, rfl, rfl, hkeywords⟩ := exists_of_run_fn h
    refine ⟨rfl, names, rfl, rfl, fun hn args hlen u limit inner => ?_⟩
    intro inside
    refine ⟨?_, fun i hi => ⟨fun hplain => ?_, fun hq w => ?_⟩⟩
    · rw [run_call_fn, if_pos hlen]
    · refine denotes_of_get? (hkeywords _ (List.getElem_mem hi)) hplain (Heap.get?_of_own? ?_)
      simp only [inside, Store.entering]
      rw [Heap.own?_alloc, if_pos rfl, Table.get?_insertAll_zip hn hlen]
    · have hbindings : ∀ key, key ≠ names[i] →
          (Table.empty.insertAll (names.zip args)).get? key =
            (Table.empty.insertAll (names.zip (args.set i w))).get? key := by
        intro key hkey
        refine (Table.get?_insertAll_zip_set w ?_).symm
        rw [List.getElem?_eq_getElem hi]
        exact fun hsome => hkey (Option.some.inj hsome).symm
      exact Scope.resolve_of_sameBut (Heap.sameBut_alloc u.heap (some scope) hbindings) hq _

/-- A name that ends in a slash is plain: it denotes what it is bound to, as a variable and as a
parameter. -/
theorem bound_names_denote_slash :
    let setting : Setting := .standard FileTree.empty (.ofLocation [])
    let s : Store := ⟨Prelude.install Heap.empty, Registry.empty, []⟩
    let function : Value := .fn ["a/"] (.sym "a/") 4
    4 < s.heap.size ∧
    (eval setting 20 (.list [.sym "let", .sym "a/", .bool true]) 4).run s =
      (.ok (.bool true), s.defining 4 "a/" (.bool true)) ∧
    Denotes setting (s.defining 4 "a/" (.bool true)) 4 "a/" (.bool true) ∧
    (eval setting 20 (.list [.sym "fn", .list [.sym "a/"], .sym "a/"]) 4).run s =
      (.ok function, s) ∧
    Denotes setting (s.entering 4 (Table.empty.insertAll [("a/", .nil)])) s.heap.size "a/" .nil := by
  intro setting s function
  have hplain : ¬ IsQualified "a/" := by
    have hnone : splitQualified "a/" = none := by decide
    exact fun hq => hq hnone
  have hsize : 4 < s.heap.size := by decide
  have hlet : (eval setting 20 (.list [.sym "let", .sym "a/", .bool true]) 4).run s =
      (.ok (.bool true), s.defining 4 "a/" (.bool true)) := rfl
  have hfn : (eval setting 20 (.list [.sym "fn", .list [.sym "a/"], .sym "a/"]) 4).run s =
      (.ok function, s) := rfl
  obtain ⟨hdefined, happlied⟩ := bound_names_denote setting
  refine ⟨hsize, hlet, (hdefined 20 _ _ _ 4 s _ hsize hlet).1 hplain, hfn, ?_⟩
  obtain ⟨-, names, -, hfunction, hinside⟩ := happlied 20 _ _ _ 4 s s hfn
  obtain ⟨rfl, -, -⟩ := Value.fn.inj hfunction
  exact ((hinside (by decide) [.nil] rfl s 0 (eval setting 18)).2 0 (by decide)).1 hplain

/-- **A qualified name can be bound, and denotes nothing then**: the name before the slash is
undefined. -/
theorem qualified_binding_lost :
    let setting : Setting := .standard FileTree.empty (.ofLocation [])
    let s : Store := ⟨Prelude.install Heap.empty, Registry.empty, []⟩
    let t := s.defining 4 "a/b" (.num 1)
    (evaluate setting (.list [.sym "let", .sym "a/b", .num 1]) 4).run s = (.ok (.num 1), t) ∧
      (evaluate setting (.sym "a/b") 4).run t = (.error (.lisp (.undefinedSymbol "a")), t) := by
  intro setting s t
  have hsplit : splitQualified "a/b" = some ("a", "b") := by decide
  have hundefined : t.heap.get? 4 "a" = none := by decide +kernel
  have hlevels : evaluate setting = eval setting (979 + 1) := rfl
  refine ⟨rfl, ?_⟩
  rw [hlevels, eval_succ, run_step_sym, Scope.resolve, hsplit]
  simp only [hundefined]
  rfl

end Evaluation

end SmallLisp
