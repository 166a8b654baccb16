import SmallLisp.Highlight
import SmallLisp.Proofs.Running
import SmallLisp.Proofs.Tokenization

/-! # Highlighted texts

What a terminal makes of a text is said apart from highlighting: it shows the characters, except for
control sequences, which set attributes for the characters after them (`Terminal.signals`).  So the
screen is a row of characters with the attributes they were shown in (`Terminal.screen`).

Highlighting adds sequences and nothing else.  The screen shows the text that was highlighted, each
token in one colour; colours begin and end in turn, and none is left open at the end.  All of this
needs only that there is no escape character in the text itself: then no control sequence begins in
it, and none of those that are added reaches into it, whatever digits and letters stand there.

The colour of an atom tells what the atom is read as, and whether a symbol introduces a special form
when it is evaluated at the head of a list (`Highlight.Tells`).

`Highlight.highlighting_faithful` puts this together.
-/
namespace SmallLisp

/-! ## Terminals -/

namespace Terminal

/-- One thing that a terminal is told to do. -/
inductive Signal where
  /-- A character that is shown. -/
  | shown (c : Char)
  /-- A control sequence that sets attributes. -/
  | set (attributes : List Char)
  deriving DecidableEq

/-- Whether a character may stand among the attributes of a control sequence. -/
def isAttributeChar (c : Char) : Bool :=
  c.isDigit || c == ';'

/-- The attributes in the control sequence that a text starts with, and what follows it. -/
def sequence? : List Char → Option (List Char × List Char)
  | '\x1b' :: '[' :: rest =>
    match rest.dropWhile isAttributeChar with
    | 'm' :: after => some (rest.takeWhile isAttributeChar, after)
    | _ => none
  | _ => none

theorem length_of_sequence? {s attributes after : List Char}
    (h : sequence? s = some (attributes, after)) : after.length < s.length := by
  unfold sequence? at h
  split at h
  next rest =>
    split at h
    next behind hdrop =>
      cases h
      have hle := (List.dropWhile_suffix isAttributeChar (l := rest)).length_le
      rw [hdrop] at hle
      simp only [List.length_cons] at hle ⊢
      omega
    next => cases h
  next => cases h

/-- What a terminal makes of a text. -/
def signals : List Char → List Signal
  | [] => []
  | c :: rest =>
    match _h : sequence? (c :: rest) with
    | some (attributes, after) => .set attributes :: signals after
    | none => .shown c :: signals rest
termination_by s => s.length
decreasing_by
  · exact length_of_sequence? _h
  · exact Nat.lt_succ_self _

/-- The character that a signal shows. -/
def Signal.char? : Signal → Option Char
  | shown c => some c
  | set _ => none

/-- The attributes that a signal sets. -/
def Signal.attributes? : Signal → Option (List Char)
  | shown _ => none
  | set attributes => some attributes

/-- A text without its control sequences. -/
def visible (s : List Char) : List Char :=
  (signals s).filterMap Signal.char?

/-- The attributes that are set in a text, one after the other. -/
def settings (s : List Char) : List (List Char) :=
  (signals s).filterMap Signal.attributes?

/-- The attributes of plain text. -/
def plain : List Char := ['0']

/-- The characters that are shown, each with the attributes that were set last before it. -/
def screenOf (current : List Char) : List Signal → List (Char × List Char)
  | [] => []
  | .shown c :: rest => (c, current) :: screenOf current rest
  | .set attributes :: rest => screenOf attributes rest

/-- What a terminal shows of a text. -/
def screen (s : List Char) : List (Char × List Char) :=
  screenOf plain (signals s)

/-- Attributes are set and taken back in turn: a colour first, plain text last. -/
inductive Alternates : List (List Char) → Prop
  | nil : Alternates []
  | cons (color : Color) {rest : List (List Char)} (h : Alternates rest) :
      Alternates (color.attributes.toList :: plain :: rest)

theorem signals_nil : signals [] = [] := by
  rw [signals]

theorem signals_of_sequence? {c : Char} {rest attributes after : List Char}
    (h : sequence? (c :: rest) = some (attributes, after)) :
    signals (c :: rest) = .set attributes :: signals after := by
  rw [signals]
  split
  next hsome =>
    rw [h] at hsome
    cases hsome
    rfl
  next hnone =>
    rw [h] at hnone
    cases hnone

theorem sequence?_eq_none {c : Char} (hc : c ≠ '\x1b') (rest : List Char) :
    sequence? (c :: rest) = none := by
  rw [sequence?]
  intro after hcons
  exact absurd (List.cons_eq_cons.1 hcons).1 hc

theorem signals_cons {c : Char} (hc : c ≠ '\x1b') (rest : List Char) :
    signals (c :: rest) = .shown c :: signals rest := by
  rw [signals]
  split
  next hsome =>
    rw [sequence?_eq_none hc] at hsome
    cases hsome
  next => rfl

/-- A text without escape characters is shown as it is. -/
theorem signals_append {u : List Char} (hu : '\x1b' ∉ u) (v : List Char) :
    signals (u ++ v) = u.map .shown ++ signals v := by
  induction u with
  | nil => rfl
  | cons c u ih =>
    obtain ⟨hc, hu⟩ := not_or.1 (mt List.mem_cons.2 hu)
    rw [List.cons_append, signals_cons (Ne.symm hc), ih hu, List.map_cons, List.cons_append]

/-- A control sequence ends where it ends, whatever follows. -/
theorem signals_sequence {attributes : String}
    (h : ∀ c ∈ attributes.toList, isAttributeChar c = true) (v : List Char) :
    signals (Color.sequence attributes ++ v) = .set attributes.toList :: signals v := by
  have hends : ∀ d ∈ ('m' :: v).head?, isAttributeChar d = false := by
    intro d hd
    cases hd
    decide
  obtain ⟨htake, hdrop⟩ := Token.span_of_ends h hends
  have htext : Color.sequence attributes ++ v =
      '\x1b' :: '[' :: (attributes.toList ++ 'm' :: v) := by
    simp [Color.sequence]
  rw [htext]
  refine signals_of_sequence? ?_
  rw [sequence?, hdrop]
  simp only [htake]

theorem screenOf_shown (current u : List Char) (rest : List Signal) :
    screenOf current (u.map .shown ++ rest) =
      u.map (fun c => (c, current)) ++ screenOf current rest := by
  induction u with
  | nil => rfl
  | cons c u ih => exact congrArg ((c, current) :: ·) ih

theorem filterMap_char?_shown (u : List Char) : (u.map Signal.shown).filterMap Signal.char? = u := by
  rw [List.filterMap_map]
  exact List.filterMap_some

theorem filterMap_attributes?_shown (u : List Char) :
    (u.map Signal.shown).filterMap Signal.attributes? = [] := by
  rw [List.filterMap_map]
  exact List.filterMap_none u

end Terminal

/-! ## Special forms -/

namespace Evaluation

/-- A name introduces a special form: at the head of a list it stands for the form, whatever the
arguments are. -/
def Dispatches (name : String) (form : SpecialForm) : Prop :=
  ∀ (setting : Setting) (below : Nat → Evaluator) (scope : FrameId) (args : List Value),
    step setting below (.list (.sym name :: args)) scope =
      evalForm setting (below 1) (below 4) scope form args

/-- No special form does without arguments. -/
theorem run_evalForm_nil (setting : Setting) (eval evalModule : Evaluator) (scope : FrameId)
    (form : SpecialForm) (s : Store) :
    (evalForm setting eval evalModule scope form []).run s =
      (.error (.lisp (.wrongArity (.form form) 0)), s) := by
  cases form <;> rfl

/-- Where there are no frames, no name can be called. -/
theorem resolveHead_empty (scope : FrameId) (name : String) :
    ∃ undefined,
      Scope.resolveHead Heap.empty scope name = .error (.undefinedSymbol undefined) := by
  have hget : ∀ n, Heap.empty.get? scope n = none := by
    intro n
    rw [Heap.get?, Heap.chain_eq]
    rfl
  have hown : ∀ n, Heap.empty.own? (Heap.empty.root scope) n = none := by
    intro n
    rw [Heap.root, Heap.chain_eq]
    rfl
  rw [Scope.resolveHead]
  split
  next => exact ⟨name, by rw [Scope.plain, hget]⟩
  next => exact ⟨name, by simp [hget, hown]⟩

/-- **The keywords, and no other names, introduce special forms.** -/
theorem dispatches_iff {name : String} {form : SpecialForm} :
    Dispatches name form ↔ SpecialForm.ofKeyword? name = some form := by
  constructor
  · intro h
    -- without arguments and without frames, each form and each call fails in its own way
    let setting : Setting := .standard FileTree.empty (.ofLocation [])
    have hrun : (step setting (fun _ => echo) (.list [.sym name]) 0).run Store.initial =
        (.error (.lisp (.wrongArity (.form form) 0)), Store.initial) := by
      rw [h, run_evalForm_nil]
    rcases hword : SpecialForm.ofKeyword? name with _ | other
    · have hordinary : IsOrdinary (.sym name) := by
        intro word hname
        cases hname
        rw [SpecialForm.isKeyword, hword]
        rfl
      obtain ⟨undefined, hundefined⟩ := resolveHead_empty 0 name
      rw [step_call setting 0 _ hordinary, run_evalCall, run_evalHead_sym] at hrun
      simp only [Store.initial, hundefined] at hrun
      cases hrun
    · rw [step_form setting 0 _ hword, run_evalForm_nil] at hrun
      cases hrun
      rfl
  · intro h setting below scope args
    exact step_form setting scope below h args

end Evaluation

/-! ## Colours -/

namespace Highlight
open Terminal

/-- The attributes that a token is shown in. -/
def attributes (t : Token) : List Char :=
  ((color? t).map fun color => color.attributes.toList).getD plain

/-- What a terminal makes of a token in its colour. -/
def tokenSignals (t : Token) : List Signal :=
  match color? t with
  | some color => .set color.attributes.toList :: (t.text.map .shown ++ [.set plain])
  | none => t.text.map .shown

theorem isAttributeChar_of_mem {color : Color} {c : Char} (h : c ∈ color.attributes.toList) :
    isAttributeChar c = true := by
  have hall : color.attributes.toList.all isAttributeChar = true := by
    cases color <;> decide
  exact List.all_eq_true.1 hall c h

theorem signals_token {t : Token} (ht : '\x1b' ∉ t.text) (v : List Char) :
    signals (token t ++ v) = tokenSignals t ++ signals v := by
  rw [token, tokenSignals]
  cases color? t with
  | none => exact signals_append ht v
  | some color =>
    have hreset : ∀ c ∈ "0".toList, isAttributeChar c = true := List.all_eq_true.1 (by decide)
    simp only [Color.paint, Color.start, Color.reset, List.append_assoc]
    rw [signals_sequence fun c => isAttributeChar_of_mem, signals_append ht, signals_sequence hreset]
    simp [plain]

theorem signals_tokens {ts : List Token} (hts : ∀ t ∈ ts, '\x1b' ∉ t.text) :
    signals (ts.flatMap token) = ts.flatMap tokenSignals := by
  induction ts with
  | nil => exact signals_nil
  | cons t ts ih =>
    obtain ⟨ht, hts⟩ := List.forall_mem_cons.1 hts
    rw [List.flatMap_cons, signals_token ht, ih hts, List.flatMap_cons]

/-- A terminal makes of a highlighted text what it makes of its tokens in their colours. -/
theorem signals_text {s : List Char} (h : '\x1b' ∉ s) :
    signals (text s) = (Token.row 0 s).flatMap tokenSignals := by
  refine signals_tokens fun t ht hescape => h ?_
  rw [← Token.row_join 0 s]
  exact List.mem_flatMap.2 ⟨t, ht, hescape⟩

theorem filterMap_char?_tokenSignals (t : Token) :
    (tokenSignals t).filterMap Signal.char? = t.text := by
  rw [tokenSignals]
  cases color? t with
  | none => exact filterMap_char?_shown t.text
  | some color =>
    have hset : ∀ a, Signal.char? (.set a) = none := fun _ => rfl
    rw [List.filterMap_cons_none (hset _), List.filterMap_append, filterMap_char?_shown,
      List.filterMap_cons_none (hset _), List.filterMap_nil, List.append_nil]

theorem visible_text {s : List Char} (h : '\x1b' ∉ s) : visible (text s) = s := by
  rw [visible, signals_text h, List.filterMap_flatMap]
  simp only [filterMap_char?_tokenSignals]
  exact Token.row_join 0 s

/-- In a row of tokens the colours begin and end in turn. -/
theorem alternates_tokenSignals (ts : List Token) :
    Alternates ((ts.flatMap tokenSignals).filterMap Signal.attributes?) := by
  induction ts with
  | nil => exact .nil
  | cons t ts ih =>
    rw [List.flatMap_cons, List.filterMap_append, tokenSignals]
    cases color? t with
    | none =>
      rw [filterMap_attributes?_shown]
      exact ih
    | some color =>
      have hset : ∀ a, Signal.attributes? (.set a) = some a := fun _ => rfl
      rw [List.filterMap_cons_some (hset _), List.filterMap_append, filterMap_attributes?_shown,
        List.filterMap_cons_some (hset _), List.filterMap_nil]
      exact .cons color ih

/-- Every token is shown in its own colour, if the one before it was ended. -/
theorem screenOf_tokenSignals (ts : List Token) :
    screenOf plain (ts.flatMap tokenSignals) =
      ts.flatMap fun t => t.text.map fun c => (c, attributes t) := by
  induction ts with
  | nil => rfl
  | cons t ts ih =>
    rw [List.flatMap_cons, List.flatMap_cons, ← ih, tokenSignals, attributes]
    cases color? t with
    | none => exact screenOf_shown plain t.text _
    | some color =>
      rw [List.cons_append, screenOf, List.append_assoc, screenOf_shown]
      rfl

/-! ### Atoms -/

/-- A colour, or the lack of one, tells what an atom is read as. -/
structure Tells (color? : Option Color) (v : Value) : Prop where
  number : color? = some .number ↔ ∃ x, v = .num x
  literal : color? = some .literal ↔ v = .bool true ∨ v = .bool false ∨ v = .nil
  form : color? = some .form ↔ ∃ name form, v = .sym name ∧ Evaluation.Dispatches name form
  plain : color? = none ↔ ∃ name, v = .sym name ∧ ∀ form, ¬ Evaluation.Dispatches name form

/-- A keyword is neither a numeral nor a literal. -/
theorem atom_keyword (form : SpecialForm) :
    Reader.atom form.keyword.toList = .sym form.keyword := by
  cases form <;> rfl

theorem atom_of_literal? {text : List Char} {v : Value} (h : Reader.literal? text = some v) :
    Reader.atom text = v ∧ (v = .bool true ∨ v = .bool false ∨ v = .nil) := by
  unfold Reader.literal? at h
  split at h
  next htext =>
    cases h
    rw [htext]
    exact ⟨rfl, .inl rfl⟩
  split at h
  next htext =>
    cases h
    rw [htext]
    exact ⟨rfl, .inr (.inl rfl)⟩
  split at h
  next htext =>
    cases h
    rw [htext]
    exact ⟨rfl, .inr (.inr rfl)⟩
  next => cases h

/-- **The colour of an atom tells what it is read as**, though the two ask in another order whether
it is a keyword, a literal or a numeral. -/
theorem tells_atomColor? (text : List Char) : Tells (atomColor? text) (Reader.atom text) := by
  by_cases hkeyword : SpecialForm.isKeyword (String.ofList text) = true
  · obtain ⟨form, hform⟩ := Option.isSome_iff_exists.1 hkeyword
    have hcolor : atomColor? text = some .form := if_pos hkeyword
    have hatom : Reader.atom text = .sym (String.ofList text) := by
      rw [← SpecialForm.keyword_of_ofKeyword? hform, ← atom_keyword form,
        SpecialForm.keyword_of_ofKeyword? hform, String.toList_ofList]
    constructor <;> simp [hcolor, hatom, Evaluation.dispatches_iff, hform]
  have hnone : SpecialForm.ofKeyword? (String.ofList text) = none := by
    simpa [SpecialForm.isKeyword] using hkeyword
  rcases hliteral : Reader.literal? text with _ | v
  · rcases hparse : Number.Numeral.parse? text with _ | n
    · have hcolor : atomColor? text = none := by
        simp [atomColor?, hkeyword, hliteral, hparse]
      have hatom : Reader.atom text = .sym (String.ofList text) := by
        simp [Reader.atom, Number.Numeral.read?, hparse, hliteral]
      constructor <;> simp [hcolor, hatom, Evaluation.dispatches_iff, hnone]
    · have hcolor : atomColor? text = some .number := by
        simp [atomColor?, hkeyword, hliteral, hparse]
      have hatom : Reader.atom text = .num n.toFloat := by
        simp [Reader.atom, Number.Numeral.read?, hparse]
      constructor <;> simp [hcolor, hatom]
  · have hcolor : atomColor? text = some .literal := by
      simp [atomColor?, hkeyword, hliteral]
    obtain ⟨hatom, hv⟩ := atom_of_literal? hliteral
    constructor
    all_goals rcases hv with rfl | rfl | rfl <;> simp [hcolor, hatom]

/-- **Highlighting changes no text and tells what the reader makes of it.**  Of a highlighted text
without escape characters, a terminal shows the text, every token in its colour; colours begin and
end in turn and none is left open.  The colour of an atom is that of numbers, literals or special
forms exactly if the atom is read as a number, as a literal or as a symbol that introduces a special
form; all other symbols have none. -/
theorem highlighting_faithful {s : List Char} (h : '\x1b' ∉ s) :
    visible (text s) = s ∧
    Alternates (settings (text s)) ∧
    screen (text s) =
      ((Token.row 0 s).flatMap fun t => t.text.map fun c => (c, attributes t)) ∧
    ∀ t ∈ Token.row 0 s, t.kind = .atom → Tells (color? t) (Reader.atom t.text) := by
  refine ⟨visible_text h, ?_, ?_, fun t _ hkind => ?_⟩
  · rw [settings, signals_text h]
    exact alternates_tokenSignals _
  · rw [screen, signals_text h, screenOf_tokenSignals]
  · have hcolor : color? t = atomColor? t.text := by rw [color?, hkind]
    rw [hcolor]
    exact tells_atomColor? t.text

/-- The brackets, digits and letters of a text make no control sequences with those that are put
around its tokens, and its symbols are not taken for numbers. -/
theorem highlighting_faithful_brackets :
    let s := "(let [94m 94".toList
    '\x1b' ∉ s ∧ visible (text s) = s ∧
      settings (text s) = ["1;35".toList, plain, "94".toList, plain] ∧
      ⟨.atom, "94".toList, 10⟩ ∈ Token.row 0 s ∧
      color? ⟨.atom, "94".toList, 10⟩ = some .number := by
  intro s
  have hs : '\x1b' ∉ s := by decide
  have hrow : ⟨.atom, "94".toList, 10⟩ ∈ Token.row 0 s := by decide +kernel
  obtain ⟨hvisible, -, -, hatoms⟩ := highlighting_faithful hs
  have htells := hatoms _ hrow rfl
  exact ⟨hs, hvisible, by decide +kernel, hrow, htells.number.2 ⟨_, rfl⟩⟩

end Highlight

end SmallLisp
