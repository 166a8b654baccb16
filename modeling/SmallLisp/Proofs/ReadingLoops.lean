import SmallLisp.Proofs.Code
import SmallLisp.Proofs.ReadBack
import SmallLisp.Proofs.ReadingProgress
import SmallLisp.Proofs.Running

/-! # Reading one expression at a time

A text is evaluated by a loop that reads an expression, evaluates it, and goes on with the text
behind it, as if nothing had stood before (`ReadingLoop`).  There are two such loops: the one over
a text (`ReadingLoop.evaluating`) ends where only blanks are left, the one over the file of a module
(`ReadingLoop.loading`) strips the blanks first and ends where nothing is left.

Both find what reading the whole text at once finds (`ReadingLoop.agrees`).  The tokens of the text
behind an expression are those that the whole text has there, only nearer to the start
(`Reader.exists_of_parseOne`), and what is read of tokens does not depend on where they stand.  So
the expressions are the same, and an error is the same up to the length of what has been read
before (`Passage.IsOf`).

That texts are evaluated as scripts, read to the end first, is no difference: reading asks nothing
of the state (`ReadingLoop.evaluate_eq`).
-/
namespace SmallLisp

namespace Reader
open Token

/-! ## The text behind an expression -/

theorem meaningful_shift (n : Nat) (s : List Char) :
    meaningfulFrom n s = (meaningful s).map (Token.shift n) :=
  meaningfulFrom_shift n 0 s

theorem meaningful_blanks {blanks : List Char} (hb : Text.isAllBlank blanks = true)
    (s : List Char) :
    meaningful (blanks ++ s) = (meaningful s).map (Token.shift blanks.length) := by
  rw [meaningful_eq_meaningfulFrom, meaningfulFrom_blanks hb, Nat.zero_add, meaningful_shift]

/-- Text behind others is read as by itself, up to the places. -/
theorem parseAll_of_shift {s u : List Char} {n : Nat}
    (h : meaningful s = (meaningful u).map (Token.shift n)) :
    progress [] (meaningful s) = (progress [] (meaningful u)).shift n ∧
      parseAll s = (parseAll u).mapError (SyntaxError.shift n) := by
  have hprogress : progress [] (meaningful s) =
      (progress [] (meaningful u)).shift n := by
    rw [h]
    exact progress_shift n [] _
  refine ⟨hprogress, ?_⟩
  rw [parseAll_eq_outcome, parseAll_eq_outcome, hprogress, Progress.outcome_shift]

/-- A text that is empty or starts with a token that has a meaning. -/
def StartsMeaningful (s : List Char) : Prop :=
  ∀ c more, s = c :: more → (split c more).1.isTrivia = false

/-- **Tokens at the end of a text are those of the text from the first of them on.** -/
theorem exists_textFrom {s : List Char} {read after : List Token}
    (htokens : meaningful s = read ++ after) (hkinds : ∀ t ∈ read, t.kind ≠ .unterminated) :
    ∃ before, s = before ++ textFrom s after ∧ StartsMeaningful (textFrom s after) ∧
      after = (meaningful (textFrom s after)).map (Token.shift before.length) := by
  cases after with
  | nil =>
    refine ⟨s, (List.append_nil s).symm, ?_, ?_⟩
    · intro c more he
      cases he
    · rw [textFrom, meaningful_eq_meaningfulFrom, meaningfulFrom_nil, List.map_nil]
  | cons t after =>
    obtain ⟨x, c, rest, hs, hoffset, hkind, htext, hmeaning, -, hcut⟩ :=
      meaningfulFrom_cut htokens hkinds
    rw [Nat.zero_add] at hoffset
    have hdrop : textFrom s (t :: after) = c :: rest := by
      rw [textFrom, hs, hoffset]
      exact List.drop_left
    have hafter : t :: after = (meaningful (c :: rest)).map (Token.shift x.length) := by
      have hwhole := hcut []
      rw [List.append_nil, List.append_nil, ← meaningful_eq_meaningfulFrom, htokens,
        List.append_cancel_left_eq, hoffset, meaningful_shift] at hwhole
      exact hwhole
    rw [hdrop]
    refine ⟨x, hs, ?_, hafter⟩
    intro c' more he
    cases he
    rw [hkind]
    exact hmeaning

/-- **The text behind the first expression**: a proper suffix, which starts with a meaningful token
if it is not empty.  Its tokens are those behind the tokens of the expression. -/
theorem exists_of_parseOne {s rest : List Char} {v : Value}
    (h : parseOne s = .ok (some (v, rest))) :
    ∃ before read, s = before ++ rest ∧ before ≠ [] ∧ StartsMeaningful rest ∧
      meaningful s = read ++ (meaningful rest).map (Token.shift before.length) ∧
      readOne [] (meaningful s) =
        .ok (some (v, (meaningful rest).map (Token.shift before.length))) ∧
      progress [] read = ⟨[v], .ok []⟩ := by
  rcases hr : readOne [] (meaningful s) with e | _ | ⟨w, after⟩
  · rw [parseOne, hr] at h
    cases h
  · rw [parseOne, hr] at h
    cases h
  have hlength := parseOne_length h
  rw [parseOne, hr] at h
  cases h
  obtain ⟨read, -, htokens, hread⟩ := progress_of_readOne hr
  obtain ⟨before, hs, hstarts, hafter⟩ :=
    exists_textFrom htokens (kind_ne_of_progress (congrArg Progress.ending hread))
  refine ⟨before, read, hs, ?_, hstarts, ?_, ?_, hread⟩
  · rintro rfl
    rw [List.nil_append] at hs
    rw [← hs] at hlength
    exact Nat.lt_irrefl _ hlength
  · rw [← hafter, htokens]
  · rw [← hafter]

/-- If there is no first expression, there are no tokens that have a meaning. -/
theorem meaningful_of_parseOne_eq_none {s : List Char} (h : parseOne s = .ok none) :
    meaningful s = [] := by
  rcases hr : readOne [] (meaningful s) with e | _ | ⟨w, after⟩
  · rw [parseOne, hr] at h
    cases h
  · exact (eq_nil_of_readOne_eq_none hr).2
  · rw [parseOne, hr] at h
    cases h

theorem parseOne_eq_none_of_blank {s : List Char} (h : Text.isAllBlank s = true) :
    parseOne s = .ok none := by
  have htokens : meaningful s = [] := by
    rw [meaningful_eq_meaningfulFrom, ← List.append_nil s, meaningfulFrom_blanks h,
      meaningfulFrom_nil]
  rw [parseOne, htokens]
  rfl

/-- An error in the first expression is one of the text. -/
theorem parseAll_of_parseOne_eq_error {s : List Char} {e : SyntaxError}
    (h : parseOne s = .error e) :
    parseAll s = .error e ∧ (progress [] (meaningful s)).forms = [] := by
  rcases hr : readOne [] (meaningful s) with e' | _ | ⟨w, after⟩
  all_goals
    rw [parseOne, hr] at h
    cases h
  refine ⟨?_, forms_of_readOne_eq_error hr⟩
  rw [parseAll, readAll_of_readOne, hr]

/-! ### Nesting -/

/-- The nesting of the first expression is that of its tokens. -/
theorem nestingOfFirst_eq_peak {s : List Char} {v : Value} {read rest : List Token}
    (htokens : meaningful s = read ++ rest)
    (hone : readOne [] (meaningful s) = .ok (some (v, rest))) :
    nestingOfFirst s = peak [] read := by
  simp only [nestingOfFirst, hone]
  rw [htokens, List.length_append, Nat.add_sub_cancel, List.take_left]

/-- **The nesting of a text is that of its first expression and that of the text behind it.** -/
theorem nesting_of_parseOne {s rest : List Char} {v : Value}
    (h : parseOne s = .ok (some (v, rest))) :
    nesting s = max (nestingOfFirst s) (nesting rest) := by
  obtain ⟨before, read, -, -, -, htokens, hone, hread⟩ := exists_of_parseOne h
  rw [nesting, nestingOfFirst_eq_peak htokens hone, htokens, peak_append, hread]
  exact congrArg _ (peak_shift before.length [] _)

theorem nestingOfFirst_eq_nesting {s : List Char}
    (h : ∀ v rest, parseOne s ≠ .ok (some (v, rest))) : nestingOfFirst s = nesting s := by
  rcases hr : readOne [] (meaningful s) with e | _ | ⟨w, after⟩
  · simp only [nestingOfFirst, nesting, hr]
  · simp only [nestingOfFirst, nesting, hr]
  · refine absurd ?_ (h w (textFrom s after))
    rw [parseOne, hr]
    rfl

end Reader

/-! ## The loops -/

/-- A loop over a text that reads one expression in each round. -/
structure ReadingLoop where
  /-- What is done to the text that is left, at the start of a round. -/
  prepare : List Char → List Char
  /-- Whether the loop ends without looking for an expression. -/
  isOver : List Char → Bool
  /-- At most blanks at the start are taken off. -/
  prepare_eq : ∀ s, ∃ blanks, Text.isAllBlank blanks = true ∧ s = blanks ++ prepare s
  /-- The loop ends like this only where nothing but blanks is left. -/
  isAllBlank_of_isOver : ∀ s, isOver s = true → Text.isAllBlank s = true

/-- What a loop has done: the expressions it came by, the text that it left, and the error that
stopped it, if one did. -/
structure Passage where
  forms : List Value
  unread : List Char
  error? : Option SyntaxError

/-- The same with an expression in front. -/
def Passage.cons (form : Value) (p : Passage) : Passage := ⟨form :: p.forms, p.unread, p.error?⟩

/-- A passage through a text reads what is read of the text at once: the same expressions, up to
the same error, whose place counts from where the text begins that is left. -/
structure Passage.IsOf (p : Passage) (s : List Char) : Prop where
  forms : p.forms = (Reader.progress [] (Token.meaningful s)).forms
  read : ∃ before, s = before ++ p.unread ∧
    Reader.parseAll s = match p.error? with
      | none => .ok p.forms
      | some e => .error (e.shift before.length)

namespace ReadingLoop
open Reader

theorem length_prepare (loop : ReadingLoop) (s : List Char) :
    (loop.prepare s).length ≤ s.length := by
  obtain ⟨blanks, -, hs⟩ := loop.prepare_eq s
  have hlength := congrArg List.length hs
  rw [List.length_append] at hlength
  omega

/-- The loop over a text that is evaluated. -/
def evaluating : ReadingLoop where
  prepare := id
  isOver := Text.isAllBlank
  prepare_eq _ := ⟨[], rfl, rfl⟩
  isAllBlank_of_isOver _ h := h

/-- The loop over the text of a module. -/
def loading : ReadingLoop where
  prepare := Text.trimStart
  isOver := List.isEmpty
  prepare_eq s :=
    ⟨s.takeWhile Text.isBlank, List.all_takeWhile, List.takeWhile_append_dropWhile.symm⟩
  isAllBlank_of_isOver _ h := by
    rw [List.isEmpty_iff.1 h]
    rfl

/-- Runs a loop over a text. -/
def pass (loop : ReadingLoop) (s : List Char) : Passage :=
  let left := loop.prepare s
  if loop.isOver left then ⟨[], left, none⟩
  else
    match _h : parseOne left with
    | .error e => ⟨[], left, some e⟩
    | .ok none => ⟨[], left, none⟩
    | .ok (some (form, rest)) => (loop.pass rest).cons form
termination_by s.length
decreasing_by exact Nat.lt_of_lt_of_le (parseOne_length _h) (loop.length_prepare s)

/-- Runs a loop over a text and evaluates each expression as soon as it is read; the value is that
of the last, or `last` if there are none. -/
def evaluate (loop : ReadingLoop) (refuse : SyntaxError → Fault) (eval : Value → Action Value)
    (last : Value) (s : List Char) : Action Value :=
  let left := loop.prepare s
  if loop.isOver left then pure last
  else
    match _h : parseOne left with
    | .error e => throw (refuse e)
    | .ok none => pure last
    | .ok (some (form, rest)) => do
      let v ← eval form
      loop.evaluate refuse eval v rest
termination_by s.length
decreasing_by exact Nat.lt_of_lt_of_le (parseOne_length _h) (loop.length_prepare s)

/-! ### What a loop comes by -/

/-- **The tests of a loop make no difference**: it ends where there is no expression any more, and
a text of blanks has none. -/
theorem pass_eq (loop : ReadingLoop) (s : List Char) :
    loop.pass s =
      match parseOne (loop.prepare s) with
      | .error e => ⟨[], loop.prepare s, some e⟩
      | .ok none => ⟨[], loop.prepare s, none⟩
      | .ok (some (form, rest)) => (loop.pass rest).cons form := by
  rw [pass]
  by_cases hover : loop.isOver (loop.prepare s) = true
  · have hnone := parseOne_eq_none_of_blank (loop.isAllBlank_of_isOver _ hover)
    simp only [hover, if_true, hnone]
  · simp only [hover, Bool.false_eq_true, if_false]
    split
    next hone => rw [hone]
    next hone => rw [hone]
    next hone => rw [hone]

section Passages
variable {s rest : List Char} {p : Passage} {form : Value}

/-- Blanks before a text are passed over. -/
theorem isOf_blanks {blanks : List Char} (hb : Text.isAllBlank blanks = true) (h : p.IsOf s) :
    p.IsOf (blanks ++ s) := by
  obtain ⟨hprogress, hparse⟩ := parseAll_of_shift (meaningful_blanks hb s)
  obtain ⟨before, hs, hread⟩ := h.read
  refine ⟨?_, blanks ++ before, ?_, ?_⟩
  · rw [h.forms, hprogress]
    rfl
  · rw [List.append_assoc, ← hs]
  · rw [hparse, hread, List.length_append]
    obtain ⟨forms, unread, _ | e⟩ := p
    · rfl
    · exact congrArg Except.error (e.shift_shift _ _)

/-- **The first expression and a passage through the text behind it** are a passage through the
text. -/
theorem isOf_cons (hone : parseOne s = .ok (some (form, rest))) (h : p.IsOf rest) :
    (p.cons form).IsOf s := by
  obtain ⟨first, read, hs, -, -, htokens, -, hfirst⟩ := exists_of_parseOne hone
  obtain ⟨before, hrest, hread⟩ := h.read
  have hprogress : progress [] (Token.meaningful s) =
      ((progress [] (Token.meaningful rest)).shift first.length).after [form] := by
    rw [htokens, progress_append, hfirst]
    exact congrArg (Progress.after [form]) (progress_shift first.length [] _)
  refine ⟨?_, first ++ before, ?_, ?_⟩
  · rw [hprogress]
    exact congrArg (form :: ·) h.forms
  · rw [hs, List.append_assoc]
    exact congrArg (first ++ ·) hrest
  · rw [parseAll_eq_outcome, hprogress, Progress.outcome_after, Progress.outcome_shift,
      ← parseAll_eq_outcome, hread, List.length_append]
    obtain ⟨forms, unread, _ | e⟩ := p
    · rfl
    · exact congrArg Except.error (e.shift_shift _ _)

end Passages

/-- **A loop comes by what is read of the text at once.** -/
theorem isOf_pass (loop : ReadingLoop) (s : List Char) : (loop.pass s).IsOf s := by
  induction hn : s.length using Nat.strongRecOn generalizing s with
  | ind n ih =>
    subst hn
    obtain ⟨blanks, hblanks, hs⟩ := loop.prepare_eq s
    suffices h : (loop.pass s).IsOf (loop.prepare s) by
      rw [hs]
      exact isOf_blanks hblanks (hs ▸ h)
    rw [pass_eq]
    rcases hone : parseOne (loop.prepare s) with e | _ | ⟨form, rest⟩
    · obtain ⟨hparse, hforms⟩ := parseAll_of_parseOne_eq_error hone
      refine ⟨hforms.symm, [], rfl, ?_⟩
      rw [hparse]
      exact congrArg Except.error (e.shift_zero).symm
    · have htokens := meaningful_of_parseOne_eq_none hone
      refine ⟨?_, [], rfl, ?_⟩
      · rw [htokens]
        rfl
      · rw [parseAll, htokens]
        rfl
    · have hshort := Nat.lt_of_lt_of_le (parseOne_length hone) (loop.length_prepare s)
      exact isOf_cons hone (ih rest.length hshort rest rfl)

/-- The text on which a loop stopped is one whose first expression cannot be read. -/
theorem parseOne_unread (loop : ReadingLoop) {s : List Char} {e : SyntaxError}
    (h : (loop.pass s).error? = some e) : parseOne (loop.pass s).unread = .error e := by
  induction hn : s.length using Nat.strongRecOn generalizing s with
  | ind n ih =>
    subst hn
    rw [pass_eq] at h ⊢
    rcases hone : parseOne (loop.prepare s) with e' | _ | ⟨form, rest⟩
    · rw [hone] at h
      cases h
      exact hone
    · rw [hone] at h
      cases h
    · rw [hone] at h
      have hshort := Nat.lt_of_lt_of_le (parseOne_length hone) (loop.length_prepare s)
      exact ih rest.length hshort h rfl

/-! ### Scripts -/

/-- Where a text starts with a meaningful token, a loop strips nothing. -/
theorem prepare_of_startsMeaningful (loop : ReadingLoop) {s : List Char}
    (h : StartsMeaningful s) : loop.prepare s = s := by
  obtain ⟨blanks, hblanks, hs⟩ := loop.prepare_eq s
  cases blanks with
  | nil => exact hs.symm
  | cons c blanks =>
    have hc : Text.isBlank c = true := List.all_eq_true.1 hblanks c List.mem_cons_self
    have hcomment : c ≠ ';' := by
      rintro rfl
      exact absurd hc (by decide)
    have hmeaning := h c _ hs
    rw [Token.split, if_neg hcomment, if_pos hc] at hmeaning
    cases hmeaning

theorem nesting_prepare (loop : ReadingLoop) (s : List Char) :
    nesting (loop.prepare s) = nesting s := by
  obtain ⟨blanks, hblanks, hs⟩ := loop.prepare_eq s
  calc nesting (loop.prepare s)
      = peak [] ((Token.meaningful (loop.prepare s)).map (Token.shift blanks.length)) :=
        (peak_shift _ [] _).symm
    _ = nesting (blanks ++ loop.prepare s) := by rw [nesting, meaningful_blanks hblanks]
    _ = nesting s := by rw [← hs]

/-- **The script of a text is what a loop comes by**, if the text is not nested too deeply. -/
theorem script_eq_pass (loop : ReadingLoop) {limit : Nat} {s : List Char}
    (h : nesting s ≤ limit) :
    Script.ofText limit (loop.prepare s) =
      ⟨(loop.pass s).forms, (loop.pass s).error?.map .malformed⟩ := by
  induction hn : s.length using Nat.strongRecOn generalizing s with
  | ind n ih =>
    subst hn
    rw [← loop.nesting_prepare] at h
    rw [Script.ofText_eq, pass_eq]
    rcases hone : parseOne (loop.prepare s) with e | _ | ⟨form, rest⟩
    · have hfirst : nestingOfFirst (loop.prepare s) = nesting (loop.prepare s) :=
        nestingOfFirst_eq_nesting (by simp [hone])
      rw [hfirst, if_neg (Nat.not_lt.2 h)]
      rfl
    · have hfirst : nestingOfFirst (loop.prepare s) = nesting (loop.prepare s) :=
        nestingOfFirst_eq_nesting (by simp [hone])
      rw [hfirst, if_neg (Nat.not_lt.2 h)]
      rfl
    · rw [nesting_of_parseOne hone] at h
      obtain ⟨hfirst, hothers⟩ := Nat.max_le.1 h
      obtain ⟨-, -, -, -, hstarts, -⟩ := exists_of_parseOne hone
      have hshort := Nat.lt_of_lt_of_le (parseOne_length hone) (loop.length_prepare s)
      have hrest := ih rest.length hshort hothers rfl
      rw [loop.prepare_of_startsMeaningful hstarts] at hrest
      rw [if_neg (Nat.not_lt.2 hfirst)]
      exact congrArg (fun script : Script => (⟨form :: script.forms, script.stop?⟩ : Script)) hrest

/-- If a text is nested too deeply, that is what its script ends with. -/
theorem script_tooDeep {limit : Nat} {s : List Char} (h : limit < nesting s) :
    (Script.ofText limit s).stop? = some .tooDeep := by
  induction hn : s.length using Nat.strongRecOn generalizing s with
  | ind n ih =>
    subst hn
    rw [Script.ofText_eq]
    by_cases hfirst : limit < nestingOfFirst s
    · rw [if_pos hfirst]
    · rw [if_neg hfirst]
      rcases hone : parseOne s with e | _ | ⟨form, rest⟩
      · rw [nestingOfFirst_eq_nesting (by simp [hone])] at hfirst
        exact absurd h hfirst
      · rw [nestingOfFirst_eq_nesting (by simp [hone])] at hfirst
        exact absurd h hfirst
      · rw [nesting_of_parseOne hone] at h
        have hothers : limit < nesting rest := by omega
        exact ih rest.length (parseOne_length hone) hothers rfl

/-- Where a text can be read and is not nested too deeply, its script is what is read of it. -/
theorem script_of_parseAll {limit : Nat} {s : List Char} {vs : List Value}
    (hnesting : nesting s ≤ limit) (h : parseAll s = .ok vs) : Script.ofText limit s = ⟨vs, none⟩ := by
  have hscript : Script.ofText limit s = _ := evaluating.script_eq_pass hnesting
  obtain ⟨before, -, hread⟩ := (evaluating.isOf_pass s).read
  rw [h] at hread
  rw [hscript]
  cases herror : (evaluating.pass s).error? with
  | none =>
    rw [herror] at hread
    cases hread
    rfl
  | some e =>
    rw [herror] at hread
    cases hread

/-- Where nothing stopped the reading of a script, the whole text was read. -/
theorem parseAll_of_script {limit : Nat} {s : List Char}
    (h : (Script.ofText limit s).stop? = none) :
    nesting s ≤ limit ∧ parseAll s = .ok (Script.ofText limit s).forms := by
  have hnesting : nesting s ≤ limit := by
    by_contra hdeep
    rw [script_tooDeep (Nat.lt_of_not_le hdeep)] at h
    cases h
  have hscript : Script.ofText limit s = _ := evaluating.script_eq_pass hnesting
  obtain ⟨before, -, hread⟩ := (evaluating.isOf_pass s).read
  rw [hscript] at h ⊢
  cases herror : (evaluating.pass s).error? with
  | none =>
    rw [herror] at hread
    exact ⟨hnesting, hread⟩
  | some e =>
    rw [herror] at h
    cases h

/-- The script of a text of which the tokens are known. -/
theorem script_of_tokens {limit : Nat} {s : List Char} {tokens : List Token} {vs : List Value}
    (h : Token.meaningful s = tokens) (hpeak : peak [] tokens ≤ limit)
    (hread : readAll [] tokens = .ok vs) : Script.ofText limit s = ⟨vs, none⟩ := by
  subst h
  exact script_of_parseAll hpeak hread

/-- The script of the text of a readable value. -/
theorem script_of_readable {limit : Nat} {v : Value} (hv : v.Readable) (h : v.nesting ≤ limit) :
    Script.ofText limit v.readable.toList = ⟨[v.unsignedZeros], none⟩ := by
  have hone := hv.parseOne_readable
  rw [Script.ofText, hv.nestingOfFirst_readable, if_neg (Nat.not_lt.2 h)]
  split
  next hread =>
    rw [hone] at hread
    cases hread
  next hread =>
    rw [hone] at hread
    cases hread
  next hread =>
    rw [hone] at hread
    cases hread
    simp only [Script.ofText_nil]

/-- The script of a text that requires a module. -/
theorem script_of_require {limit : Nat} (h : 0 < limit) {specifier : String} {text : List Char}
    (htext : text =
      (Value.list [.sym SpecialForm.require.keyword, .str specifier]).readable.toList) :
    Script.ofText limit text =
      ⟨[.list [.sym SpecialForm.require.keyword, .str specifier]], none⟩ := by
  have hkeyword : (Value.sym SpecialForm.require.keyword).Readable := .sym (by decide +kernel) rfl
  have hform : (Value.list [.sym SpecialForm.require.keyword, .str specifier]).Readable :=
    .list (List.forall_mem_cons.2 ⟨hkeyword, List.forall_mem_singleton.2 (.str specifier)⟩)
  rw [htext, script_of_readable hform h]
  rfl

/-! ### Evaluation -/

/-- **To read all expressions first and then evaluate them is the same** as to evaluate each one as
soon as it is read. -/
theorem evaluate_eq (loop : ReadingLoop) (refuse : SyntaxError → Fault) (eval : Evaluator)
    (scope : FrameId) (last : Value) (s : List Char) :
    loop.evaluate refuse (eval · scope) last s =
      (do
        let v ← Evaluation.evalForms eval scope last (loop.pass s).forms
        match (loop.pass s).error? with
        | none => return v
        | some e => throw (refuse e)) := by
  induction hn : s.length using Nat.strongRecOn generalizing s last with
  | ind n ih =>
    subst hn
    rw [evaluate, pass_eq]
    by_cases hover : loop.isOver (loop.prepare s) = true
    · have hnone := parseOne_eq_none_of_blank (loop.isAllBlank_of_isOver _ hover)
      simp only [hover, if_true, hnone, Evaluation.evalForms, pure_bind]
    · simp only [hover, Bool.false_eq_true, if_false]
      split
      next hone => simp only [hone, Evaluation.evalForms, pure_bind]
      next hone => simp only [hone, Evaluation.evalForms, pure_bind]
      next form rest hone =>
        have hshort := Nat.lt_of_lt_of_le (parseOne_length hone) (loop.length_prepare s)
        simp only [hone, Passage.cons, Evaluation.evalForms, bind_assoc]
        exact congrArg _ (funext fun v => ih rest.length hshort v rest rfl)

section Limits
variable {setting : Setting} {s : List Char} (eval : Evaluator) (scope : FrameId)
  (h : nesting s ≤ setting.nestingLimit)
include h

/-- A text is evaluated as its loop evaluates it. -/
theorem evaluateText_eq :
    Evaluation.evaluateText setting eval scope s =
      evaluating.evaluate (fun e => .lisp (.malformed e)) (eval · scope) .nil s := by
  have hscript : Script.ofText setting.nestingLimit s = _ := evaluating.script_eq_pass h
  rw [evaluate_eq, Evaluation.evaluateText, hscript, Evaluation.runScript]
  refine congrArg _ (funext fun v => ?_)
  cases (evaluating.pass s).error? <;> rfl

/-- The file of a module is evaluated as its loop evaluates it; whatever goes wrong is then wrapped
as a failure of the module. -/
theorem runFile_eq (path : Path) :
    Evaluation.runFile setting eval scope path s =
      Action.within path (discard
        (loading.evaluate (fun e => .lisp (.malformedModule path e)) (eval · scope) .nil s)) := by
  have hscript : Script.ofText setting.nestingLimit (Text.trimStart s) = _ :=
    loading.script_eq_pass h
  rw [evaluate_eq, Evaluation.runFile, hscript, Evaluation.runModule, Action.discard_eq,
    Action.discard_eq, bind_assoc, bind_assoc]
  refine congrArg (fun k => Action.within path (_ >>= k)) (funext fun v => ?_)
  cases (loading.pass s).error? <;> rfl

end Limits

/-- **The loops that read one expression at a time agree with reading a text at once.**

A loop comes by the expressions that are read of the text, in order.  It ends without an error just
when the text is read as these expressions, and else with the error of the text, which is the same
but for its place: that counts from where the text begins that is left, and this text is one whose
first expression cannot be read.  After each expression a proper suffix is left, which is empty or
starts with a meaningful token.

The script of a text, which the evaluator goes by, is what a loop comes by, unless the text is
nested beyond the limit, and then this is what the script ends with.  Within the limit, to evaluate
a text or the file of a module is to run its loop, with each expression evaluated as soon as it is
read; and if the text can be read, it is to evaluate the expressions read of it from left to
right. -/
theorem agrees (loop : ReadingLoop) (s : List Char) :
    (∃ before, s = before ++ (loop.pass s).unread ∧
      (loop.pass s).forms = (progress [] (Token.meaningful s)).forms ∧
      parseAll s = match (loop.pass s).error? with
        | none => .ok (loop.pass s).forms
        | some e => .error (e.shift before.length)) ∧
    (∀ e, (loop.pass s).error? = some e → parseOne (loop.pass s).unread = .error e) ∧
    (∀ form rest, parseOne s = .ok (some (form, rest)) →
      (∃ before, before ≠ [] ∧ s = before ++ rest) ∧ StartsMeaningful rest) ∧
    (∀ limit,
      (nesting s ≤ limit → Script.ofText limit (loop.prepare s) =
        ⟨(loop.pass s).forms, (loop.pass s).error?.map .malformed⟩) ∧
      (limit < nesting s → (Script.ofText limit (loop.prepare s)).stop? = some .tooDeep)) ∧
    ∀ (setting : Setting) (eval : Evaluator) (scope : FrameId), nesting s ≤ setting.nestingLimit →
      Evaluation.evaluateText setting eval scope s =
        evaluating.evaluate (fun e => .lisp (.malformed e)) (eval · scope) .nil s ∧
      (∀ path, Evaluation.runFile setting eval scope path s =
        Action.within path (discard
          (loading.evaluate (fun e => .lisp (.malformedModule path e)) (eval · scope) .nil s))) ∧
      ∀ es, parseAll s = .ok es →
        Evaluation.evaluateText setting eval scope s = Evaluation.evalForms eval scope .nil es := by
  have hpass := loop.isOf_pass s
  obtain ⟨before, hs, hparse⟩ := hpass.read
  refine ⟨⟨before, hs, hpass.forms, hparse⟩, fun e he => loop.parseOne_unread he,
    fun form rest hone => ?_, fun limit => ⟨loop.script_eq_pass, fun h => ?_⟩,
    fun setting eval scope h => ?_⟩
  · obtain ⟨first, read, hfirst, hne, hstarts, -⟩ := exists_of_parseOne hone
    exact ⟨⟨first, hne, hfirst⟩, hstarts⟩
  · exact script_tooDeep (loop.nesting_prepare s ▸ h)
  · have htext := evaluateText_eq eval scope h
    refine ⟨htext, runFile_eq eval scope h, fun es hes => ?_⟩
    rw [Evaluation.evaluateText, script_of_parseAll h hes, Evaluation.runScript]
    exact bind_pure _

end ReadingLoop

end SmallLisp
