import SmallLisp.Proofs.TokenBoundaries

/-! # How far reading gets

`Reader.progress` is what the reader has on its hands after a row of tokens: the expressions that
are complete, and what is open behind them, or the error that stopped it.  All that `readAll` says
about a row of tokens is read off this (`Reader.readAll_eq_outcome`), and unlike the answer of
`readAll` it can be continued: after more tokens the reader is where it gets from there with the
new tokens alone (`Reader.progress_append`).  The nesting of a text is put together in the same
way (`Reader.peak_append`).

The offsets of tokens are only ever copied into openings and errors, so reading commutes with
moving a text to another place (`Reader.progress_shift`).
-/
namespace SmallLisp

theorem SyntaxError.shift_zero (e : SyntaxError) : e.shift 0 = e := by
  rw [shift, Nat.zero_add]

theorem SyntaxError.shift_shift (m n : Nat) (e : SyntaxError) :
    (e.shift n).shift m = e.shift (m + n) := by
  rw [shift, shift, shift, Nat.add_assoc]

namespace Reader

/-- How far the reader has got: the expressions that are complete, and what is open behind them, or
the error that stopped it. -/
structure Progress where
  forms : List Value
  ending : Except SyntaxError (List Opening)

namespace Progress

/-- The same with expressions that were complete before. -/
def after (before : List Value) (p : Progress) : Progress := ⟨before ++ p.forms, p.ending⟩

/-- What is answered if there are no more tokens. -/
def outcome (p : Progress) : Except SyntaxError (List Value) :=
  match p.ending with
  | .error e => .error e
  | .ok [] => .ok p.forms
  | .ok (o :: _) => .error o.unfinished

theorem after_after (first second : List Value) (p : Progress) :
    (p.after second).after first = p.after (first ++ second) := by
  rw [after, after, after, List.append_assoc]

theorem outcome_after (before : List Value) (p : Progress) :
    (p.after before).outcome = p.outcome.map (before ++ ·) := by
  obtain ⟨forms, ending⟩ := p
  rcases ending with e | _ | ⟨o, outer⟩ <;> rfl

end Progress

/-- How far the reader gets with a row of tokens, given what is already open. -/
def progress : List Opening → List Token → Progress
  | stack, [] => ⟨[], .ok stack⟩
  | stack, t :: rest =>
    match step stack t with
    | .refused e => ⟨[], .error e⟩
    | .complete v => (progress [] rest).after [v]
    | .continued next => progress next rest

/-- **What reading all tokens answers can be read off how far the reader gets.** -/
theorem readAll_eq_outcome (stack : List Opening) (ts : List Token) :
    readAll stack ts = (progress stack ts).outcome := by
  induction ts generalizing stack with
  | nil => cases stack <;> rfl
  | cons t ts ih =>
    rw [readAll, progress]
    cases step stack t with
    | refused e => rfl
    | complete v =>
      rw [ih, Progress.outcome_after]
      rfl
    | continued next => exact ih next

theorem parseAll_eq_outcome (s : List Char) :
    parseAll s = (progress [] (Token.meaningful s)).outcome :=
  readAll_eq_outcome [] _

/-! ## More tokens -/

theorem deliver_ne_continued_nil (v : Value) (stack : List Opening) :
    deliver v stack ≠ .continued [] := by
  induction stack generalizing v with
  | nil => nofun
  | cons o outer ih =>
    cases o with
    | quote offset => exact ih v.quoted
    | bracket offset items => nofun

/-- A token that completes no expression leaves something open. -/
theorem step_ne_continued_nil (stack : List Opening) (t : Token) :
    step stack t ≠ .continued [] := by
  unfold step
  split
  · nofun
  · nofun
  · split
    · exact deliver_ne_continued_nil _ _
    · nofun
  · split
    · exact deliver_ne_continued_nil _ _
    · nofun
  · nofun
  all_goals exact deliver_ne_continued_nil _ _

/-- Where the reader gets with more tokens. -/
def Progress.goOn (p : Progress) (ts : List Token) : Progress :=
  match p.ending with
  | .error _ => p
  | .ok stack => (progress stack ts).after p.forms

theorem Progress.goOn_after (before : List Value) (p : Progress) (ts : List Token) :
    (p.after before).goOn ts = (p.goOn ts).after before := by
  obtain ⟨forms, ending⟩ := p
  cases ending with
  | error e => rfl
  | ok stack => exact (after_after before forms _).symm

/-- **With more tokens the reader goes on from where it was.** -/
theorem progress_append (stack : List Opening) (ts us : List Token) :
    progress stack (ts ++ us) = (progress stack ts).goOn us := by
  induction ts generalizing stack with
  | nil => rfl
  | cons t ts ih =>
    rw [List.cons_append, progress, progress]
    cases step stack t with
    | refused e => rfl
    | complete v => rw [ih, Progress.goOn_after]
    | continued next => exact ih next

/-- Tokens that are not refused contain no double quote without an end. -/
theorem kind_ne_of_progress {stack next : List Opening} {ts : List Token}
    (h : (progress stack ts).ending = .ok next) : ∀ t ∈ ts, t.kind ≠ .unterminated := by
  induction ts generalizing stack with
  | nil => nofun
  | cons t ts ih =>
    rw [progress] at h
    have hothers : ∀ u ∈ ts, u.kind ≠ .unterminated := by
      cases hs : step stack t with
      | refused e =>
        rw [hs] at h
        cases h
      | complete v =>
        rw [hs] at h
        exact ih h
      | continued next =>
        rw [hs] at h
        exact ih h
    refine List.forall_mem_cons.2 ⟨fun hkind => ?_, hothers⟩
    have hs : step stack t = .refused ⟨.unclosedString, t.offset⟩ := by simp only [step, hkind]
    rw [hs] at h
    cases h

/-- The first expression is what the tokens read for it come to. -/
theorem progress_of_readOne {stack : List Opening} {ts rest : List Token} {v : Value}
    (h : readOne stack ts = .ok (some (v, rest))) :
    ∃ read, read ≠ [] ∧ ts = read ++ rest ∧ progress stack read = ⟨[v], .ok []⟩ := by
  induction ts generalizing stack with
  | nil => cases stack <;> cases h
  | cons t ts ih =>
    rw [readOne] at h
    cases hs : step stack t with
    | refused e =>
      rw [hs] at h
      cases h
    | complete w =>
      rw [hs] at h
      cases h
      refine ⟨[t], List.cons_ne_nil _ _, rfl, ?_⟩
      rw [progress, hs]
      rfl
    | continued next =>
      rw [hs] at h
      obtain ⟨read, -, rfl, hread⟩ := ih h
      refine ⟨t :: read, List.cons_ne_nil _ _, rfl, ?_⟩
      rw [progress, hs]
      exact hread

/-- Tokens after which nothing is complete and nothing is open are none. -/
theorem eq_nil_of_progress {stack : List Opening} {ts : List Token}
    (h : progress stack ts = ⟨[], .ok []⟩) : stack = [] ∧ ts = [] := by
  induction ts generalizing stack with
  | nil =>
    cases h
    exact ⟨rfl, rfl⟩
  | cons t ts ih =>
    rw [progress] at h
    cases hs : step stack t with
    | refused e =>
      rw [hs] at h
      cases h
    | complete w =>
      rw [hs] at h
      cases h
    | continued next =>
      rw [hs] at h
      obtain ⟨rfl, -⟩ := ih h
      exact absurd hs (step_ne_continued_nil stack t)

/-- Behind tokens that complete no expression, the first one is read with what they leave open. -/
theorem readOne_append {stack next : List Opening} {before : List Token}
    (h : progress stack before = ⟨[], .ok next⟩) (us : List Token) :
    readOne stack (before ++ us) = readOne next us := by
  induction before generalizing stack with
  | nil =>
    cases h
    rfl
  | cons t before ih =>
    rw [progress] at h
    rw [List.cons_append, readOne]
    cases hs : step stack t with
    | refused e =>
      rw [hs] at h
      cases h
    | complete w =>
      rw [hs] at h
      cases h
    | continued inside =>
      rw [hs] at h
      exact ih h

/-- **Tokens that come to one expression are read as that, whatever follows.** -/
theorem readOne_of_progress {stack : List Opening} {read : List Token} {v : Value}
    (h : progress stack read = ⟨[v], .ok []⟩) (us : List Token) :
    readOne stack (read ++ us) = .ok (some (v, us)) := by
  induction read generalizing stack with
  | nil => cases h
  | cons t read ih =>
    rw [progress] at h
    rw [List.cons_append, readOne]
    cases hs : step stack t with
    | refused e =>
      rw [hs] at h
      cases h
    | complete w =>
      rw [hs] at h
      rcases hrest : progress [] read with ⟨forms, ending⟩
      rw [hrest] at h
      cases h
      rw [(eq_nil_of_progress hrest).2, List.nil_append]
    | continued next =>
      rw [hs] at h
      exact ih h

/-- If the first expression is malformed, no expression is complete. -/
theorem forms_of_readOne_eq_error {stack : List Opening} {ts : List Token} {e : SyntaxError}
    (h : readOne stack ts = .error e) : (progress stack ts).forms = [] := by
  induction ts generalizing stack with
  | nil => rfl
  | cons t ts ih =>
    rw [readOne] at h
    rw [progress]
    cases hs : step stack t with
    | refused e => rfl
    | complete w =>
      rw [hs] at h
      cases h
    | continued next =>
      rw [hs] at h
      exact ih h

/-- If there is no first expression, there are no tokens. -/
theorem eq_nil_of_readOne_eq_none {stack : List Opening} {ts : List Token}
    (h : readOne stack ts = .ok none) : stack = [] ∧ ts = [] := by
  induction ts generalizing stack with
  | nil =>
    cases stack with
    | nil => exact ⟨rfl, rfl⟩
    | cons o outer => cases h
  | cons t ts ih =>
    rw [readOne] at h
    cases hs : step stack t with
    | refused e =>
      rw [hs] at h
      cases h
    | complete w =>
      rw [hs] at h
      cases h
    | continued next =>
      rw [hs] at h
      -- a token leaves something open
      obtain ⟨rfl, -⟩ := ih h
      exact absurd hs (step_ne_continued_nil stack t)

/-! ## Nesting -/

/-- The nesting of what is read after a step. -/
def peakAfter (s : Step) (rest : List Token) : Nat :=
  match s with
  | .refused _ => 0
  | .complete _ => peak [] rest
  | .continued stack => peak stack rest

theorem peak_cons (stack : List Opening) (t : Token) (rest : List Token) :
    peak stack (t :: rest) = max stack.length (peakAfter (step stack t) rest) := by
  rw [peak]
  cases step stack t with
  | refused e => exact (Nat.max_zero _).symm
  | complete v => rfl
  | continued next => rfl

theorem length_le_peak (stack : List Opening) (ts : List Token) : stack.length ≤ peak stack ts := by
  cases ts with
  | nil => exact Nat.le_refl _
  | cons t rest =>
    rw [peak_cons]
    exact Nat.le_max_left _ _

/-- The nesting of tokens that follow those read so far. -/
def Progress.peakOf (p : Progress) (ts : List Token) : Nat :=
  match p.ending with
  | .error _ => 0
  | .ok stack => peak stack ts

/-- **The nesting of a row of tokens is that of its parts.** -/
theorem peak_append (stack : List Opening) (ts us : List Token) :
    peak stack (ts ++ us) = max (peak stack ts) ((progress stack ts).peakOf us) := by
  induction ts generalizing stack with
  | nil => exact (Nat.max_eq_right (length_le_peak stack us)).symm
  | cons t ts ih =>
    rw [List.cons_append, peak_cons, peak_cons, progress]
    cases step stack t with
    | refused e => exact (Nat.max_zero _).symm
    | complete v =>
      rw [peakAfter, peakAfter, ih, ← Nat.max_assoc]
      rfl
    | continued next => rw [peakAfter, peakAfter, ih, ← Nat.max_assoc]

/-- What is open in the end counts. -/
theorem length_le_peak_of_progress {stack next : List Opening} {ts : List Token}
    (h : (progress stack ts).ending = .ok next) : next.length ≤ peak stack ts := by
  have hnil := peak_append stack ts []
  rw [List.append_nil, Progress.peakOf, h] at hnil
  rw [hnil]
  exact Nat.le_max_right _ _

/-! ## Another place -/

/-- The same opening with so many more characters before it. -/
def Opening.shift (n : Nat) : Opening → Opening
  | bracket offset items => .bracket (n + offset) items
  | quote offset => .quote (n + offset)

/-- The same step with so many more characters before the token. -/
def Step.shift (n : Nat) : Step → Step
  | refused e => .refused (e.shift n)
  | complete v => .complete v
  | continued stack => .continued (stack.map (Opening.shift n))

/-- The same progress with so many more characters before the tokens. -/
def Progress.shift (n : Nat) (p : Progress) : Progress where
  forms := p.forms
  ending := match p.ending with
    | .error e => .error (e.shift n)
    | .ok stack => .ok (stack.map (Opening.shift n))

theorem Opening.unfinished_shift (n : Nat) (o : Opening) :
    (o.shift n).unfinished = o.unfinished.shift n := by
  cases o <;> rfl

theorem Progress.outcome_shift (n : Nat) (p : Progress) :
    (p.shift n).outcome = p.outcome.mapError (SyntaxError.shift n) := by
  obtain ⟨forms, ending⟩ := p
  rcases ending with e | _ | ⟨o, outer⟩
  · rfl
  · rfl
  · exact congrArg _ (o.unfinished_shift n)

theorem unescape_shift (n position : Nat) (body : List Char) :
    unescape (n + position) body = (unescape position body).mapError (SyntaxError.shift n) := by
  fun_induction unescape position body with
  | case1 => rfl
  | case2 position c rest e hfind ih =>
    rw [unescape, hfind, Nat.add_assoc, ih]
    cases unescape (position + 2) rest <;> rfl
  | case3 position c rest hfind =>
    rw [unescape, hfind]
    rfl
  | case4 position c rest hplain ih =>
    rw [unescape, Nat.add_assoc, ih]
    · cases unescape (position + 1) rest <;> rfl
    · exact hplain

theorem deliver_shift (n : Nat) (v : Value) (stack : List Opening) :
    deliver v (stack.map (Opening.shift n)) = (deliver v stack).shift n := by
  induction stack generalizing v with
  | nil => rfl
  | cons o outer ih =>
    cases o with
    | quote offset => exact ih v.quoted
    | bracket offset items => rfl

theorem step_shift (n : Nat) (stack : List Opening) (t : Token) :
    step (stack.map (Opening.shift n)) (t.shift n) = (step stack t).shift n := by
  obtain ⟨kind, text, offset⟩ := t
  cases kind with
  | openBracket => rfl
  | quote => rfl
  | closeBracket =>
    rcases stack with _ | ⟨_ | _, outer⟩
    · rfl
    · exact deliver_shift n _ outer
    · rfl
  | string =>
    simp only [step, Token.shift]
    rw [Nat.add_assoc, unescape_shift n (offset + 1)]
    cases unescape (offset + 1) (text.drop 1).dropLast with
    | error e => rfl
    | ok s => exact deliver_shift n _ stack
  | unterminated => rfl
  | atom => exact deliver_shift n _ stack
  | comment => exact deliver_shift n _ stack
  | blank => exact deliver_shift n _ stack

/-- **Reading does not depend on where a text stands**: only the places in it move. -/
theorem progress_shift (n : Nat) (stack : List Opening) (ts : List Token) :
    progress (stack.map (Opening.shift n)) (ts.map (Token.shift n)) =
      (progress stack ts).shift n := by
  induction ts generalizing stack with
  | nil => rfl
  | cons t ts ih =>
    rw [List.map_cons, progress, progress, step_shift]
    cases step stack t with
    | refused e => rfl
    | complete v => exact congrArg (Progress.after [v]) (ih [])
    | continued next => exact ih next

/-- The first expression does not depend on where the text stands, either. -/
theorem readOne_shift (n : Nat) (stack : List Opening) (ts : List Token) :
    readOne (stack.map (Opening.shift n)) (ts.map (Token.shift n)) =
      ((readOne stack ts).mapError (SyntaxError.shift n)).map fun found =>
        found.map fun (v, rest) => (v, rest.map (Token.shift n)) := by
  induction ts generalizing stack with
  | nil =>
    cases stack with
    | nil => rfl
    | cons o outer => exact congrArg Except.error (o.unfinished_shift n)
  | cons t ts ih =>
    rw [List.map_cons, readOne, readOne, step_shift]
    cases step stack t with
    | refused e => rfl
    | complete v => rfl
    | continued next => exact ih next

theorem peak_shift (n : Nat) (stack : List Opening) (ts : List Token) :
    peak (stack.map (Opening.shift n)) (ts.map (Token.shift n)) = peak stack ts := by
  induction ts generalizing stack with
  | nil => exact List.length_map _
  | cons t ts ih =>
    rw [List.map_cons, peak_cons, peak_cons, step_shift, List.length_map]
    cases step stack t with
    | refused e => rfl
    | complete v => exact congrArg _ (ih [])
    | continued next => exact congrArg _ (ih next)

end Reader

end SmallLisp
