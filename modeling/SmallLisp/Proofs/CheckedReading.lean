import SmallLisp.Proofs.Completions
import SmallLisp.Proofs.NumberTexts
import SmallLisp.Proofs.ReadBack
import SmallLisp.Proofs.ReadingLoops

/-! # Where reading fails

The reader relies on facts that it never checks: every text starts with a token, an expression is
only wanted where a token is left, a backslash inside a string has a character behind it, and what
looks like a numeral denotes a number.  `Reader.checkedParseAll` and `Reader.checkedParseOne` read
by recursive descent, one call for each expression, and check all of these; a check that fails is a
`Mishap` of its own.  They give the answers of the reader (`Reader.Descent.expression_agrees`), so
no check fails and the only mishap is a malformed text.

The place of an error is a place in the text, and the character there tells the flaw
(`SyntaxFlaw.sign`): an error is reported at the start of a token, whose kind tells its first
character, or at a backslash in a string (`Reader.marked_of_parseAll`).

`Reader.failures_located` puts this together, with what the reader says about the text before the
place of an error.
-/
namespace SmallLisp

namespace Reader
open Token

/-- What can stop a reader that checks all it relies on. -/
inductive Mishap where
  | malformed (e : SyntaxError)
  /-- No token starts at a character. -/
  | unexpectedCharacter (offset : Nat)
  /-- An expression is wanted where no token is left. -/
  | unexpectedEnd
  /-- A backslash in a string has no character behind it. -/
  | nothingEscaped (position : Nat)
  /-- What looks like a numeral does not denote a number. -/
  | notANumber (text : List Char)

/-! ## Checked tokens -/

/-- What a token of a kind takes from the start of a text, and the rest. -/
def taken? (kind : TokenKind) : List Char → Option (List Char × List Char)
  | [] => none
  | c :: rest =>
    let single (d : Char) := if c = d then some ([c], rest) else none
    let run (p : Char → Bool) :=
      if p c then some (c :: rest.takeWhile p, rest.dropWhile p) else none
    match kind with
    | .comment =>
      if c = ';' then some (c :: rest.takeWhile (· != '\n'), rest.dropWhile (· != '\n')) else none
    | .blank => run Text.isBlank
    | .quote => single '\''
    | .openBracket => single '('
    | .closeBracket => single ')'
    | .string =>
      if c = '"' then (closeString rest).map fun (body, after) => (c :: body, after) else none
    | .unterminated => single '"'
    | .atom => run isAtomChar

/-- The kinds of tokens in the order in which they are tried. -/
def kinds : List TokenKind :=
  [.comment, .blank, .quote, .openBracket, .closeBracket, .string, .unterminated, .atom]

/-- The token at the start of a text, if a token of some kind starts there. -/
def tokenAt? (s : List Char) : Option (TokenKind × List Char × List Char) :=
  kinds.findSome? fun kind => (taken? kind s).map fun taken => (kind, taken)

/-- **A token starts at every character**, and it is the one that the reader takes. -/
theorem tokenAt?_cons (c : Char) (rest : List Char) :
    tokenAt? (c :: rest) = some (split c rest) := by
  unfold split
  split
  next hcomment => simp [tokenAt?, kinds, taken?, hcomment]
  next hcomment =>
  split
  next hblank => simp [tokenAt?, kinds, taken?, hcomment, hblank]
  next hblank =>
  split
  next hquote =>
    subst hquote
    rfl
  next hquote =>
  split
  next hopen =>
    subst hopen
    rfl
  next hopen =>
  split
  next hclose =>
    subst hclose
    rfl
  next hclose =>
  split
  next hstring =>
    subst hstring
    split
    next hend => simp [tokenAt?, kinds, taken?, Text.isBlank, hend]
    next hend => simp [tokenAt?, kinds, taken?, Text.isBlank, hend]
  next hstring =>
    -- what starts no token of another kind may stand in an atom
    have hatom : isAtomChar c = true := by
      simp [isAtomChar, hcomment, hblank, hquote, hopen, hclose, hstring]
    simp [tokenAt?, kinds, taken?, hcomment, hblank, hquote, hopen, hclose, hstring, hatom]

/-- All tokens of a text, where it is checked that a token starts behind each. -/
def lex (offset : Nat) : List Char → Except Mishap (List Token)
  | [] => .ok []
  | c :: rest =>
    match _h : tokenAt? (c :: rest) with
    | none => .error (.unexpectedCharacter offset)
    | some (kind, text, after) =>
      (lex (offset + text.length) after).map (⟨kind, text, offset⟩ :: ·)
termination_by s => s.length
decreasing_by
  have hsplit : split c rest = (kind, text, after) := by
    rw [tokenAt?_cons] at _h
    exact Option.some.inj _h
  have hlength := split_rest_length c rest
  rw [hsplit] at hlength
  exact Nat.lt_succ_of_le hlength

theorem lex_eq (offset : Nat) (s : List Char) : lex offset s = .ok (row offset s) := by
  fun_induction lex offset s with
  | case1 => rw [row]
  | case2 offset c rest hnone =>
    rw [tokenAt?_cons] at hnone
    cases hnone
  | case3 offset c rest kind text after hsome ih =>
    rw [tokenAt?_cons] at hsome
    rw [ih, row_cons, Option.some.inj hsome]
    rfl

/-- The text of a string, where it is checked that a backslash has a character behind it. -/
def checkedUnescape (position : Nat) : List Char → Except Mishap (List Char)
  | [] => .ok []
  | ['\\'] => .error (.nothingEscaped position)
  | '\\' :: c :: rest =>
    match stringEscapes.find? fun e => e.1 == c with
    | some e => (checkedUnescape (position + 2) rest).map (e.2 :: ·)
    | none => .error (.malformed ⟨.unknownEscape c, position⟩)
  | c :: rest => (checkedUnescape (position + 1) rest).map (c :: ·)

/-- Between the double quotes of a string every backslash has a character behind it. -/
theorem checkedUnescape_eq {body : List Char} (h : Closed body) (position : Nat) :
    checkedUnescape position body = (unescape position body).mapError .malformed := by
  induction h generalizing position with
  | nil => rfl
  | @plain c body hb hq _ ih =>
    rw [checkedUnescape, unescape, ih]
    · cases unescape (position + 1) body <;> rfl
    · intro _ _ hc
      exact absurd hc hb
    · intro hc
      exact absurd hc hb
    · intro _ _ hc
      exact absurd hc hb
  | @pair c body _ ih =>
    rw [checkedUnescape, unescape]
    cases stringEscapes.find? fun e => e.1 == c with
    | none => rfl
    | some e =>
      simp only [ih]
      cases unescape (position + 2) body <;> rfl

/-- The value of an atom, where it is checked that a numeral denotes a number. -/
def checkedAtom (text : List Char) : Except Mishap Value :=
  match Number.Numeral.parse? text with
  | some n => if Number.denotesNumber text then .ok (.num n.toFloat) else .error (.notANumber text)
  | none => .ok ((literal? text).getD (.sym (String.ofList text)))

theorem checkedAtom_eq {text : List Char} (h : ∀ c ∈ text, isAtomChar c = true) :
    checkedAtom text = .ok (atom text) := by
  have hblank : ∀ c ∈ text, Text.isBlank c = false := by
    intro c hc
    have := h c hc
    simp only [isAtomChar, Bool.not_eq_true', Bool.or_eq_false_iff] at this
    exact this.1.1.1.1.1
  rw [checkedAtom, atom, Number.Numeral.read?]
  cases hparse : Number.Numeral.parse? text with
  | none => rfl
  | some n => exact if_pos (Number.denotesNumber_of_parse? hparse hblank)

/-! ## Checked descent -/

mutual

/-- One expression, and the tokens behind it. -/
def expression : (tokens : List Token) →
    Except Mishap (Value × { rest : List Token // rest <:+ tokens.tail })
  | [] => .error .unexpectedEnd
  | t :: rest =>
    match t.kind with
    | .openBracket =>
      match items t.offset rest with
      | .error m => .error m
      | .ok (vs, ⟨after, h⟩) => .ok (.list vs, ⟨after, h.trans rest.tail_suffix⟩)
    | .closeBracket => .error (.malformed ⟨.strayBracket, t.offset⟩)
    | .quote =>
      if rest = [] then .error (.malformed ⟨.nothingQuoted, t.offset⟩)
      else match expression rest with
        | .error m => .error m
        | .ok (v, ⟨after, h⟩) => .ok (v.quoted, ⟨after, h.trans rest.tail_suffix⟩)
    | .string =>
      (checkedUnescape (t.offset + 1) (t.text.drop 1).dropLast).map fun s =>
        (.str (String.ofList s), ⟨rest, List.suffix_rfl⟩)
    | .unterminated => .error (.malformed ⟨.unclosedString, t.offset⟩)
    | .atom | .comment | .blank => (checkedAtom t.text).map fun v => (v, ⟨rest, List.suffix_rfl⟩)
termination_by tokens => (tokens.length, 0)

/-- The expressions up to the closing bracket of a list that is opened at `offset`, and the tokens
behind that bracket. -/
def items (offset : Nat) : (tokens : List Token) →
    Except Mishap (List Value × { rest : List Token // rest <:+ tokens.tail })
  | [] => .error (.malformed ⟨.unclosedBracket, offset⟩)
  | t :: rest =>
    if t.kind = .closeBracket then .ok ([], ⟨rest, List.suffix_rfl⟩)
    else match expression (t :: rest) with
      | .error m => .error m
      | .ok (v, ⟨after, h⟩) =>
        match items offset after with
        | .error m => .error m
        | .ok (vs, ⟨last, h'⟩) => .ok (v :: vs, ⟨last, (h'.trans after.tail_suffix).trans h⟩)
termination_by tokens => (tokens.length, 1)
decreasing_by
  · exact Prod.Lex.right _ Nat.zero_lt_one
  · exact Prod.Lex.left _ _ (Nat.lt_succ_of_le h.length_le)

end

/-- The expressions of a row of tokens. -/
def expressions : List Token → Except Mishap (List Value)
  | [] => .ok []
  | t :: rest =>
    match expression (t :: rest) with
    | .error m => .error m
    | .ok (v, ⟨after, _⟩) => (expressions after).map (v :: ·)
termination_by tokens => tokens.length
decreasing_by
  rename_i h
  exact Nat.lt_succ_of_le h.length_le

/-- All expressions of a text, read with every check. -/
def checkedParseAll (s : List Char) : Except Mishap (List Value) := do
  let tokens ← lex 0 s
  expressions (tokens.filter fun t => !t.kind.isTrivia)

/-- The first expression of a text, read with every check, and the text from the next one on. -/
def checkedParseOne (s : List Char) : Except Mishap (Option (Value × List Char)) := do
  let tokens ← lex 0 s
  let meaningful := tokens.filter fun t => !t.kind.isTrivia
  if meaningful = [] then return none
  let (v, rest) ← expression meaningful
  return some (v, textFrom s rest)

/-! ### The reader agrees -/

/-- What a token that is taken from a text looks like, as far as a descent relies on it. -/
structure Taken (t : Token) : Prop where
  shaped : Shaped t
  meaning : t.kind.isTrivia = false
  atom : t.kind = .atom → ∀ c ∈ t.text, isAtomChar c = true

/-- A token stands in the text at its offset, and is what is taken there. -/
theorem exists_split_of_mem_row {offset : Nat} {s : List Char} {t : Token} (h : t ∈ row offset s) :
    ∃ before c rest after, s = before ++ c :: rest ∧ t.offset = offset + before.length ∧
      split c rest = (t.kind, t.text, after) := by
  fun_induction row offset s with
  | case1 => cases h
  | case2 offset c rest first ih =>
    rcases List.mem_cons.1 h with rfl | h
    · exact ⟨[], c, rest, first.2.2, rfl, rfl, rfl⟩
    · obtain ⟨before, d, more, after, hs, hoffset, hsplit⟩ := ih h
      refine ⟨first.2.1 ++ before, d, more, after, ?_, ?_, hsplit⟩
      · rw [List.append_assoc, ← hs]
        exact (split_append c rest).symm
      · rw [hoffset, List.length_append, Nat.add_assoc]

theorem atomChars_of_mem_row {offset : Nat} {s : List Char} {t : Token} (h : t ∈ row offset s)
    (hkind : t.kind = .atom) : ∀ c ∈ t.text, isAtomChar c = true := by
  obtain ⟨before, c, rest, after, -, -, hsplit⟩ := exists_split_of_mem_row h
  rw [hkind] at hsplit
  obtain ⟨hc, htext⟩ := Value.split_eq_atom hsplit
  rw [htext]
  exact List.forall_mem_cons.2 ⟨hc, List.all_eq_true.1 List.all_takeWhile⟩

theorem taken_of_mem_meaningful {s : List Char} {t : Token} (h : t ∈ meaningful s) : Taken t := by
  obtain ⟨hrow, hmeaning⟩ := List.mem_filter.1 h
  exact ⟨shaped_of_mem_row hrow, by simpa using hmeaning, atomChars_of_mem_row hrow⟩

/-- A way of reading tokens that takes the steps of the reader, and for which an error ends it. -/
structure Descent {β : Type} (read : List Opening → List Token → β)
    (resume : Step → List Token → β) (fail : SyntaxError → β) : Prop
    extends Follows read resume where
  refused : ∀ e rest, resume (.refused e) rest = fail e
  unfinished : ∀ o outer, read (o :: outer) [] = fail o.unfinished

theorem descent_readAll : Descent readAll resumeAll .error where
  toFollows := follows_readAll
  refused _ _ := rfl
  unfinished _ _ := rfl

theorem descent_readOne : Descent readOne resumeOne .error where
  toFollows := follows_readOne
  refused _ _ := rfl
  unfinished _ _ := rfl

/-- A checked reading found nothing wrong but, at most, the text, and an answer says the same. -/
def Agrees {α β : Type} (fail : SyntaxError → β) (goOn : α → β) (answer : β) :
    Except Mishap α → Prop
  | .ok found => answer = goOn found
  | .error (.malformed e) => answer = fail e
  | .error _ => False

theorem Agrees.error {α α' β : Type} {fail : SyntaxError → β} {goOn : α → β} {goOn' : α' → β}
    {answer : β} {m : Mishap} (h : Agrees fail goOn answer (.error m)) :
    Agrees fail goOn' answer (.error m) := by
  cases m with
  | malformed e => exact h
  | _ => exact h.elim

/-- Where an expression is wanted: the next token does not close a bracket. -/
def Wanted (stack : List Opening) (tokens : List Token) : Prop :=
  ∀ t ∈ tokens.head?, t.kind = .closeBracket → ∀ offset before outer,
    stack ≠ .bracket offset before :: outer

theorem wanted_nil (tokens : List Token) : Wanted [] tokens := by
  intro t _ _ offset before outer h
  cases h

section Descents
variable {β : Type} {read : List Opening → List Token → β} {resume : Step → List Token → β}
  {fail : SyntaxError → β}

mutual

/-- **A checked descent reads what the reader reads**, whatever is open. -/
theorem Descent.expression_agrees (h : Descent read resume fail) :
    ∀ tokens : List Token, tokens ≠ [] → (∀ t ∈ tokens, Taken t) →
      ∀ stack : List Opening, Wanted stack tokens →
        Agrees fail (fun found => resume (deliver found.1 stack) found.2.val) (read stack tokens)
          (expression tokens)
  | [], hne, _, _, _ => absurd rfl hne
  | ⟨kind, text, offset⟩ :: rest, _, htaken, stack, hwanted => by
    obtain ⟨⟨hshape, hmeaning, hatom⟩, hrest⟩ := List.forall_mem_cons.1 htaken
    rw [h.cons, expression]
    cases kind with
    | comment => cases hmeaning
    | blank => cases hmeaning
    | openBracket =>
      have hitems := h.items_agrees offset rest hrest [] stack
      rw [← h.continued] at hitems
      rcases hfound : items offset rest with m | ⟨vs, after, hafter⟩
      · rw [hfound] at hitems
        exact hitems.error
      · rw [hfound] at hitems
        exact hitems
    | closeBracket =>
      have hstray : step stack ⟨.closeBracket, text, offset⟩ =
          .refused ⟨.strayBracket, offset⟩ := by
        rcases stack with _ | ⟨_ | _, outer⟩
        · rfl
        · exact absurd rfl (hwanted _ rfl rfl _ _ outer)
        · rfl
      rw [hstray]
      exact h.refused _ _
    | quote =>
      -- the descent looks ahead for an expression, the reader leaves the quote open
      show Agrees fail _ (resume (.continued (.quote offset :: stack)) rest) _
      rw [h.continued]
      by_cases hend : rest = []
      · subst hend
        exact h.unfinished _ _
      · have hquoted := h.expression_agrees rest hend hrest (.quote offset :: stack) nofun
        rcases hfound : expression rest with m | ⟨v, after, hafter⟩
        · rw [hfound] at hquoted
          simp only [if_neg hend]
          exact hquoted.error
        · rw [hfound] at hquoted
          simp only [if_neg hend]
          exact hquoted
    | string =>
      obtain ⟨body, rfl, hclosed⟩ := hshape
      simp only [step]
      rw [inside_quotes, checkedUnescape_eq hclosed]
      cases unescape (offset + 1) body with
      | error e => exact h.refused _ _
      | ok s => exact rfl
    | unterminated => exact h.refused _ _
    | atom =>
      simp only [step, checkedAtom_eq (hatom rfl)]
      exact rfl
termination_by tokens => (tokens.length, 0)

theorem Descent.items_agrees (h : Descent read resume fail) (offset : Nat) :
    ∀ tokens : List Token, (∀ t ∈ tokens, Taken t) → ∀ (before : List Value) (outer : List Opening),
      Agrees fail (fun found => resume (deliver (.list (before.reverse ++ found.1)) outer)
        found.2.val) (read (.bracket offset before :: outer) tokens) (items offset tokens)
  | [], _, _, _ => by
    rw [items]
    exact h.unfinished _ _
  | t :: rest, htaken, before, outer => by
    rw [items]
    by_cases hclose : t.kind = .closeBracket
    · have hstep : step (.bracket offset before :: outer) t =
          deliver (.list before.reverse) outer := by
        simp only [step, hclose]
      rw [if_pos hclose, h.cons, hstep, Agrees, List.append_nil]
    · have hwanted : Wanted (.bracket offset before :: outer) (t :: rest) := by
        intro u hu hkind
        cases hu
        exact absurd hkind hclose
      have hfirst := h.expression_agrees (t :: rest) (List.cons_ne_nil t rest) htaken _ hwanted
      rw [if_neg hclose]
      rcases hfound : expression (t :: rest) with m | ⟨v, after, hafter⟩
      · rw [hfound] at hfirst
        exact hfirst.error
      · rw [hfound] at hfirst
        have hanswer : read (.bracket offset before :: outer) (t :: rest) =
          read (.bracket offset (v :: before) :: outer) after := hfirst.trans (h.continued _ _)
        have hothers := h.items_agrees offset after
          (fun u hu => htaken u (List.mem_cons_of_mem t (hafter.subset hu))) (v :: before) outer
        rw [← hanswer] at hothers
        rcases hlast : items offset after with m | ⟨vs, last, hlast'⟩
        · rw [hlast] at hothers
          simp only [hlast]
          exact hothers.error
        · rw [hlast] at hothers
          have hvalues : (v :: before).reverse ++ vs = before.reverse ++ v :: vs := by
            rw [List.reverse_cons, List.append_assoc, List.singleton_append]
          simp only [Agrees, hvalues] at hothers
          simp only [hlast]
          exact hothers
termination_by tokens => (tokens.length, 1)
decreasing_by
  · exact Prod.Lex.right _ Nat.zero_lt_one
  · exact Prod.Lex.left _ _ (Nat.lt_succ_of_le hafter.length_le)

end

end Descents

/-- The expressions of a row of tokens are read by the descent. -/
theorem expressions_eq (tokens : List Token) (htaken : ∀ t ∈ tokens, Taken t) :
    expressions tokens = (readAll [] tokens).mapError .malformed := by
  fun_induction expressions tokens with
  | case1 => rfl
  | case2 t rest m hfound =>
    have hfirst := descent_readAll.expression_agrees (t :: rest) (List.cons_ne_nil t rest) htaken []
      (wanted_nil _)
    rw [hfound] at hfirst
    cases m with
    | malformed e =>
      rw [show readAll [] (t :: rest) = .error e from hfirst]
      rfl
    | _ => exact hfirst.elim
  | case3 t rest v after hafter hfound ih =>
    have hfirst := descent_readAll.expression_agrees (t :: rest) (List.cons_ne_nil t rest) htaken []
      (wanted_nil _)
    rw [hfound] at hfirst
    rw [show readAll [] (t :: rest) = (readAll [] after).map (v :: ·) from hfirst,
      ih fun u hu => htaken u (List.mem_cons_of_mem t (hafter.subset hu))]
    cases readAll [] after <;> rfl

theorem checkedParseAll_eq (s : List Char) :
    checkedParseAll s = (parseAll s).mapError .malformed := by
  rw [checkedParseAll, lex_eq]
  exact expressions_eq (meaningful s) fun t => taken_of_mem_meaningful

theorem checkedParseOne_eq (s : List Char) :
    checkedParseOne s = (parseOne s).mapError .malformed := by
  rw [checkedParseOne, lex_eq]
  show (if meaningful s = [] then _ else _) = _
  by_cases hnil : meaningful s = []
  · rw [if_pos hnil, parseOne, hnil]
    rfl
  · have hfirst := descent_readOne.expression_agrees (meaningful s) hnil
      (fun t => taken_of_mem_meaningful) [] (wanted_nil _)
    rw [if_neg hnil, parseOne]
    show (expression (meaningful s) >>= fun _ => _) = _
    rcases hfound : expression (meaningful s) with m | ⟨v, after, hafter⟩
    · rw [hfound] at hfirst
      cases m with
      | malformed e =>
        rw [show readOne [] (meaningful s) = .error e from hfirst]
        rfl
      | _ => exact hfirst.elim
    · rw [hfound] at hfirst
      rw [show readOne [] (meaningful s) = .ok (some (v, after)) from hfirst]
      rfl

end Reader

/-! ## Places of errors -/

/-- The character at the place where a flaw is reported. -/
def SyntaxFlaw.sign : SyntaxFlaw → Char
  | unclosedBracket => '('
  | strayBracket => ')'
  | nothingQuoted => '\''
  | unclosedString => '"'
  | unknownEscape _ => '\\'

namespace Reader
open Token

/-- An error is reported at a character of the text that tells its flaw. -/
def Marked (s : List Char) (e : SyntaxError) : Prop :=
  s[e.position]? = some e.flaw.sign

theorem Marked.position_lt {s : List Char} {e : SyntaxError} (h : Marked s e) :
    e.position < s.length :=
  (List.getElem?_eq_some_iff.1 h).1

/-- The characters of a token are characters of the text. -/
theorem getElem?_of_mem_meaningful {s : List Char} {t : Token} (h : t ∈ meaningful s) {i : Nat}
    {c : Char} (hc : t.text[i]? = some c) : s[t.offset + i]? = some c := by
  obtain ⟨before, d, rest, after, rfl, hoffset, hsplit⟩ :=
    exists_split_of_mem_row (List.mem_of_mem_filter h)
  have htext : t.text ++ after = d :: rest := by
    have := split_append d rest
    rwa [hsplit] at this
  have hlength : i < t.text.length := (List.getElem?_eq_some_iff.1 hc).1
  rw [hoffset, Nat.zero_add, List.getElem?_append_right (Nat.le_add_right _ _),
    Nat.add_sub_cancel_left, ← htext, List.getElem?_append_left hlength, hc]

theorem marked_of_head {s : List Char} {t : Token} (h : t ∈ meaningful s) {flaw : SyntaxFlaw}
    (hhead : t.text[0]? = some flaw.sign) : Marked s ⟨flaw, t.offset⟩ :=
  getElem?_of_mem_meaningful h hhead

theorem head_of_unterminated {s : List Char} {t : Token} (h : t ∈ meaningful s)
    (hkind : t.kind = .unterminated) : t.text[0]? = some '"' := by
  obtain ⟨before, c, rest, after, -, -, hsplit⟩ :=
    exists_split_of_mem_row (List.mem_of_mem_filter h)
  obtain ⟨rfl, hclose⟩ := split_unterminated (congrArg Prod.fst hsplit |>.trans hkind)
  rw [split_doubleQuote, hclose] at hsplit
  have htext : ['"'] = t.text := congrArg (·.2.1) hsplit
  rw [← htext]
  rfl

/-- An escape that is unknown is reported at its backslash. -/
theorem exists_of_unescape {position : Nat} {body : List Char} {e : SyntaxError}
    (h : unescape position body = .error e) :
    ∃ i c, e = ⟨.unknownEscape c, position + i⟩ ∧ body[i]? = some '\\' := by
  fun_induction unescape position body with
  | case1 => cases h
  | case2 position c rest entry hfind ih =>
    rcases hu : unescape (position + 2) rest with e' | s
    · rw [hu] at h
      cases h
      obtain ⟨i, d, rfl, hi⟩ := ih hu
      exact ⟨i + 2, d, by rw [Nat.add_assoc, Nat.add_comm 2], hi⟩
    · rw [hu] at h
      cases h
  | case3 position c rest hfind =>
    cases h
    exact ⟨0, c, rfl, rfl⟩
  | case4 position c rest hplain ih =>
    rcases hu : unescape (position + 1) rest with e' | s
    · rw [hu] at h
      cases h
      obtain ⟨i, d, rfl, hi⟩ := ih hu
      exact ⟨i + 1, d, by rw [Nat.add_assoc, Nat.add_comm 1], hi⟩
    · rw [hu] at h
      cases h

/-- A token that is refused is refused at its start or, if it is a string, at a backslash. -/
theorem marked_of_step_refused {s : List Char} {t : Token} (ht : t ∈ meaningful s)
    {stack : List Opening} {e : SyntaxError} (h : step stack t = .refused e) : Marked s e := by
  have hshape := (taken_of_mem_meaningful ht).shaped
  unfold step at h
  unfold Shaped at hshape
  split at h
  · cases h
  · cases h
  next hkind =>
    rw [hkind] at hshape
    split at h
    · exact absurd h (deliver_ne_refused _ _ _)
    · cases h
      refine marked_of_head ht ?_
      rw [hshape]
      rfl
  next hkind =>
    rw [hkind] at hshape
    obtain ⟨body, htext, -⟩ := hshape
    split at h
    · exact absurd h (deliver_ne_refused _ _ _)
    next hu =>
      cases h
      rw [htext, inside_quotes] at hu
      obtain ⟨i, c, rfl, hi⟩ := exists_of_unescape hu
      have hlength : i < body.length := (List.getElem?_eq_some_iff.1 hi).1
      have hplace : t.text[1 + i]? = some '\\' := by
        rw [htext, List.cons_append, Nat.add_comm, List.getElem?_cons_succ,
          List.getElem?_append_left hlength, hi]
      have hmark := getElem?_of_mem_meaningful ht hplace
      rwa [← Nat.add_assoc] at hmark
  next hkind =>
    cases h
    exact marked_of_head ht (head_of_unterminated ht hkind)
  all_goals exact absurd h (deliver_ne_refused _ _ _)

/-- What would be reported of everything open is at a place that tells it. -/
def AllMarked (s : List Char) (stack : List Opening) : Prop :=
  ∀ o ∈ stack, Marked s o.unfinished

theorem AllMarked.deliver {s : List Char} {stack next : List Opening} (h : AllMarked s stack)
    {v : Value} (hstep : deliver v stack = .continued next) : AllMarked s next := by
  induction stack generalizing v with
  | nil => cases hstep
  | cons o outer ih =>
    obtain ⟨ho, houter⟩ := List.forall_mem_cons.1 h
    cases o with
    | quote offset => exact ih houter hstep
    | bracket offset items =>
      cases hstep
      exact List.forall_mem_cons.2 ⟨ho, houter⟩

/-- A token that opens something stands where that would be reported. -/
theorem AllMarked.step {s : List Char} {stack next : List Opening} (h : AllMarked s stack)
    {t : Token} (ht : t ∈ meaningful s) (hstep : step stack t = .continued next) :
    AllMarked s next := by
  have hshape := (taken_of_mem_meaningful ht).shaped
  unfold Reader.step at hstep
  unfold Shaped at hshape
  split at hstep
  next hkind =>
    rw [hkind] at hshape
    cases hstep
    refine List.forall_mem_cons.2 ⟨marked_of_head ht ?_, h⟩
    rw [hshape]
    rfl
  next hkind =>
    rw [hkind] at hshape
    cases hstep
    refine List.forall_mem_cons.2 ⟨marked_of_head ht ?_, h⟩
    rw [hshape]
    rfl
  · split at hstep
    · exact AllMarked.deliver (fun o ho => h o (List.mem_cons_of_mem _ ho)) hstep
    · cases hstep
  · split at hstep
    · exact h.deliver hstep
    · cases hstep
  · cases hstep
  all_goals exact h.deliver hstep

/-- **However far the reader gets with tokens of a text, what stops it and what is open is at a
place that tells it.** -/
theorem AllMarked.progress {s : List Char} {stack : List Opening} (h : AllMarked s stack)
    {ts : List Token} (hts : ∀ t ∈ ts, t ∈ meaningful s) :
    (∀ e, (progress stack ts).ending = .error e → Marked s e) ∧
      ∀ next, (progress stack ts).ending = .ok next → AllMarked s next := by
  induction ts generalizing stack with
  | nil =>
    refine ⟨fun e he => (by cases he), fun next hnext => ?_⟩
    cases hnext
    exact h
  | cons t ts ih =>
    obtain ⟨ht, hts⟩ := List.forall_mem_cons.1 hts
    rw [Reader.progress]
    cases hstep : Reader.step stack t with
    | refused e =>
      refine ⟨fun e' he => ?_, fun next hnext => (by cases hnext)⟩
      cases he
      exact marked_of_step_refused ht hstep
    | complete v => exact ih (List.forall_mem_nil _) hts
    | continued next => exact ih (h.step ht hstep) hts

/-- **An error is at a character of the text that tells the flaw.** -/
theorem marked_of_parseAll {s : List Char} {e : SyntaxError} (h : parseAll s = .error e) :
    Marked s e := by
  have hnone : AllMarked s [] := List.forall_mem_nil _
  obtain ⟨herror, hopen⟩ := hnone.progress fun t (ht : t ∈ meaningful s) => ht
  rw [parseAll_eq_outcome] at h
  rcases cases_of_outcome h with hending | ⟨o, outer, hending, rfl⟩
  · exact herror e hending
  · exact hopen _ hending o List.mem_cons_self

/-- **Reading fails only at marked places, and at the first one.**  For every text the reader
answers what a reader with all checks answers, so a text is read or is malformed, and none of the
checks fails.  The place of an error is in the text, the character there tells the flaw, and if the
error is not about an unfinished text, then the text before that place is read or unfinished. -/
theorem failures_located (s : List Char) :
    lex 0 s = .ok (row 0 s) ∧
    checkedParseAll s = (parseAll s).mapError .malformed ∧
    checkedParseOne s = (parseOne s).mapError .malformed ∧
    ∀ e : SyntaxError, parseAll s = .error e ∨ parseOne s = .error e →
      e.position < s.length ∧ s[e.position]? = some e.flaw.sign ∧
      (e.isIncomplete = false → ∀ e' : SyntaxError,
        parseAll (s.take e.position) = .error e' ∨ parseOne (s.take e.position) = .error e' →
        e'.isIncomplete = true) := by
  have hall : ∀ {u : List Char} {e : SyntaxError}, parseAll u = .error e ∨ parseOne u = .error e →
      parseAll u = .error e := by
    intro u e h
    exact h.elim id fun hone => (parseAll_of_parseOne_eq_error hone).1
  refine ⟨lex_eq 0 s, checkedParseAll_eq s, checkedParseOne_eq s, fun e h => ?_⟩
  have hmarked := marked_of_parseAll (hall h)
  refine ⟨hmarked.position_lt, hmarked, fun hwrong e' h' => ?_⟩
  by_contra hcomplete
  -- an error that is there for good in the text before the place would be the one reported
  have hsame := (parseAll_append_of_wrong (hall h') (by simpa using hcomplete)
    (s.drop e.position)).1
  rw [List.take_append_drop, hall h] at hsame
  cases hsame
  have hbefore := (marked_of_parseAll (hall h')).position_lt
  rw [List.length_take] at hbefore
  omega

end Reader

end SmallLisp
