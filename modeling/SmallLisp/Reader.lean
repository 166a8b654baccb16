import SmallLisp.Reader.Atom
import SmallLisp.Token

/-! # The reader

Reading goes through the meaningful tokens of a text once and keeps a stack of what is still
open: brackets with the values read inside them so far, and quotes that wait for the value they
quote.  A token either opens something, completes a value, or is refused.  A completed value goes
to the innermost open bracket, through all quotes directly above it; with nothing open it is an
expression of its own.

`readOne` reads the first expression of a row of tokens, `readAll` all of them; `parseOne` and
`parseAll` do so for a text.  `peak` tells how many brackets and quotes are open at once on the
way, which is what a limit on nesting is about.
-/
namespace SmallLisp.Reader

/-- Something open: where it was opened and, for a bracket, the values inside it, the last one
first. -/
inductive Opening where
  | bracket (offset : Nat) (items : List Value)
  | quote (offset : Nat)

/-- The error that something is still open at the end of the text. -/
def Opening.unfinished : Opening → SyntaxError
  | bracket offset _ => ⟨.unclosedBracket, offset⟩
  | quote offset => ⟨.nothingQuoted, offset⟩

/-- What a token leads to. -/
inductive Step where
  | refused (e : SyntaxError)
  /-- An expression is complete and nothing is open. -/
  | complete (v : Value)
  | continued (stack : List Opening)

/-- Hands a completed value to what is open, the innermost first. -/
def deliver (v : Value) : List Opening → Step
  | [] => .complete v
  | .quote _ :: outer => deliver v.quoted outer
  | .bracket offset items :: outer => .continued (.bracket offset (v :: items) :: outer)

/-- What a meaningful token leads to, given what is open. -/
def step (stack : List Opening) (t : Token) : Step :=
  match t.kind with
  | .openBracket => .continued (.bracket t.offset [] :: stack)
  | .quote => .continued (.quote t.offset :: stack)
  | .closeBracket =>
    match stack with
    | .bracket _ items :: outer => deliver (.list items.reverse) outer
    | _ => .refused ⟨.strayBracket, t.offset⟩
  | .string =>
    -- the quotes at both ends are left off; the text between starts one character later
    match unescape (t.offset + 1) (t.text.drop 1).dropLast with
    | .ok s => deliver (.str (String.ofList s)) stack
    | .error e => .refused e
  | .unterminated => .refused ⟨.unclosedString, t.offset⟩
  | .atom | .comment | .blank => deliver (atom t.text) stack

/-- Reads one expression, given what is already open; also gives the tokens after it.  The answer
is `none` if there are no tokens and nothing is open. -/
def readOne : List Opening → List Token → Except SyntaxError (Option (Value × List Token))
  | [], [] => .ok none
  | o :: _, [] => .error o.unfinished
  | stack, t :: rest =>
    match step stack t with
    | .refused e => .error e
    | .complete v => .ok (some (v, rest))
    | .continued stack => readOne stack rest

/-- Reads all expressions, given what is already open. -/
def readAll : List Opening → List Token → Except SyntaxError (List Value)
  | [], [] => .ok []
  | o :: _, [] => .error o.unfinished
  | stack, t :: rest =>
    match step stack t with
    | .refused e => .error e
    | .complete v => (readAll [] rest).map (v :: ·)
    | .continued stack => readAll stack rest

/-- The greatest number of brackets and quotes that are open at once while tokens are read, up to
the first one that is refused. -/
def peak : List Opening → List Token → Nat
  | stack, [] => stack.length
  | stack, t :: rest =>
    match step stack t with
    | .refused _ => stack.length
    | .complete _ => max stack.length (peak [] rest)
    | .continued next => max stack.length (peak next rest)

/-- All expressions of a text. -/
def parseAll (s : List Char) : Except SyntaxError (List Value) :=
  readAll [] (Token.meaningful s)

/-- What stands from a row of tokens on in the text that they were taken from. -/
def textFrom (s : List Char) : List Token → List Char
  | [] => []
  | t :: _ => s.drop t.offset

/-- The first expression of a text, with the text that starts at the next one; `none` if the text
has no expression. -/
def parseOne (s : List Char) : Except SyntaxError (Option (Value × List Char)) :=
  (readOne [] (Token.meaningful s)).map fun found =>
    found.map fun (v, rest) => (v, textFrom s rest)

/-- The nesting of all that is read of a text. -/
def nesting (s : List Char) : Nat :=
  peak [] (Token.meaningful s)

/-- The nesting of the first expression of a text. -/
def nestingOfFirst (s : List Char) : Nat :=
  let tokens := Token.meaningful s
  match readOne [] tokens with
  | .ok (some (_, rest)) => peak [] (tokens.take (tokens.length - rest.length))
  | _ => peak [] tokens

/-- The tokens after an expression are fewer than those read. -/
theorem readOne_length {stack : List Opening} {tokens rest : List Token} {v : Value}
    (h : readOne stack tokens = .ok (some (v, rest))) :
    ∃ read, read ≠ [] ∧ tokens = read ++ rest := by
  induction tokens generalizing stack with
  | nil => cases stack <;> simp [readOne] at h
  | cons t tokens ih =>
    simp only [readOne] at h
    split at h
    · simp at h
    · simp only [Except.ok.injEq, Option.some.injEq, Prod.mk.injEq] at h
      exact ⟨[t], by simp, by simp [h.2]⟩
    · obtain ⟨read, _, hr⟩ := ih h
      exact ⟨t :: read, by simp, by simp [hr]⟩

/-- Reading all expressions is reading the first and then the others. -/
theorem readAll_of_readOne (stack : List Opening) (tokens : List Token) :
    readAll stack tokens =
      match readOne stack tokens with
      | .error e => .error e
      | .ok none => .ok []
      | .ok (some (v, rest)) => (readAll [] rest).map (v :: ·) := by
  induction tokens generalizing stack with
  | nil => cases stack <;> rfl
  | cons t tokens ih =>
    simp only [readAll, readOne]
    cases step stack t with
    | refused e => rfl
    | complete v => rfl
    | continued next => exact ih next

end SmallLisp.Reader
