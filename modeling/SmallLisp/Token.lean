import SmallLisp.Text.Blank

/-! # Tokens

A source text is a row of tokens: comments, blanks, quotes, brackets, strings and atoms.  Reading
a token takes the longest text that its kind allows, and every text can be read, because a double
quote that opens no string is a token of its own.  So reading tokens never fails; what a row of
tokens means, and whether it is complete, is the reader's business.

The token that starts a text and the text after it are `Token.split`; `Token.row` repeats that
to the end.  The texts of the tokens put together give the source back (`Token.row_join`).
-/
namespace SmallLisp

/-- What a token is, told from its first character and, for a double quote, from whether the
string it opens is closed. -/
inductive TokenKind where
  | comment
  | blank
  | quote
  | openBracket
  | closeBracket
  | string
  /-- A double quote that opens a string without an end. -/
  | unterminated
  | atom
  deriving DecidableEq, Repr

namespace TokenKind

/-- Comments and blanks separate tokens and carry no meaning. -/
def isTrivia : TokenKind → Bool
  | comment | blank => true
  | _ => false

end TokenKind

/-- A token: its kind, its text as it stands in the source, and the number of characters before
it. -/
structure Token where
  kind : TokenKind
  text : List Char
  offset : Nat
  deriving DecidableEq, Repr

namespace Token

/-- Whether a character may stand in an atom. -/
def isAtomChar (c : Char) : Bool :=
  !(Text.isBlank c || c == '(' || c == ')' || c == '\'' || c == '"' || c == ';')

/-- Splits the text after an opening double quote behind the first closing one.  A backslash
takes the character after it along, so an escaped double quote closes nothing. -/
def closeString : List Char → Option (List Char × List Char)
  | [] => none
  | '"' :: rest => some (['"'], rest)
  -- at the very end a backslash has nothing to take along, and nothing closes the string
  | ['\\'] => none
  | '\\' :: c :: rest => (closeString rest).map fun p => ('\\' :: c :: p.1, p.2)
  | c :: rest => (closeString rest).map fun p => (c :: p.1, p.2)

/-- The first token of a text that starts with `c`, as its kind and text, and what follows it. -/
def split (c : Char) (rest : List Char) : TokenKind × List Char × List Char :=
  if c = ';' then (.comment, c :: rest.takeWhile (· != '\n'), rest.dropWhile (· != '\n'))
  else if Text.isBlank c then
    (.blank, c :: rest.takeWhile Text.isBlank, rest.dropWhile Text.isBlank)
  else if c = '\'' then (.quote, [c], rest)
  else if c = '(' then (.openBracket, [c], rest)
  else if c = ')' then (.closeBracket, [c], rest)
  else if c = '"' then
    match closeString rest with
    | some (body, after) => (.string, c :: body, after)
    | none => (.unterminated, [c], rest)
  else (.atom, c :: rest.takeWhile isAtomChar, rest.dropWhile isAtomChar)

theorem closeString_append {s body after : List Char} (h : closeString s = some (body, after)) :
    body ++ after = s := by
  fun_induction closeString s generalizing body after with
  | case1 => simp at h
  | case2 rest => simp at h; obtain ⟨rfl, rfl⟩ := h; rfl
  | case3 => simp at h
  | case4 c rest ih =>
    obtain ⟨⟨b, a⟩, hp, he⟩ := Option.map_eq_some_iff.1 h
    simp only [Prod.mk.injEq] at he
    obtain ⟨rfl, rfl⟩ := he
    simp [ih hp]
  | case5 c rest _ _ _ ih =>
    obtain ⟨⟨b, a⟩, hp, he⟩ := Option.map_eq_some_iff.1 h
    simp only [Prod.mk.injEq] at he
    obtain ⟨rfl, rfl⟩ := he
    simp [ih hp]

/-- Splitting off a token loses nothing. -/
theorem split_append (c : Char) (rest : List Char) :
    (split c rest).2.1 ++ (split c rest).2.2 = c :: rest := by
  unfold split
  split
  · simp [List.takeWhile_append_dropWhile]
  split
  · simp [List.takeWhile_append_dropWhile]
  split
  · rfl
  split
  · rfl
  split
  · rfl
  split
  · split
    · next h => simp [closeString_append h]
    · rfl
  · simp [List.takeWhile_append_dropWhile]

/-- A token has at least one character. -/
theorem split_text_ne_nil (c : Char) (rest : List Char) : (split c rest).2.1 ≠ [] := by
  unfold split
  split
  · simp
  split
  · simp
  split
  · simp
  split
  · simp
  split
  · simp
  split
  · split <;> simp
  · simp

/-- What follows a token is no longer than what follows its first character. -/
theorem split_rest_length (c : Char) (rest : List Char) :
    (split c rest).2.2.length ≤ rest.length := by
  have h := congrArg List.length (split_append c rest)
  have h0 := List.length_pos_iff.2 (split_text_ne_nil c rest)
  simp only [List.length_append, List.length_cons] at h
  omega

/-- All tokens of a text, blanks and comments too, the first at `offset`. -/
def row (offset : Nat) : List Char → List Token
  | [] => []
  | c :: rest =>
    let first := split c rest
    ⟨first.1, first.2.1, offset⟩ :: row (offset + first.2.1.length) first.2.2
termination_by s => s.length
decreasing_by
  have := split_rest_length c rest
  simp only [List.length_cons]
  omega

/-- The tokens of a text that carry meaning. -/
def meaningful (s : List Char) : List Token :=
  (row 0 s).filter fun t => !t.kind.isTrivia

theorem row_cons (offset : Nat) (c : Char) (rest : List Char) :
    row offset (c :: rest) =
      ⟨(split c rest).1, (split c rest).2.1, offset⟩ ::
        row (offset + (split c rest).2.1.length) (split c rest).2.2 := by
  rw [row]

/-- The texts of the tokens, put together, are the source text. -/
theorem row_join (offset : Nat) (s : List Char) :
    (row offset s).flatMap Token.text = s := by
  fun_induction row offset s with
  | case1 => rfl
  | case2 offset c rest first ih =>
    rw [List.flatMap_cons, ih]
    exact split_append c rest

/-- No token starts before the row does. -/
theorem le_offset_of_mem_row {offset : Nat} {s : List Char} {t : Token}
    (h : t ∈ row offset s) : offset ≤ t.offset := by
  fun_induction row offset s with
  | case1 => simp at h
  | case2 offset c rest first ih =>
    rcases List.mem_cons.1 h with rfl | h
    · exact Nat.le_refl _
    · have := ih h
      omega

/-- Tokens stand in the order of their offsets. -/
theorem row_pairwise (offset : Nat) (s : List Char) :
    (row offset s).Pairwise fun a b => a.offset < b.offset := by
  fun_induction row offset s with
  | case1 => exact List.Pairwise.nil
  | case2 offset c rest first ih =>
    refine List.Pairwise.cons (fun t ht => ?_) ih
    have := le_offset_of_mem_row ht
    have : 0 < first.2.1.length := List.length_pos_iff.2 (split_text_ne_nil c rest)
    show offset < t.offset
    omega

end Token

end SmallLisp
