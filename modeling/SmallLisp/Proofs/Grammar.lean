import Mathlib.Data.List.Basic
import Mathlib.Logic.ExistsUnique
import SmallLisp.Reader

/-! # The grammar of expressions

    expression ::= atom | string | quote expression | open-bracket expression* close-bracket

where a string has no escapes but `\"`, `\\`, `\n`, `\r` and `\t`.  The terminals are the meaningful
tokens of a text without their offsets (`Lexeme`), and a derivation is a tree (`Tree`): the lexemes
at its leaves are what it derives, and it has a value.

The reader accepts exactly this grammar.  What a tree derives is read as its value, whatever is
open when its first token comes and whatever follows the last (`Follows.tree`): so the reader is
complete.  For soundness, what the reader has open is taken as a claim on the lexemes to come,
that they close it (`Finishes`); a token that is read passes such a claim on
(`finishes_of_readAll`).  That no lexemes have two derivations is seen from the first lexeme of a
tree, which tells the production.

`Reader.readText` is the reader as it goes over a text by itself, taking one token after another.
`Reader.parseAll_grammar` puts all of this together.
-/
namespace SmallLisp

/-- A terminal of the grammar: a token without its place in the text. -/
structure Lexeme where
  kind : TokenKind
  text : List Char
  deriving DecidableEq

namespace Lexeme

def openBracket : Lexeme := ⟨.openBracket, ['(']⟩

def closeBracket : Lexeme := ⟨.closeBracket, [')']⟩

def quote : Lexeme := ⟨.quote, ['\'']⟩

def atom (text : List Char) : Lexeme := ⟨.atom, text⟩

/-- The string with so many characters between its double quotes. -/
def string (body : List Char) : Lexeme := ⟨.string, '"' :: body ++ ['"']⟩

end Lexeme

/-- A token without its place. -/
def Token.lexeme (t : Token) : Lexeme := ⟨t.kind, t.text⟩

/-- The lexemes of a text. -/
def Lexeme.ofText (s : List Char) : List Lexeme :=
  (Token.meaningful s).map Token.lexeme

namespace Grammar

/-- The escapes in strings: the character behind the backslash, and the one that is meant. -/
def escapes : List (Char × Char) :=
  [('"', '"'), ('\\', '\\'), ('n', '\n'), ('r', '\r'), ('t', '\t')]

/-- The characters between the double quotes of a string spell a text. -/
inductive Spells : List Char → List Char → Prop
  | nil : Spells [] []
  | plain {c : Char} {body s : List Char} (hb : c ≠ '\\') (hq : c ≠ '"') (h : Spells body s) :
      Spells (c :: body) (c :: s)
  | escape {c d : Char} {body s : List Char} (he : (c, d) ∈ escapes) (h : Spells body s) :
      Spells ('\\' :: c :: body) (d :: s)

/-- A derivation of an expression. -/
inductive Tree where
  | atom (text : List Char)
  | string (body s : List Char) (h : Spells body s)
  | quote (inner : Tree)
  | list (items : List Tree)

mutual

/-- What is derived: the lexemes at the leaves. -/
def Tree.lexemes : Tree → List Lexeme
  | .atom text => [.atom text]
  | .string body _ _ => [.string body]
  | .quote inner => .quote :: inner.lexemes
  | .list items => .openBracket :: (lexemes items ++ [.closeBracket])

/-- What is derived by a row of trees. -/
def lexemes : List Tree → List Lexeme
  | [] => []
  | t :: rest => t.lexemes ++ lexemes rest

end

mutual

/-- The value of an expression with this derivation. -/
def Tree.value : Tree → Value
  | .atom text => Reader.atom text
  | .string _ s _ => .str (String.ofList s)
  | .quote inner => inner.value.quoted
  | .list items => .list (values items)

/-- The values of a row of expressions. -/
def values : List Tree → List Value
  | [] => []
  | t :: rest => t.value :: values rest

end

/-- To show something of all trees, show it of each from its subtrees. -/
theorem Tree.induction_on {P : Tree → Prop} (t : Tree)
    (atom : ∀ text, P (.atom text)) (string : ∀ body s h, P (.string body s h))
    (quote : ∀ inner, P inner → P (.quote inner))
    (list : ∀ items : List Tree, (∀ t ∈ items, P t) → P (.list items)) : P t := by
  refine @Tree.rec P (fun ts => ∀ t ∈ ts, P t) atom string quote list ?_ ?_ t
  · intro t ht
    cases ht
  · intro t ts ht hts u hu
    rcases List.mem_cons.1 hu with rfl | hu
    · exact ht
    · exact hts u hu

/-! ## One derivation -/

theorem escapes_functional {c d d' : Char} (h : (c, d) ∈ escapes) (h' : (c, d') ∈ escapes) :
    d = d' := by
  simp only [escapes, List.mem_cons, Prod.mk.injEq, List.not_mem_nil, or_false] at h h'
  rcases h with ⟨rfl, rfl⟩ | ⟨rfl, rfl⟩ | ⟨rfl, rfl⟩ | ⟨rfl, rfl⟩ | ⟨rfl, rfl⟩ <;>
    simpa [eq_comm] using h'

/-- Characters spell at most one text. -/
theorem Spells.unique {body s s' : List Char} (h : Spells body s) (h' : Spells body s') :
    s = s' := by
  induction h generalizing s' with
  | nil =>
    cases h'
    rfl
  | plain hb _ _ ih =>
    cases h' with
    | plain _ _ h' => rw [ih h']
    | escape => exact absurd rfl hb
  | escape he _ ih =>
    cases h' with
    | plain hb => exact absurd rfl hb
    | escape he' h' => rw [ih h', escapes_functional he he']

theorem Spells.append {body body' s s' : List Char} (h : Spells body s) (h' : Spells body' s') :
    Spells (body ++ body') (s ++ s') := by
  induction h with
  | nil => exact h'
  | plain hb hq _ ih => exact .plain hb hq ih
  | escape he _ ih => exact .escape he ih

/-- No expression begins with a closing bracket. -/
theorem Tree.lexemes_head (t : Tree) :
    ∃ first rest, t.lexemes = first :: rest ∧ first ≠ .closeBracket := by
  cases t with
  | atom text => exact ⟨_, _, rfl, nofun⟩
  | string body s h => exact ⟨_, _, rfl, nofun⟩
  | quote inner => exact ⟨_, _, rfl, nofun⟩
  | list items => exact ⟨_, _, rfl, nofun⟩

/-- If two rows of expressions stand before the same closing bracket, they are the same, as long
as the expressions of the first one are told from what follows them. -/
theorem lexemes_close_inj {ts us : List Tree} {after after' : List Lexeme}
    (htree : ∀ t ∈ ts, ∀ (u : Tree) (r r' : List Lexeme),
      t.lexemes ++ r = u.lexemes ++ r' → t = u ∧ r = r')
    (h : lexemes ts ++ .closeBracket :: after = lexemes us ++ .closeBracket :: after') :
    ts = us ∧ after = after' := by
  induction ts generalizing us with
  | nil =>
    cases us with
    | nil => exact ⟨rfl, List.cons_injective h⟩
    | cons u us =>
      obtain ⟨first, rest, hu, hne⟩ := u.lexemes_head
      simp only [lexemes, hu, List.nil_append, List.cons_append, List.cons.injEq] at h
      exact absurd h.1.symm hne
  | cons t ts ih =>
    cases us with
    | nil =>
      obtain ⟨first, rest, ht, hne⟩ := t.lexemes_head
      simp only [lexemes, ht, List.nil_append, List.cons_append, List.cons.injEq] at h
      exact absurd h.1 hne
    | cons u us =>
      simp only [lexemes, List.append_assoc] at h
      obtain ⟨rfl, hrest⟩ := htree t List.mem_cons_self u _ _ h
      obtain ⟨rfl, hafter⟩ := ih (fun v hv => htree v (List.mem_cons_of_mem _ hv)) hrest
      exact ⟨rfl, hafter⟩

/-- An expression is told from what follows it. -/
theorem Tree.lexemes_append_inj (t u : Tree) (r r' : List Lexeme)
    (h : t.lexemes ++ r = u.lexemes ++ r') : t = u ∧ r = r' := by
  induction t using Tree.induction_on generalizing u r r' with
  | atom text =>
    cases u with
    | atom text' =>
      simp only [Tree.lexemes, Lexeme.atom, List.cons_append, List.nil_append, List.cons.injEq,
        Lexeme.mk.injEq, true_and] at h
      exact ⟨congrArg _ h.1, h.2⟩
    | _ => cases (List.cons_eq_cons.1 h).1
  | string body s hs =>
    cases u with
    | string body' s' hs' =>
      simp only [Tree.lexemes, Lexeme.string, List.cons_append, List.nil_append, List.cons.injEq,
        Lexeme.mk.injEq, true_and, List.append_cancel_right_eq] at h
      obtain ⟨rfl, hr⟩ := h
      obtain rfl := hs.unique hs'
      exact ⟨rfl, hr⟩
    | _ => cases (List.cons_eq_cons.1 h).1
  | quote inner ih =>
    cases u with
    | quote inner' =>
      simp only [Tree.lexemes, List.cons_append, List.cons.injEq, true_and] at h
      obtain ⟨rfl, hr⟩ := ih inner' r r' h
      exact ⟨rfl, hr⟩
    | _ => cases (List.cons_eq_cons.1 h).1
  | list items ih =>
    cases u with
    | list items' =>
      simp only [Tree.lexemes, List.cons_append, List.append_assoc, List.nil_append,
        List.cons.injEq, true_and] at h
      obtain ⟨rfl, hr⟩ := lexemes_close_inj ih h
      exact ⟨rfl, hr⟩
    | _ => cases (List.cons_eq_cons.1 h).1

/-- **A row of lexemes has at most one derivation.** -/
theorem lexemes_injective {ts us : List Tree} (h : lexemes ts = lexemes us) : ts = us := by
  have hclose : lexemes ts ++ [.closeBracket] = lexemes us ++ [.closeBracket] := by rw [h]
  exact (lexemes_close_inj (fun t _ => t.lexemes_append_inj) hclose).1

end Grammar

/-! ## What is derived is read -/

namespace Reader
open Grammar

theorem unescape_of_spells {body s : List Char} (h : Spells body s) (position : Nat) :
    unescape position body = .ok s := by
  induction h generalizing position with
  | nil => rfl
  | @plain c body s hb hq _ ih =>
    rw [unescape]
    · rw [ih]
      rfl
    · intro c' rest heq
      exact absurd heq hb
  | @escape c d body s he _ ih =>
    have hfind : stringEscapes.find? (fun e => e.1 == c) = some (c, d) := by
      simp only [escapes, List.mem_cons, Prod.mk.injEq, List.not_mem_nil, or_false] at he
      rcases he with ⟨rfl, rfl⟩ | ⟨rfl, rfl⟩ | ⟨rfl, rfl⟩ | ⟨rfl, rfl⟩ | ⟨rfl, rfl⟩ <;> rfl
    rw [unescape, hfind, ih]
    rfl

/-! ### Steps on the lexemes of the grammar -/

/-- What stands between the double quotes of a string. -/
theorem inside_quotes (body : List Char) : (('"' :: body ++ ['"']).drop 1).dropLast = body :=
  List.dropLast_concat

section Steps
variable {t : Token} {stack : List Opening}

theorem step_atom {text : List Char} (ht : t.lexeme = .atom text) :
    step stack t = deliver (atom text) stack := by
  obtain ⟨kind, _, offset⟩ := t
  cases ht
  rfl

theorem step_string {body s : List Char} (ht : t.lexeme = .string body) (h : Spells body s) :
    step stack t = deliver (.str (String.ofList s)) stack := by
  have hkind : t.kind = .string := congrArg Lexeme.kind ht
  have htext : t.text = '"' :: body ++ ['"'] := congrArg Lexeme.text ht
  simp only [step, hkind, htext, inside_quotes, unescape_of_spells h]

theorem step_quote (ht : t.lexeme = .quote) :
    step stack t = .continued (.quote t.offset :: stack) := by
  obtain ⟨kind, _, offset⟩ := t
  cases ht
  rfl

theorem step_openBracket (ht : t.lexeme = .openBracket) :
    step stack t = .continued (.bracket t.offset [] :: stack) := by
  obtain ⟨kind, _, offset⟩ := t
  cases ht
  rfl

theorem step_closeBracket {offset : Nat} {items : List Value} {outer : List Opening}
    (ht : t.lexeme = .closeBracket) :
    step (.bracket offset items :: outer) t = deliver (.list items.reverse) outer := by
  obtain ⟨kind, _, offset⟩ := t
  cases ht
  rfl

end Steps

/-! ### Rows of tokens -/

/-- A way of reading tokens that takes the steps of the reader: what becomes of a row of tokens
follows from where the first of them leads. -/
structure Follows {β : Type} (read : List Opening → List Token → β)
    (resume : Step → List Token → β) : Prop where
  cons : ∀ stack t rest, read stack (t :: rest) = resume (step stack t) rest
  continued : ∀ stack rest, resume (.continued stack) rest = read stack rest

namespace Follows

variable {β : Type} {read : List Opening → List Token → β} {resume : Step → List Token → β}

/-- In an open bracket the values of expressions are gathered. -/
theorem forest (h : Follows read resume) {trees : List Tree}
    (htree : ∀ tree ∈ trees, ∀ (ts : List Token) (stack : List Opening) (rest : List Token),
      ts.map Token.lexeme = tree.lexemes →
      read stack (ts ++ rest) = resume (deliver tree.value stack) rest)
    {ts : List Token} (hts : ts.map Token.lexeme = lexemes trees) (offset : Nat)
    (items : List Value) (outer : List Opening) (rest : List Token) :
    read (.bracket offset items :: outer) (ts ++ rest) =
      read (.bracket offset ((values trees).reverse ++ items) :: outer) rest := by
  induction trees generalizing ts items with
  | nil =>
    rw [lexemes, List.map_eq_nil_iff] at hts
    subst hts
    rfl
  | cons tree trees ih =>
    rw [lexemes] at hts
    obtain ⟨first, others, rfl, hfirst, hothers⟩ := List.map_eq_append_iff.1 hts
    rw [List.append_assoc, htree tree List.mem_cons_self first _ _ hfirst, deliver, h.continued,
      ih (fun t ht => htree t (List.mem_cons_of_mem _ ht)) hothers, values, List.reverse_cons,
      List.append_assoc, List.singleton_append]

/-- **An expression is read as its value**, whatever is open and whatever follows. -/
theorem tree (h : Follows read resume) (tree : Tree) (ts : List Token) (stack : List Opening)
    (rest : List Token) (hts : ts.map Token.lexeme = tree.lexemes) :
    read stack (ts ++ rest) = resume (deliver tree.value stack) rest := by
  induction tree using Tree.induction_on generalizing ts stack rest with
  | atom text =>
    obtain ⟨t, rfl, ht⟩ := List.map_eq_singleton_iff.1 hts
    exact (h.cons stack t rest).trans (congrArg (resume · rest) (step_atom ht))
  | string body s hs =>
    obtain ⟨t, rfl, ht⟩ := List.map_eq_singleton_iff.1 hts
    exact (h.cons stack t rest).trans (congrArg (resume · rest) (step_string ht hs))
  | quote inner ih =>
    obtain ⟨t, others, rfl, ht, hothers⟩ := List.map_eq_cons_iff.1 hts
    rw [List.cons_append, h.cons, step_quote ht, h.continued, ih others _ rest hothers]
    rfl
  | list items ih =>
    obtain ⟨t, others, rfl, ht, hothers⟩ := List.map_eq_cons_iff.1 hts
    obtain ⟨inside, last, rfl, hinside, hlast⟩ := List.map_eq_append_iff.1 hothers
    obtain ⟨close, rfl, hclose⟩ := List.map_eq_singleton_iff.1 hlast
    rw [List.cons_append, h.cons, step_openBracket ht, h.continued, List.append_assoc,
      h.forest ih hinside, List.singleton_append, h.cons, step_closeBracket hclose,
      List.append_nil, List.reverse_reverse]
    rfl

end Follows

/-- What reading all expressions comes to after a step. -/
def resumeAll (s : Step) (rest : List Token) : Except SyntaxError (List Value) :=
  match s with
  | .refused e => .error e
  | .complete v => (readAll [] rest).map (v :: ·)
  | .continued stack => readAll stack rest

theorem follows_readAll : Follows readAll resumeAll where
  cons stack t rest := by
    rw [readAll]
    cases step stack t <;> rfl
  continued _ _ := rfl

/-- What reading one expression comes to after a step. -/
def resumeOne (s : Step) (rest : List Token) : Except SyntaxError (Option (Value × List Token)) :=
  match s with
  | .refused e => .error e
  | .complete v => .ok (some (v, rest))
  | .continued stack => readOne stack rest

theorem follows_readOne : Follows readOne resumeOne where
  cons stack t rest := by
    rw [readOne]
    cases step stack t <;> rfl
  continued _ _ := rfl

/-- A row of expressions is read as the row of their values. -/
theorem readAll_of_lexemes {trees : List Tree} {ts : List Token}
    (hts : ts.map Token.lexeme = lexemes trees) : readAll [] ts = .ok (values trees) := by
  induction trees generalizing ts with
  | nil =>
    rw [lexemes, List.map_eq_nil_iff] at hts
    subst hts
    rfl
  | cons tree trees ih =>
    rw [lexemes] at hts
    obtain ⟨first, others, rfl, hfirst, hothers⟩ := List.map_eq_append_iff.1 hts
    rw [follows_readAll.tree tree first [] others hfirst, deliver, resumeAll, ih hothers]
    rfl

/-- The first expression of a text is read, and the tokens after it are left. -/
theorem readOne_of_lexemes {tree : Tree} {ts : List Token}
    (hts : ts.map Token.lexeme = tree.lexemes) (rest : List Token) :
    readOne [] (ts ++ rest) = .ok (some (tree.value, rest)) :=
  follows_readOne.tree tree ts [] rest hts

/-! ## What is read is derived -/

/-- A text that may stand between the double quotes of a string: no double quote closes it early,
and a backslash has a character to take along. -/
inductive Closed : List Char → Prop
  | nil : Closed []
  | plain {c : Char} {body : List Char} (hb : c ≠ '\\') (hq : c ≠ '"') (h : Closed body) :
      Closed (c :: body)
  | pair (c : Char) {body : List Char} (h : Closed body) : Closed ('\\' :: c :: body)

/-- If the escapes in a string can be replaced, they are those of the grammar. -/
theorem spells_of_unescape {body s : List Char} {position : Nat} (hc : Closed body)
    (h : unescape position body = .ok s) : Spells body s := by
  induction hc generalizing position s with
  | nil =>
    cases h
    exact .nil
  | @plain c body hb hq _ ih =>
    rw [unescape] at h
    · obtain ⟨s', hs', rfl⟩ : ∃ s', unescape (position + 1) body = .ok s' ∧ c :: s' = s := by
        rcases hu : unescape (position + 1) body with e | s'
        · rw [hu] at h
          cases h
        · rw [hu] at h
          cases h
          exact ⟨s', rfl, rfl⟩
      exact .plain hb hq (ih hs')
    · intro c' rest heq
      exact absurd heq hb
  | @pair c body _ ih =>
    rw [unescape] at h
    rcases hf : stringEscapes.find? (fun e => e.1 == c) with _ | ⟨c', d⟩
    · rw [hf] at h
      cases h
    · rw [hf] at h
      have hmem : (c', d) ∈ stringEscapes := List.mem_of_find?_eq_some hf
      have hchar : c' = c := by simpa using List.find?_some hf
      rcases hu : unescape (position + 2) body with e | s'
      · rw [hu] at h
        cases h
      · rw [hu] at h
        cases h
        exact .escape (hchar ▸ hmem) (ih hu)

/-- A token as it is taken from a text: its kind tells its text, or the shape of it. -/
def Shaped (t : Token) : Prop :=
  match t.kind with
  | .quote => t.text = ['\'']
  | .openBracket => t.text = ['(']
  | .closeBracket => t.text = [')']
  | .string => ∃ body, t.text = '"' :: body ++ ['"'] ∧ Closed body
  | .comment | .blank | .unterminated | .atom => True

theorem closed_of_closeString {s body after : List Char}
    (h : Token.closeString s = some (body, after)) :
    ∃ inside, body = inside ++ ['"'] ∧ Closed inside := by
  fun_induction Token.closeString s generalizing body after with
  | case1 => cases h
  | case2 rest =>
    cases h
    exact ⟨[], rfl, .nil⟩
  | case3 => cases h
  | case4 c rest ih =>
    obtain ⟨⟨b, a⟩, hp, he⟩ := Option.map_eq_some_iff.1 h
    cases he
    obtain ⟨inside, rfl, hc⟩ := ih hp
    exact ⟨'\\' :: c :: inside, rfl, .pair c hc⟩
  | case5 c rest hq hlast hpair ih =>
    obtain ⟨⟨b, a⟩, hp, he⟩ := Option.map_eq_some_iff.1 h
    cases he
    obtain ⟨inside, rfl, hc⟩ := ih hp
    refine ⟨c :: inside, rfl, .plain ?_ hq hc⟩
    rintro rfl
    cases rest with
    | nil => exact hlast rfl rfl
    | cons d rest => exact hpair d rest rfl rfl

theorem closeString_plain {c : Char} (hb : c ≠ '\\') (hq : c ≠ '"') (rest : List Char) :
    Token.closeString (c :: rest) =
      (Token.closeString rest).map fun (body, after) => (c :: body, after) := by
  rw [Token.closeString]
  · exact hq
  · intro hc
    exact absurd hc hb
  · intro _ _ hc
    exact absurd hc hb

/-- A string ends with the first double quote behind what may stand inside. -/
theorem closeString_of_closed {body : List Char} (h : Closed body) (rest : List Char) :
    Token.closeString (body ++ '"' :: rest) = some (body ++ ['"'], rest) := by
  induction h with
  | nil => rfl
  | @plain c body hb hq _ ih =>
    rw [List.cons_append, closeString_plain hb hq, ih]
    rfl
  | @pair c body _ ih =>
    rw [List.cons_append, List.cons_append, Token.closeString, ih]
    rfl

/-- A double quote opens a string if there is one to close it. -/
theorem split_doubleQuote (rest : List Char) :
    Token.split '"' rest =
      match Token.closeString rest with
      | some (body, after) => (.string, '"' :: body, after)
      | none => (.unterminated, ['"'], rest) := by
  rcases hclose : Token.closeString rest with _ | ⟨body, after⟩
  all_goals simp [Token.split, Text.isBlank, hclose]

/-- A string is one token, up to its second double quote. -/
theorem split_string {body : List Char} (h : Closed body) (rest : List Char) :
    Token.split '"' (body ++ '"' :: rest) = (.string, '"' :: body ++ ['"'], rest) := by
  rw [split_doubleQuote, closeString_of_closed h]
  rfl

theorem closed_of_spells {body s : List Char} (h : Spells body s) : Closed body := by
  induction h with
  | nil => exact .nil
  | plain hb hq _ ih => exact .plain hb hq ih
  | escape _ _ ih => exact .pair _ ih

theorem shaped_split (c : Char) (rest : List Char) (offset : Nat) :
    Shaped ⟨(Token.split c rest).1, (Token.split c rest).2.1, offset⟩ := by
  unfold Token.split
  split
  · trivial
  split
  · trivial
  split
  next h => exact congrArg (fun c => [c]) h
  split
  next h => exact congrArg (fun c => [c]) h
  split
  next h => exact congrArg (fun c => [c]) h
  split
  next h =>
    subst h
    split
    next body after hs =>
      obtain ⟨inside, rfl, hc⟩ := closed_of_closeString hs
      exact ⟨inside, rfl, hc⟩
    · trivial
  · trivial

theorem shaped_of_mem_row {offset : Nat} {s : List Char} {t : Token}
    (h : t ∈ Token.row offset s) : Shaped t := by
  fun_induction Token.row offset s with
  | case1 => cases h
  | case2 offset c rest first ih =>
    rcases List.mem_cons.1 h with rfl | h
    · exact shaped_split c rest offset
    · exact ih h

/-- A value is complete: the lexemes to come close what is open around it, and then the rest of
the expressions follows. -/
def FinishesWith : List Opening → Value → List Lexeme → List Value → Prop
  | [], v, ls, es => ∃ trees, ls = lexemes trees ∧ es = v :: values trees
  | .quote _ :: outer, v, ls, es => FinishesWith outer v.quoted ls es
  | .bracket _ items :: outer, v, ls, es =>
    ∃ trees after, ls = lexemes trees ++ .closeBracket :: after ∧
      FinishesWith outer (.list (items.reverse ++ v :: values trees)) after es

/-- The lexemes to come close what is open, and then the rest of the expressions follows. -/
def Finishes : List Opening → List Lexeme → List Value → Prop
  | [], ls, es => ∃ trees, ls = lexemes trees ∧ es = values trees
  | .quote _ :: outer, ls, es =>
    ∃ (tree : Tree) (after : List Lexeme),
      ls = tree.lexemes ++ after ∧ FinishesWith outer tree.value.quoted after es
  | .bracket _ items :: outer, ls, es =>
    ∃ trees after, ls = lexemes trees ++ .closeBracket :: after ∧
      FinishesWith outer (.list (items.reverse ++ values trees)) after es

/-- What follows a complete value follows the expression that has this value. -/
theorem FinishesWith.finishes {stack : List Opening} (tree : Tree) {after : List Lexeme}
    {es : List Value} (h : FinishesWith stack tree.value after es) :
    Finishes stack (tree.lexemes ++ after) es := by
  match stack with
  | [] =>
    obtain ⟨trees, rfl, rfl⟩ := h
    exact ⟨tree :: trees, rfl, rfl⟩
  | .quote _ :: outer => exact ⟨tree, after, rfl, h⟩
  | .bracket _ items :: outer =>
    obtain ⟨trees, after, rfl, hw⟩ := h
    exact ⟨tree :: trees, after, by simp only [lexemes, List.append_assoc], hw⟩

/-- A value that is handed to what is open passes on what the reader makes of the rest. -/
theorem finishesWith_of_deliver {rest : List Token} {stack : List Opening} {v : Value}
    {es : List Value}
    (ih : ∀ stack es, readAll stack rest = .ok es → Finishes stack (rest.map Token.lexeme) es)
    (h : resumeAll (deliver v stack) rest = .ok es) :
    FinishesWith stack v (rest.map Token.lexeme) es := by
  induction stack generalizing v with
  | nil =>
    rw [deliver, resumeAll] at h
    rcases hr : readAll [] rest with e | es'
    · rw [hr] at h
      cases h
    · rw [hr] at h
      cases h
      obtain ⟨trees, hl, rfl⟩ := ih [] es' hr
      exact ⟨trees, hl, rfl⟩
  | cons o outer houter =>
    cases o with
    | quote offset => exact houter h
    | bracket offset items =>
      obtain ⟨trees, after, hl, hw⟩ := ih (.bracket offset (v :: items) :: outer) es h
      rw [List.reverse_cons, List.append_assoc, List.singleton_append] at hw
      exact ⟨trees, after, hl, hw⟩

/-- **Tokens that are read close what is open, with expressions of the grammar.** -/
theorem finishes_of_readAll {ts : List Token}
    (hs : ∀ t ∈ ts, Shaped t ∧ t.kind.isTrivia = false) {stack : List Opening} {es : List Value}
    (h : readAll stack ts = .ok es) : Finishes stack (ts.map Token.lexeme) es := by
  induction ts generalizing stack es with
  | nil =>
    cases stack with
    | nil =>
      cases h
      exact ⟨[], rfl, rfl⟩
    | cons o outer => cases h
  | cons t rest ih =>
    have ih' : ∀ stack es, readAll stack rest = .ok es →
        Finishes stack (rest.map Token.lexeme) es :=
      fun _ _ => ih fun u hu => hs u (List.mem_cons_of_mem _ hu)
    obtain ⟨hshape, hmeaning⟩ := hs t List.mem_cons_self
    rw [follows_readAll.cons] at h
    rw [List.map_cons]
    obtain ⟨kind, text, offset⟩ := t
    cases kind with
    | comment => cases hmeaning
    | blank => cases hmeaning
    | unterminated => cases h
    | openBracket =>
      -- the tokens to come complete a list
      cases hshape
      obtain ⟨trees, after, hl, hw⟩ := ih' _ es h
      have hf := FinishesWith.finishes (.list trees) hw
      rwa [Tree.lexemes, List.cons_append, List.append_assoc, List.singleton_append, ← hl] at hf
    | quote =>
      cases hshape
      obtain ⟨tree, after, hl, hw⟩ := ih' _ es h
      have hf := FinishesWith.finishes (.quote tree) hw
      rwa [Tree.lexemes, List.cons_append, ← hl] at hf
    | closeBracket =>
      cases hshape
      rcases stack with _ | ⟨_ | _, outer⟩
      · cases h
      · have hw := finishesWith_of_deliver ih' h
        refine ⟨[], rest.map Token.lexeme, rfl, ?_⟩
        rwa [values, List.append_nil]
      · cases h
    | string =>
      obtain ⟨body, rfl, hclosed⟩ := hshape
      simp only [step] at h
      rw [inside_quotes] at h
      rcases hu : unescape (offset + 1) body with e | s
      · rw [hu] at h
        cases h
      · rw [hu] at h
        have hspells := spells_of_unescape hclosed hu
        exact FinishesWith.finishes (.string body s hspells) (finishesWith_of_deliver ih' h)
    | atom => exact FinishesWith.finishes (.atom text) (finishesWith_of_deliver ih' h)

/-! ## Reading token by token -/

/-- The next meaningful token of a text from an offset on, and the text after it. -/
def nextToken (offset : Nat) : List Char → Option (Token × List Char)
  | [] => none
  | c :: rest =>
    let first := Token.split c rest
    if first.1.isTrivia then nextToken (offset + first.2.1.length) first.2.2
    else some (⟨first.1, first.2.1, offset⟩, first.2.2)
termination_by s => s.length
decreasing_by
  have := Token.split_rest_length c rest
  simp only [List.length_cons]
  omega

theorem nextToken_length {offset : Nat} {s : List Char} {t : Token} {after : List Char}
    (h : nextToken offset s = some (t, after)) : after.length < s.length := by
  fun_induction nextToken offset s with
  | case1 => cases h
  | case2 offset c rest first htrivia ih =>
    exact Nat.lt_of_lt_of_le (ih h) (Nat.le_succ_of_le (Token.split_rest_length c rest))
  | case3 offset c rest first htrivia =>
    cases h
    exact Nat.lt_succ_of_le (Token.split_rest_length c rest)

/-- Reads all expressions of a text from an offset on, one token after another as they come, given
what is already open. -/
def readText (stack : List Opening) (offset : Nat) (s : List Char) :
    Except SyntaxError (List Value) :=
  match _hn : nextToken offset s with
  | none =>
    match stack with
    | [] => .ok []
    | o :: _ => .error o.unfinished
  | some (t, after) =>
    match step stack t with
    | .refused e => .error e
    | .complete v => (readText [] (t.offset + t.text.length) after).map (v :: ·)
    | .continued stack => readText stack (t.offset + t.text.length) after
termination_by s.length
decreasing_by
  all_goals exact nextToken_length (by assumption)

/-- The meaningful tokens of a text whose first character is at an offset. -/
def meaningfulFrom (offset : Nat) (s : List Char) : List Token :=
  (Token.row offset s).filter fun t => !t.kind.isTrivia

/-- The meaningful tokens of a text are the next one and those after it. -/
theorem meaningfulFrom_eq (offset : Nat) (s : List Char) :
    meaningfulFrom offset s =
      match nextToken offset s with
      | none => []
      | some (t, after) => t :: meaningfulFrom (t.offset + t.text.length) after := by
  fun_induction nextToken offset s with
  | case1 => rw [meaningfulFrom, Token.row, List.filter_nil]
  | case2 offset c rest first htrivia ih =>
    rw [meaningfulFrom, Token.row_cons, List.filter_cons_of_neg (by simpa using htrivia)]
    exact ih
  | case3 offset c rest first htrivia =>
    rw [meaningfulFrom, Token.row_cons, List.filter_cons_of_pos (by simpa using htrivia)]
    rfl

/-- **Token by token a text is read as the row of all its tokens is.** -/
theorem readText_eq (stack : List Opening) (offset : Nat) (s : List Char) :
    readText stack offset s = readAll stack (meaningfulFrom offset s) := by
  fun_induction readText stack offset s with
  | case1 offset s hn =>
    rw [meaningfulFrom_eq, hn]
    rfl
  | case2 offset s hn o outer =>
    rw [meaningfulFrom_eq, hn]
    rfl
  | case3 stack offset s t after hn e hs =>
    rw [meaningfulFrom_eq, hn, follows_readAll.cons, hs]
    rfl
  | case4 stack offset s t after hn v hs ih =>
    rw [meaningfulFrom_eq, hn, follows_readAll.cons, hs, ih]
    rfl
  | case5 stack offset s t after hn next hs ih =>
    rw [meaningfulFrom_eq, hn, follows_readAll.cons, hs, ih]
    rfl

/-! ## The reader and the grammar -/

theorem parseAll_of_lexemes {s : List Char} {trees : List Tree}
    (h : lexemes trees = Lexeme.ofText s) : parseAll s = .ok (values trees) :=
  readAll_of_lexemes h.symm

theorem exists_trees_of_parseAll {s : List Char} {es : List Value} (h : parseAll s = .ok es) :
    ∃ trees, lexemes trees = Lexeme.ofText s ∧ values trees = es := by
  have hs : ∀ t ∈ Token.meaningful s, Shaped t ∧ t.kind.isTrivia = false := by
    intro t ht
    obtain ⟨hrow, hmeaning⟩ := List.mem_filter.1 ht
    exact ⟨shaped_of_mem_row hrow, by simpa using hmeaning⟩
  obtain ⟨trees, hl, hv⟩ := finishes_of_readAll hs h
  exact ⟨trees, hl.symm, hv.symm⟩

/-- **The reader accepts exactly the grammar.**  A text is read as a row of expressions if and only
if its lexemes have a derivation with these values; no row of lexemes has two derivations; and a
text of which the lexemes have none is refused as malformed.  It is the same to read the text token
by token, and texts with the same lexemes are read as the same expressions. -/
theorem parseAll_grammar (s : List Char) :
    (∀ es : List Value, parseAll s = .ok es ↔
      ∃! trees : List Tree, lexemes trees = Lexeme.ofText s ∧ values trees = es) ∧
    (∀ trees trees' : List Tree, lexemes trees = Lexeme.ofText s →
      lexemes trees' = Lexeme.ofText s → trees = trees') ∧
    ((¬ ∃ trees : List Tree, lexemes trees = Lexeme.ofText s) →
      ∃ e : SyntaxError, parseAll s = .error e) ∧
    readText [] 0 s = parseAll s ∧
    ∀ s' : List Char, Lexeme.ofText s' = Lexeme.ofText s →
      (parseAll s').toOption = (parseAll s).toOption := by
  refine ⟨fun es => ⟨fun h => ?_, fun h => ?_⟩, fun trees trees' h h' => ?_, fun hnone => ?_,
    readText_eq [] 0 s, fun s' hs' => ?_⟩
  · obtain ⟨trees, hl, hv⟩ := exists_trees_of_parseAll h
    exact ⟨trees, ⟨hl, hv⟩, fun trees' h' => lexemes_injective (h'.1.trans hl.symm)⟩
  · obtain ⟨trees, ⟨hl, rfl⟩, -⟩ := h
    exact parseAll_of_lexemes hl
  · exact lexemes_injective (h.trans h'.symm)
  · rcases hp : parseAll s with e | es
    · exact ⟨e, rfl⟩
    · obtain ⟨trees, hl, -⟩ := exists_trees_of_parseAll hp
      exact absurd ⟨trees, hl⟩ hnone
  · rcases hp : parseAll s with e | es
    · rcases hp' : parseAll s' with e' | es'
      · rfl
      · obtain ⟨trees, hl, -⟩ := exists_trees_of_parseAll hp'
        rw [parseAll_of_lexemes (hl.trans hs')] at hp
        cases hp
    · obtain ⟨trees, hl, rfl⟩ := exists_trees_of_parseAll hp
      rw [parseAll_of_lexemes (hl.trans hs'.symm)]

end Reader

end SmallLisp
