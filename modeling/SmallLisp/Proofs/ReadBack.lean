import SmallLisp.Proofs.ReadingProgress
import SmallLisp.Proofs.WrittenNumbers
import SmallLisp.Value.Agreement
import SmallLisp.Value.Written

/-! # Reading undoes writing

The readable text of a value is read as this value, if the value is made of literals, finite
numbers, strings, symbols that read as symbols, and lists of such values (`Value.Readable`).  Only
the sign of a zero is lost (`Value.unsignedZeros`).

Every readable value has a derivation in the grammar (`Value.derivation`).  Where one token ends
and the next begins is the point of `Value.Readable.ofText_write`: the lexemes of the text, with
anything behind it that does not go on with an atom (`EndsAtom`), are those of the derivation and
those of what is behind.  Then the value is read because what is derived is read.

The text opens as many brackets at once as the value has lists inside one another
(`Reader.peak_lexemes`), so a text that could be written can be read.
-/
namespace SmallLisp

/-! ## The lexemes of a text -/

namespace Lexeme

open Grammar

/-- A text that is one atom. -/
structure IsAtom (text : List Char) : Prop where
  nonempty : text ≠ []
  chars : ∀ c ∈ text, Token.isAtomChar c = true

/-- What follows an atom: a text that does not go on with a character of atoms. -/
def EndsAtom (rest : List Char) : Prop :=
  ∀ c ∈ rest.head?, Token.isAtomChar c = false

theorem endsAtom_nil : EndsAtom [] := nofun

theorem endsAtom_cons {c : Char} (h : Token.isAtomChar c = false) (rest : List Char) :
    EndsAtom (c :: rest) := by
  intro d hd
  cases hd
  exact h

/-- Where a text stands does not matter to its lexemes. -/
theorem map_lexeme_meaningfulFrom (offset offset' : Nat) (s : List Char) :
    (Reader.meaningfulFrom offset s).map Token.lexeme =
      (Reader.meaningfulFrom offset' s).map Token.lexeme := by
  fun_induction Token.row offset s generalizing offset' with
  | case1 =>
    rw [Reader.meaningfulFrom, Reader.meaningfulFrom, Token.row, Token.row]
  | case2 offset c rest first ih =>
    have ih := ih (offset' + first.2.1.length)
    rw [Reader.meaningfulFrom, Reader.meaningfulFrom] at ih ⊢
    rw [Token.row_cons, Token.row_cons]
    by_cases htrivia : first.1.isTrivia
    · rw [List.filter_cons_of_neg (by simpa using htrivia),
        List.filter_cons_of_neg (by simpa using htrivia)]
      exact ih
    · rw [List.filter_cons_of_pos (by simpa using htrivia),
        List.filter_cons_of_pos (by simpa using htrivia), List.map_cons, List.map_cons]
      exact congrArg _ ih

theorem ofText_nil : ofText [] = [] := by
  rw [ofText, Token.meaningful, Token.row]
  rfl

/-- The lexemes of a text are that of the first token, if it has a meaning, and those of the rest. -/
theorem ofText_cons (c : Char) (rest : List Char) :
    ofText (c :: rest) =
      (if (Token.split c rest).1.isTrivia then []
        else [⟨(Token.split c rest).1, (Token.split c rest).2.1⟩]) ++
        ofText (Token.split c rest).2.2 := by
  have hafter := map_lexeme_meaningfulFrom (0 + (Token.split c rest).2.1.length) 0
    (Token.split c rest).2.2
  rw [Reader.meaningfulFrom, Reader.meaningfulFrom] at hafter
  rw [ofText, ofText, Token.meaningful, Token.meaningful, Token.row_cons, ← hafter]
  by_cases htrivia : (Token.split c rest).1.isTrivia
  · rw [List.filter_cons_of_neg (by simpa using htrivia), if_pos htrivia, List.nil_append]
  · rw [List.filter_cons_of_pos (by simpa using htrivia), if_neg htrivia]
    rfl

theorem ofText_openBracket (rest : List Char) :
    ofText ('(' :: rest) = .openBracket :: ofText rest :=
  ofText_cons '(' rest

theorem ofText_closeBracket (rest : List Char) :
    ofText (')' :: rest) = .closeBracket :: ofText rest :=
  ofText_cons ')' rest

/-- Blanks have no meaning. -/
theorem ofText_dropWhile_blank (s : List Char) :
    ofText (s.dropWhile Text.isBlank) = ofText s := by
  cases s with
  | nil => rfl
  | cons c rest =>
    by_cases hblank : Text.isBlank c = true
    · have hcomment : c ≠ ';' := by
        rintro rfl
        exact absurd hblank (by decide)
      rw [List.dropWhile_cons_of_pos hblank, ofText_cons c rest, Token.split, if_neg hcomment,
        if_pos hblank]
      rfl
    · rw [List.dropWhile_cons_of_neg hblank]

theorem ofText_space (rest : List Char) : ofText (' ' :: rest) = ofText rest :=
  (ofText_cons ' ' rest).trans (ofText_dropWhile_blank rest)

/-- An atom is the first token of a text, if what is behind it ends it. -/
theorem IsAtom.split {c : Char} {cs rest : List Char} (h : IsAtom (c :: cs))
    (hrest : EndsAtom rest) : Token.split c (cs ++ rest) = (.atom, c :: cs, rest) := by
  obtain ⟨hc, hcs⟩ := List.forall_mem_cons.1 h.chars
  have htake : (cs ++ rest).takeWhile Token.isAtomChar = cs := by
    rw [List.takeWhile_append_of_pos hcs]
    cases rest with
    | nil => exact List.append_nil cs
    | cons d ds => rw [List.takeWhile_cons_of_neg (by simp [hrest d rfl]), List.append_nil]
  have hdrop : (cs ++ rest).dropWhile Token.isAtomChar = rest := by
    rw [List.dropWhile_append_of_pos hcs]
    cases rest with
    | nil => rfl
    | cons d ds => rw [List.dropWhile_cons_of_neg (by simp [hrest d rfl])]
  simp only [Token.isAtomChar, Bool.not_eq_true', Bool.or_eq_false_iff, beq_eq_false_iff_ne] at hc
  obtain ⟨⟨⟨⟨⟨hblank, hopen⟩, hclose⟩, hquote⟩, hstring⟩, hcomment⟩ := hc
  rw [Token.split, if_neg hcomment, if_neg (by simp [hblank]), if_neg hquote, if_neg hopen,
    if_neg hclose, if_neg hstring, htake, hdrop]

/-- An atom is one lexeme, if what is behind it ends it. -/
theorem IsAtom.ofText {text rest : List Char} (h : IsAtom text) (hrest : EndsAtom rest) :
    Lexeme.ofText (text ++ rest) = .atom text :: Lexeme.ofText rest := by
  obtain ⟨c, cs, rfl⟩ := List.exists_cons_of_ne_nil h.nonempty
  rw [List.cons_append, ofText_cons, h.split hrest]
  rfl

/-- An atom is a single token. -/
theorem IsAtom.row {text : List Char} (h : IsAtom text) :
    Token.row 0 text = [⟨.atom, text, 0⟩] := by
  obtain ⟨c, cs, rfl⟩ := List.exists_cons_of_ne_nil h.nonempty
  have hsplit := h.split endsAtom_nil
  rw [List.append_nil] at hsplit
  rw [Token.row_cons, hsplit, Token.row]

theorem ofText_string {body s : List Char} (h : Spells body s) (rest : List Char) :
    ofText ('"' :: body ++ '"' :: rest) = .string body :: ofText rest := by
  rw [List.cons_append, ofText_cons, Reader.split_string (Reader.closed_of_spells h)]
  rfl

end Lexeme

namespace Grammar

/-- The characters that a string is written with spell the string. -/
theorem spells_escaped (s : List Char) : Spells (s.flatMap escapeChar) s := by
  induction s with
  | nil => exact .nil
  | cons c s ih =>
    rw [List.flatMap_cons, escapeChar]
    cases h : stringEscapes.find? fun e => e.2 == c with
    | some e =>
      have hmem : e ∈ escapes := List.mem_of_find?_eq_some h
      have hchar : e.2 = c := by simpa using List.find?_some h
      exact .escape (hchar ▸ hmem) ih
    | none =>
      have hne : ∀ e ∈ stringEscapes, e.2 ≠ c := by simpa using h
      exact .plain (hne ('\\', '\\') (by decide)).symm (hne ('"', '"') (by decide)).symm ih

/-- A string between double quotes is one lexeme. -/
theorem ofText_stringLiteral (s rest : List Char) :
    Lexeme.ofText (stringLiteral s ++ rest) =
      (Tree.string (s.flatMap escapeChar) s (spells_escaped s)).lexemes ++ Lexeme.ofText rest := by
  rw [stringLiteral, List.append_assoc, List.singleton_append,
    Lexeme.ofText_string (spells_escaped s)]
  rfl

/-! ## How deep a derivation goes -/

mutual

/-- How many brackets and quotes of an expression are inside one another. -/
def Tree.depth : Tree → Nat
  | .atom _ | .string _ _ _ => 0
  | .quote inner => inner.depth + 1
  | .list items => depthOfAll items + 1

/-- The greatest depth in a row of trees. -/
def depthOfAll : List Tree → Nat
  | [] => 0
  | t :: rest => max t.depth (depthOfAll rest)

end

end Grammar

namespace Reader

open Grammar

/-- In an open bracket it goes as deep as the deepest of the expressions. -/
theorem peak_forest {trees : List Tree}
    (htree : ∀ tree ∈ trees, ∀ (ts : List Token) (stack : List Opening) (rest : List Token),
      ts.map Token.lexeme = tree.lexemes →
      peak stack (ts ++ rest) =
        max (stack.length + tree.depth) (peakAfter (deliver tree.value stack) rest))
    {ts : List Token} (hts : ts.map Token.lexeme = lexemes trees) (offset : Nat)
    (items : List Value) (outer : List Opening) (rest : List Token) :
    peak (.bracket offset items :: outer) (ts ++ rest) =
      max (outer.length + 1 + depthOfAll trees)
        (peak (.bracket offset ((values trees).reverse ++ items) :: outer) rest) := by
  induction trees generalizing ts items with
  | nil =>
    rw [lexemes, List.map_eq_nil_iff] at hts
    subst hts
    exact (Nat.max_eq_right (length_le_peak (.bracket offset items :: outer) rest)).symm
  | cons tree trees ih =>
    rw [lexemes] at hts
    obtain ⟨first, others, rfl, hfirst, hothers⟩ := List.map_eq_append_iff.1 hts
    rw [List.append_assoc, htree tree List.mem_cons_self first _ _ hfirst, deliver, peakAfter,
      ih (fun t ht => htree t (List.mem_cons_of_mem _ ht)) hothers, values, List.reverse_cons,
      List.append_assoc, List.singleton_append, depthOfAll, List.length_cons]
    omega

/-- **Reading an expression opens as much at once as its derivation is deep**, on top of what is
open already. -/
theorem peak_lexemes (tree : Tree) (ts : List Token) (stack : List Opening) (rest : List Token)
    (hts : ts.map Token.lexeme = tree.lexemes) :
    peak stack (ts ++ rest) =
      max (stack.length + tree.depth) (peakAfter (deliver tree.value stack) rest) := by
  induction tree using Tree.induction_on generalizing ts stack rest with
  | atom text =>
    obtain ⟨t, rfl, ht⟩ := List.map_eq_singleton_iff.1 hts
    rw [List.singleton_append, peak_cons, step_atom ht]
    rfl
  | string body s hs =>
    obtain ⟨t, rfl, ht⟩ := List.map_eq_singleton_iff.1 hts
    rw [List.singleton_append, peak_cons, step_string ht hs]
    rfl
  | quote inner ih =>
    obtain ⟨t, others, rfl, ht, hothers⟩ := List.map_eq_cons_iff.1 hts
    rw [List.cons_append, peak_cons, step_quote ht, peakAfter, ih others _ rest hothers,
      Tree.depth, List.length_cons]
    simp only [deliver, Tree.value]
    omega
  | list items ih =>
    obtain ⟨t, others, rfl, ht, hothers⟩ := List.map_eq_cons_iff.1 hts
    obtain ⟨inside, last, rfl, hinside, hlast⟩ := List.map_eq_append_iff.1 hothers
    obtain ⟨close, rfl, hclose⟩ := List.map_eq_singleton_iff.1 hlast
    rw [List.cons_append, peak_cons, step_openBracket ht, peakAfter, List.append_assoc,
      peak_forest ih hinside, List.singleton_append, peak_cons, step_closeBracket hclose,
      List.append_nil, List.reverse_reverse, Tree.depth, Tree.value, List.length_cons]
    omega

/-- Reading a row of expressions opens as much at once as the deepest of them. -/
theorem peak_of_lexemes {trees : List Tree} {ts : List Token}
    (hts : ts.map Token.lexeme = lexemes trees) : peak [] ts = depthOfAll trees := by
  induction trees generalizing ts with
  | nil =>
    rw [lexemes, List.map_eq_nil_iff] at hts
    subst hts
    rfl
  | cons tree trees ih =>
    rw [lexemes] at hts
    obtain ⟨first, others, rfl, hfirst, hothers⟩ := List.map_eq_append_iff.1 hts
    rw [peak_lexemes tree first [] others hfirst, deliver, peakAfter, ih hothers, depthOfAll,
      List.length_nil, Nat.zero_add]

end Reader

/-! ## Readable values -/

namespace Value

open Grammar Lexeme

/-- Values of which the text can be read: literals, finite numbers, strings, symbols that are read
as symbols, and lists of such values. -/
inductive Readable : Value → Prop
  | nil : Readable nil
  | bool (b : Bool) : Readable (bool b)
  | num {x : Float} (h : Number.IsFinite x) : Readable (num x)
  | str (s : String) : Readable (str s)
  /-- The name is a single token, and this token means the symbol of that name. -/
  | sym {name : String}
      (htoken : Token.row 0 name.toList = [⟨.atom, name.toList, 0⟩])
      (hatom : Reader.atom name.toList = sym name) : Readable (sym name)
  | list {items : List Value} (h : ∀ v ∈ items, Readable v) : Readable (list items)

mutual

/-- The value with the signs of all zeros in it left off. -/
def unsignedZeros : Value → Value
  | num x => num (Number.unsignedZero x)
  | list items => list (unsignedZerosOfAll items)
  | v => v

/-- The values of a list with the signs of all zeros in them left off. -/
def unsignedZerosOfAll : List Value → List Value
  | [] => []
  | v :: rest => unsignedZeros v :: unsignedZerosOfAll rest

end

mutual

/-- The derivation of the text of a value. -/
def derivation : Value → Tree
  | str s => .string (s.toList.flatMap escapeChar) s.toList (spells_escaped s.toList)
  | list items => .list (derivations items)
  | v => .atom (write stringLiteral v)

/-- The derivations of the texts of values. -/
def derivations : List Value → List Tree
  | [] => []
  | v :: rest => derivation v :: derivations rest

end

theorem unsignedZerosOfAll_eq_map (vs : List Value) :
    unsignedZerosOfAll vs = vs.map unsignedZeros := by
  induction vs with
  | nil => rfl
  | cons v vs ih => rw [unsignedZerosOfAll, ih, List.map_cons]

/-! ### Atoms -/

theorem isAtom_nil : IsAtom "nil".toList :=
  ⟨by decide, List.all_eq_true.1 rfl⟩

theorem isAtom_bool (b : Bool) : IsAtom (if b then "true" else "false").toList := by
  cases b
  · exact ⟨by decide, List.all_eq_true.1 rfl⟩
  · exact ⟨by decide, List.all_eq_true.1 rfl⟩

theorem isAtomChar_of_isNumeralChar {c : Char} (h : Number.IsNumeralChar c) :
    Token.isAtomChar c = true := by
  rcases h with hdigit | rfl | rfl | rfl | rfl
  · simp only [Char.isDigit, Bool.and_eq_true, decide_eq_true_eq] at hdigit
    have hlow : 48 ≤ c.toNat := hdigit.1
    have hhigh : c.toNat ≤ 57 := hdigit.2
    have hother : ∀ d : Char, d.toNat < 48 ∨ 57 < d.toNat → c ≠ d := by
      rintro d hd rfl
      omega
    have hblank : Text.isBlank c = false := by
      simp only [Text.isBlank, Bool.or_eq_false_iff, Bool.and_eq_false_iff,
        decide_eq_false_iff_not, beq_eq_false_iff_ne]
      omega
    simp [Token.isAtomChar, hblank, hother]
  all_goals decide

theorem isAtom_display {x : Float} (hx : Number.IsFinite x) : IsAtom (Number.display x) := by
  obtain ⟨hchars, hread⟩ := Number.display_reads_back hx
  refine ⟨fun hnil => ?_, fun c hc => isAtomChar_of_isNumeralChar (hchars c hc)⟩
  rw [hnil] at hread
  cases hread

/-- A finite number is read from its text, but for the sign of zero. -/
theorem atom_display {x : Float} (hx : Number.IsFinite x) :
    Reader.atom (Number.display x) = num (Number.unsignedZero x) := by
  rw [Reader.atom, (Number.display_reads_back hx).2]

/-- The first token of a text is an atom only if the text begins like one. -/
theorem split_eq_atom {c : Char} {rest text after : List Char}
    (h : Token.split c rest = (.atom, text, after)) :
    Token.isAtomChar c = true ∧ text = c :: rest.takeWhile Token.isAtomChar := by
  unfold Token.split at h
  split at h
  · cases h
  next hcomment =>
  split at h
  · cases h
  next hblank =>
  split at h
  · cases h
  next hquote =>
  split at h
  · cases h
  next hopen =>
  split at h
  · cases h
  next hclose =>
  split at h
  · split at h <;> cases h
  next hstring =>
    cases h
    exact ⟨by simp [Token.isAtomChar, hblank, hcomment, hquote, hopen, hclose, hstring], rfl⟩

/-- A text with no token but an atom is one atom. -/
theorem isAtom_of_row {text : List Char} (h : Token.row 0 text = [⟨.atom, text, 0⟩]) :
    IsAtom text := by
  cases text with
  | nil =>
    rw [Token.row] at h
    cases h
  | cons c rest =>
    rw [Token.row_cons] at h
    have hfirst := (List.cons_eq_cons.1 h).1
    have hsplit : Token.split c rest = (.atom, c :: rest, (Token.split c rest).2.2) :=
      Prod.ext (congrArg Token.kind hfirst) (Prod.ext (congrArg Token.text hfirst) rfl)
    obtain ⟨hc, htext⟩ := split_eq_atom hsplit
    have hrest : ∀ d ∈ rest, Token.isAtomChar d = true := by
      rw [List.cons_injective htext]
      exact List.all_eq_true.1 List.all_takeWhile
    exact ⟨List.cons_ne_nil c rest, List.forall_mem_cons.2 ⟨hc, hrest⟩⟩

/-! ### The derivation of a text -/

theorem values_derivations {items : List Value}
    (h : ∀ v ∈ items, v.derivation.value = v.unsignedZeros) :
    values (derivations items) = unsignedZerosOfAll items := by
  induction items with
  | nil => rfl
  | cons v items ih =>
    rw [derivations, values, unsignedZerosOfAll, h v List.mem_cons_self,
      ih fun u hu => h u (List.mem_cons_of_mem _ hu)]

theorem depthOfAll_derivations {items : List Value}
    (h : ∀ v ∈ items, v.derivation.depth = v.nesting) :
    depthOfAll (derivations items) = nestingOfAll items := by
  induction items with
  | nil => rfl
  | cons v items ih =>
    rw [derivations, depthOfAll, nestingOfAll, h v List.mem_cons_self,
      ih fun u hu => h u (List.mem_cons_of_mem _ hu)]

theorem agreeAll_unsignedZeros {items : List Value}
    (h : ∀ v ∈ items, v.unsignedZeros.agrees v = true) :
    agreeAll (unsignedZerosOfAll items) items = true := by
  induction items with
  | nil => rfl
  | cons v items ih =>
    rw [unsignedZerosOfAll, agreeAll, h v List.mem_cons_self,
      ih fun u hu => h u (List.mem_cons_of_mem _ hu)]
    rfl

namespace Readable

theorem value_derivation {v : Value} (hv : v.Readable) : v.derivation.value = v.unsignedZeros := by
  induction hv with
  | nil => rfl
  | bool b => cases b <;> rfl
  | num hx => exact atom_display hx
  | str s => exact congrArg Value.str String.ofList_toList
  | sym htoken hatom => exact hatom
  | list _ ih => rw [derivation, Tree.value, unsignedZeros, values_derivations ih]

theorem depth_derivation {v : Value} (hv : v.Readable) : v.derivation.depth = v.nesting := by
  induction hv with
  | list _ ih => rw [derivation, Tree.depth, nesting, depthOfAll_derivations ih]
  | _ => rfl

/-- Only the signs of zeros are left off, and they make no difference to whether values agree. -/
theorem agrees_unsignedZeros {v : Value} (hv : v.Readable) : v.unsignedZeros.agrees v = true := by
  induction hv with
  | nil => rfl
  | bool b => exact beq_self_eq_true b
  | @num x hx =>
    show (Number.unsignedZero x == x) = true
    unfold Number.unsignedZero
    split
    next hzero => exact Number.zero_beq hzero
    next => exact Number.beq_self hx
  | str s => exact beq_self_eq_true s
  | sym _ _ => exact beq_self_eq_true _
  | list _ ih => exact agreeAll_unsignedZeros ih

/-- The texts of values with a space between each two have the lexemes of their derivations. -/
theorem ofText_join {items : List Value}
    (hitem : ∀ v ∈ items, ∀ rest : List Char, EndsAtom rest →
      Lexeme.ofText (write stringLiteral v ++ rest) = v.derivation.lexemes ++ Lexeme.ofText rest)
    {rest : List Char} (hrest : EndsAtom rest) :
    Lexeme.ofText (Text.join [' '] (writeAll stringLiteral items) ++ rest) =
      lexemes (derivations items) ++ Lexeme.ofText rest := by
  induction items with
  | nil => rfl
  | cons v items ih =>
    have ih := ih fun u hu => hitem u (List.mem_cons_of_mem _ hu)
    have hv := hitem v List.mem_cons_self
    cases items with
    | nil =>
      rw [writeAll, writeAll, Text.join, derivations, derivations, lexemes, lexemes, hv rest hrest,
        List.append_nil]
    | cons u items =>
      have htext : Text.join [' '] (writeAll stringLiteral (v :: u :: items)) ++ rest =
          write stringLiteral v ++
            ' ' :: (Text.join [' '] (writeAll stringLiteral (u :: items)) ++ rest) := by
        rw [writeAll, writeAll, Text.join, List.append_assoc, List.append_assoc,
          List.singleton_append]
        exact List.cons_ne_nil _ _
      have hspace : Token.isAtomChar ' ' = false := by decide
      rw [htext, hv _ (endsAtom_cons hspace _), ofText_space, ih,
        derivations.eq_2 v, lexemes.eq_2 v.derivation, List.append_assoc]

/-- **The lexemes of a value's text are those of its derivation**, before any text that does not
go on with an atom. -/
theorem ofText_write {v : Value} (hv : v.Readable) {rest : List Char}
    (hrest : EndsAtom rest) :
    Lexeme.ofText (write stringLiteral v ++ rest) = v.derivation.lexemes ++ Lexeme.ofText rest := by
  induction hv generalizing rest with
  | nil => exact isAtom_nil.ofText hrest
  | bool b => exact (isAtom_bool b).ofText hrest
  | num hx => exact (isAtom_display hx).ofText hrest
  | str s => exact ofText_stringLiteral s.toList rest
  | sym htoken _ => exact (isAtom_of_row htoken).ofText hrest
  | @list items _ ih =>
    have hclose : EndsAtom (')' :: rest) := endsAtom_cons (by decide) rest
    rw [write_list, List.cons_append, List.cons_append, List.append_assoc, List.singleton_append,
      ofText_openBracket, ofText_join (fun v hv rest hrest => ih v hv hrest) hclose,
      ofText_closeBracket, derivation, Tree.lexemes, List.cons_append, List.append_assoc,
      List.singleton_append]

/-- The lexemes of texts with a space between each two. -/
theorem ofText_texts {vs : List Value} (hvs : ∀ v ∈ vs, v.Readable) :
    Lexeme.ofText (Text.join [' '] (vs.map fun v => v.readable.toList)) =
      lexemes (derivations vs) := by
  have htexts : (vs.map fun v => v.readable.toList) = writeAll stringLiteral vs := by
    rw [writeAll_eq_map]
    exact List.map_congr_left fun v _ => String.toList_ofList
  have hjoin := ofText_join (fun v hv _ hrest => (hvs v hv).ofText_write hrest) endsAtom_nil
  rwa [List.append_nil, ofText_nil, List.append_nil, ← htexts] at hjoin

/-- The lexemes of a text. -/
theorem ofText_readable {v : Value} (hv : v.Readable) :
    Lexeme.ofText v.readable.toList = v.derivation.lexemes := by
  have htext := hv.ofText_write endsAtom_nil
  rw [List.append_nil, ofText_nil, List.append_nil] at htext
  rwa [readable, String.toList_ofList]

theorem parseOne_readable {v : Value} (hv : v.Readable) :
    Reader.parseOne v.readable.toList = .ok (some (v.unsignedZeros, [])) := by
  have hread := Reader.readOne_of_lexemes hv.ofText_readable []
  rw [List.append_nil, hv.value_derivation] at hread
  rw [Reader.parseOne, hread]
  rfl

theorem nestingOfFirst_readable {v : Value} (hv : v.Readable) :
    Reader.nestingOfFirst v.readable.toList = v.nesting := by
  have hread := Reader.readOne_of_lexemes hv.ofText_readable []
  have hpeak := Reader.peak_lexemes v.derivation _ [] [] hv.ofText_readable
  rw [List.append_nil] at hread hpeak
  simp only [Reader.nestingOfFirst, hread, List.length_nil, Nat.sub_zero, List.take_length, hpeak,
    Reader.deliver, Reader.peakAfter, Reader.peak, Nat.zero_add, hv.depth_derivation, Nat.max_zero]

end Readable

/-- **Reading undoes writing.**  A readable value is written wherever there is room for its lists,
and always to the same text; what is read of this text is the value itself and no more, and the
texts of several readable values with a space between each two are read as these values.  Only the
signs of zeros are lost, and the values still agree.  Reading opens as many brackets at once as
there are lists inside one another. -/
theorem reading_undoes_writing :
    (∀ v : Value, v.Readable →
      (∀ limit, v.nesting ≤ limit → v.writeReadable limit = .ok v.readable) ∧
      (∀ limit, limit < v.nesting → v.writeReadable limit = .error .tooDeep) ∧
      Reader.parseOne v.readable.toList = .ok (some (v.unsignedZeros, [])) ∧
      Reader.nestingOfFirst v.readable.toList = v.nesting ∧
      v.unsignedZeros.agrees v = true) ∧
    ∀ vs : List Value, (∀ v ∈ vs, v.Readable) →
      Reader.parseAll (Text.join [' '] (vs.map fun v => v.readable.toList)) =
        .ok (vs.map unsignedZeros) ∧
      Reader.nesting (Text.join [' '] (vs.map fun v => v.readable.toList)) = nestingOfAll vs := by
  refine ⟨fun v hv => ⟨fun _ hnesting => writeReadable_eq_ok_iff.2 ⟨hnesting, rfl⟩,
    fun _ => writeReadable_of_too_deep, hv.parseOne_readable, hv.nestingOfFirst_readable,
    hv.agrees_unsignedZeros⟩, fun vs hvs => ⟨?_, ?_⟩⟩
  · rw [Reader.parseAll_of_lexemes (Readable.ofText_texts hvs).symm,
      values_derivations fun v hv => (hvs v hv).value_derivation, unsignedZerosOfAll_eq_map]
  · rw [Reader.nesting, Reader.peak_of_lexemes (Readable.ofText_texts hvs),
      depthOfAll_derivations fun v hv => (hvs v hv).depth_derivation]

/-- A list and a string are read back, and the negative zero in the list has lost its sign. -/
theorem negative_zero_reads_back :
    (∀ v ∈ [list [sym "f", num (Float.ofBits 0x8000000000000000)], str "\""], v.Readable) ∧
    Reader.parseAll "(f 0) \"\\\"\"".toList =
      .ok [list [sym "f", num (Float.ofBits 0)], str "\""] := by
  have hsym : (sym "f").Readable := by
    refine .sym ?_ rfl
    have hname : "f".toList = ['f'] := rfl
    have hsplit : Token.split 'f' [] = (.atom, ['f'], []) := rfl
    rw [hname, Token.row_cons, hsplit, Token.row]
  have hfinite : Number.IsFinite (Float.ofBits 0x8000000000000000) := by
    unfold Number.IsFinite
    decide +kernel
  have hlist : (list [sym "f", num (Float.ofBits 0x8000000000000000)]).Readable :=
    .list (List.forall_mem_cons.2 ⟨hsym, List.forall_mem_singleton.2 (.num hfinite)⟩)
  have hall : ∀ v ∈ [list [sym "f", num (Float.ofBits 0x8000000000000000)], str "\""],
      v.Readable :=
    List.forall_mem_cons.2 ⟨hlist, List.forall_mem_singleton.2 (.str _)⟩
  have hzero : Number.unsignedZero (Float.ofBits 0x8000000000000000) = Float.ofBits 0 :=
    if_pos (by decide +kernel)
  have htext : Text.join [' '] ([list [sym "f", num (Float.ofBits 0x8000000000000000)],
      str "\""].map fun v => v.readable.toList) = "(f 0) \"\\\"\"".toList := by
    decide +kernel
  obtain ⟨hparse, -⟩ := reading_undoes_writing.2 _ hall
  rw [htext] at hparse
  refine ⟨hall, ?_⟩
  simpa only [List.map_cons, List.map_nil, unsignedZeros, unsignedZerosOfAll, hzero] using hparse

/-! ### Values without a text -/

/-- The empty list, inside so many other lists. -/
def nested : Nat → Value
  | 0 => list []
  | depth + 1 => list [nested depth]

theorem readable_nested (depth : Nat) : (nested depth).Readable := by
  induction depth with
  | zero => exact .list nofun
  | succ depth ih => exact .list (List.forall_mem_singleton.2 ih)

theorem nesting_nested (depth : Nat) : (nested depth).nesting = depth + 1 := by
  induction depth with
  | zero => rfl
  | succ depth ih => rw [nested, nesting, nestingOfAll, nestingOfAll, ih, Nat.max_zero]

/-- A readable value that is nested more deeply than can be written has no text to be read.  Each
list takes two calls at least to be written, so that a stack of a thousand has no room for these. -/
theorem nested_has_no_text :
    (nested 599).Readable ∧ ∀ limit < 600, (nested 599).writeReadable limit = .error .tooDeep := by
  refine ⟨readable_nested 599, fun limit hlimit => writeReadable_of_too_deep ?_⟩
  rwa [nesting_nested]

end Value

end SmallLisp
