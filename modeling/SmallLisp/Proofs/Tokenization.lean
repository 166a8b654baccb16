import SmallLisp.Proofs.ReadBack

/-! # Tokenization

A text has exactly one row of tokens (`Token.tokenization_unique`).  What this row must be is said
without taking the text apart from the left (`Token.IsRow`): no token is empty, the texts of the
tokens put together are the source, each token stands where those before it end, and each is cut as
its kind demands (`Token.IsCut`).  It has the form of its kind; a comment, blanks and an atom are as
long as they can be; a double quote stands alone only if none follows that could close a string.

Which double quote closes a string is told by counting: the quotes inside are escaped, and the one
behind is not (`Token.IsStringBody`), where a character is escaped by a backslash before it that is
not escaped itself (`Token.escapes`).  This is the same as taking characters and pairs off the left,
as the splitting of texts does (`Token.isStringBody_iff_closed`).

A row can be taken up again in front of each of its tokens: the text from there on has the tokens
from there on, with smaller offsets.
-/
namespace SmallLisp

/-- Tokens that go on as long as there are characters for them. -/
def TokenKind.isRun : TokenKind → Bool
  | comment | blank | atom => true
  | quote | openBracket | closeBracket | string | unterminated => false

namespace Token

/-! ## Strings -/

/-- Whether a character is escaped, told from the text before it: a backslash stands directly before
the character, and is not escaped itself. -/
def escapes (before : List Char) : Bool :=
  before.foldl (fun escaped c => c == '\\' && !escaped) false

/-- What stands between the double quotes of a string: those inside are escaped, and the one behind
is not. -/
structure IsStringBody (body : List Char) : Prop where
  inside : ∀ before after, body = before ++ '"' :: after → escapes before = true
  closing : escapes body = false

theorem escapes_cons {c : Char} (hc : c ≠ '\\') (before : List Char) :
    escapes (c :: before) = escapes before := by
  rw [escapes, List.foldl_cons, beq_eq_false_iff_ne.2 hc]
  rfl

theorem escapes_pair (c : Char) (before : List Char) :
    escapes ('\\' :: c :: before) = escapes before := by
  simp [escapes]

theorem isStringBody_cons_iff {c : Char} (hb : c ≠ '\\') (hq : c ≠ '"') {body : List Char} :
    IsStringBody (c :: body) ↔ IsStringBody body := by
  constructor
  · intro h
    refine ⟨fun before after hbody => ?_, (escapes_cons hb body).symm.trans h.closing⟩
    rw [← escapes_cons hb before]
    exact h.inside (c :: before) after (congrArg (c :: ·) hbody)
  · intro h
    refine ⟨fun before after hbody => ?_, (escapes_cons hb body).trans h.closing⟩
    rcases List.cons_eq_append_iff.1 hbody with ⟨rfl, hfirst⟩ | ⟨before, rfl, hrest⟩
    · exact absurd (List.cons_eq_cons.1 hfirst).1.symm hq
    · rw [escapes_cons hb]
      exact h.inside before after hrest

theorem isStringBody_pair_iff (c : Char) {body : List Char} :
    IsStringBody ('\\' :: c :: body) ↔ IsStringBody body := by
  constructor
  · intro h
    refine ⟨fun before after hbody => ?_, (escapes_pair c body).symm.trans h.closing⟩
    rw [← escapes_pair c before]
    exact h.inside ('\\' :: c :: before) after (congrArg ('\\' :: c :: ·) hbody)
  · intro h
    refine ⟨fun before after hbody => ?_, (escapes_pair c body).trans h.closing⟩
    rcases List.cons_eq_append_iff.1 hbody with ⟨rfl, hfirst⟩ | ⟨behind, rfl, hpair⟩
    · exact absurd (List.cons_eq_cons.1 hfirst).1 (by decide)
    rcases List.cons_eq_append_iff.1 hpair with ⟨rfl, -⟩ | ⟨behind, rfl, hrest⟩
    · rfl
    · rw [escapes_pair]
      exact h.inside behind after hrest

/-- **The quotes inside are escaped and the one behind is not, if and only if the text is made of
characters other than these two and of pairs with a backslash.** -/
theorem isStringBody_iff_closed {body : List Char} : IsStringBody body ↔ Reader.Closed body := by
  constructor
  · intro h
    fun_induction closeString body with
    | case1 => exact .nil
    | case2 rest => exact absurd (h.inside [] rest rfl) (by decide)
    | case3 => exact absurd h.closing (by decide)
    | case4 c rest ih => exact .pair c (ih ((isStringBody_pair_iff c).1 h))
    | case5 c rest hq hlast hpair ih =>
      have hb : c ≠ '\\' := by
        rintro rfl
        cases rest with
        | nil => exact hlast rfl rfl
        | cons d rest => exact hpair d rest rfl rfl
      exact .plain hb hq (ih ((isStringBody_cons_iff hb hq).1 h))
  · intro h
    induction h with
    | nil => exact ⟨fun before after h => absurd h (by simp), rfl⟩
    | plain hb hq _ ih => exact (isStringBody_cons_iff hb hq).2 ih
    | pair c _ ih => exact (isStringBody_pair_iff c).2 ih

/-! ## How a token is cut -/

/-- What the text of a token of a kind looks like. -/
def HasForm : TokenKind → List Char → Prop
  | .comment, text => ∃ body, text = ';' :: body ∧ '\n' ∉ body
  | .blank, text => text ≠ [] ∧ ∀ c ∈ text, Text.isBlank c = true
  | .quote, text => text = ['\'']
  | .openBracket, text => text = ['(']
  | .closeBracket, text => text = [')']
  | .string, text => ∃ body, text = '"' :: body ++ ['"'] ∧ IsStringBody body
  | .unterminated, text => text = ['"']
  | .atom, text => text ≠ [] ∧ ∀ c ∈ text, isAtomChar c = true

/-- What a token of a kind takes from the start of a text, of which the rest is left. -/
structure IsCut (kind : TokenKind) (text rest : List Char) : Prop where
  form : HasForm kind text
  /-- A run takes all that it can. -/
  longest : kind.isRun = true → ∀ more, more ≠ [] → more <+: rest → ¬ HasForm kind (text ++ more)
  /-- A double quote is left alone only if no other can close a string. -/
  unclosed : kind = .unterminated → ∀ body after, rest = body ++ '"' :: after → ¬ IsStringBody body

variable {kind : TokenKind} {text rest after : List Char} {c d : Char}

/-- A run is longer by each character with which it goes on. -/
theorem hasForm_concat (hform : HasForm kind text) (hrun : kind.isRun = true)
    (hd : kind.goesOn d = true) : HasForm kind (text ++ [d]) := by
  cases kind with
  | comment =>
    obtain ⟨body, rfl, hbody⟩ := hform
    have hne : '\n' ≠ d := by
      rintro rfl
      exact absurd hd (by decide)
    exact ⟨body ++ [d], rfl, by simp [hbody, hne]⟩
  | blank | atom =>
    refine ⟨by simp, fun c hc => ?_⟩
    rcases List.mem_append.1 hc with hc | hc
    · exact hform.2 c hc
    · exact List.mem_singleton.1 hc ▸ hd
  | _ => cases hrun

/-- A run goes on with every character that it has behind its first. -/
theorem goesOn_of_hasForm {more : List Char} (hrun : kind.isRun = true) (htext : text ≠ [])
    (hform : HasForm kind (text ++ d :: more)) : kind.goesOn d = true := by
  have hd : d ∈ text ++ d :: more := by simp
  cases kind with
  | comment =>
    obtain ⟨body, hbody, hnewline⟩ := hform
    obtain ⟨first, text, rfl⟩ := List.exists_cons_of_ne_nil htext
    obtain ⟨-, rfl⟩ := List.cons_eq_cons.1 hbody
    have hne : d ≠ '\n' := by
      rintro rfl
      simp at hnewline
    simpa [TokenKind.goesOn] using hne
  | blank | atom => exact hform.2 d hd
  | _ => cases hrun

/-- Behind a run stands nothing with which it would go on. -/
theorem IsCut.ends (h : IsCut kind text rest) (hrun : kind.isRun = true) :
    ∀ d ∈ rest.head?, kind.goesOn d = false := by
  intro d hd
  by_contra hgoes
  obtain ⟨more, rfl⟩ : ∃ more, rest = d :: more := List.head?_eq_some_iff.1 hd
  have hlonger := hasForm_concat h.form hrun (by simpa using hgoes)
  exact h.longest hrun [d] (by simp) ⟨more, rfl⟩ hlonger

/-- A run is as long as it can be if nothing stands behind it with which it would go on. -/
theorem IsCut.of_ends (hform : HasForm kind text) (htext : text ≠ [])
    (hends : ∀ d ∈ rest.head?, kind.goesOn d = false) (hkind : kind ≠ .unterminated) :
    IsCut kind text rest where
  form := hform
  longest := by
    intro hrun more hmore hprefix hlonger
    obtain ⟨d, more, rfl⟩ := List.exists_cons_of_ne_nil hmore
    obtain ⟨left, rfl⟩ := hprefix
    have hgoes := goesOn_of_hasForm hrun htext hlonger
    rw [hends d rfl] at hgoes
    cases hgoes
  unclosed h := absurd h hkind

/-- What is dropped from a run begins with nothing that belongs to the run. -/
theorem head?_dropWhile {p : Char → Bool} {s : List Char} :
    ∀ d ∈ (s.dropWhile p).head?, p d = false := by
  intro d hd
  have hnot := List.head?_dropWhile_not p s
  rw [hd] at hnot
  simpa using hnot

/-- **The token that a text starts with is cut as its kind demands.** -/
theorem isCut_split (c : Char) (rest : List Char) :
    IsCut (split c rest).1 (split c rest).2.1 (split c rest).2.2 := by
  unfold split
  split
  next hc =>
    subst hc
    refine .of_ends ⟨_, rfl, fun hmem => ?_⟩ (by simp) head?_dropWhile (by simp)
    simpa using List.mem_takeWhile_imp hmem
  next hcomment =>
  split
  next hblank =>
    refine .of_ends ⟨by simp, List.forall_mem_cons.2 ⟨hblank, fun d hd => ?_⟩⟩ (by simp)
      head?_dropWhile (by simp)
    exact List.mem_takeWhile_imp hd
  next hblank =>
  split
  next hc => exact .of_ends (congrArg (fun c => [c]) hc) (by simp) (fun _ _ => rfl) (by simp)
  next hquote =>
  split
  next hc => exact .of_ends (congrArg (fun c => [c]) hc) (by simp) (fun _ _ => rfl) (by simp)
  next hopen =>
  split
  next hc => exact .of_ends (congrArg (fun c => [c]) hc) (by simp) (fun _ _ => rfl) (by simp)
  next hclose =>
  split
  next hc =>
    subst hc
    split
    next body after hstring =>
      obtain ⟨inside, rfl, hclosed⟩ := Reader.closed_of_closeString hstring
      have hform : HasForm .string ('"' :: (inside ++ ['"'])) :=
        ⟨inside, rfl, isStringBody_iff_closed.2 hclosed⟩
      exact .of_ends hform (by simp) (fun _ _ => rfl) (by simp)
    next hnone =>
      refine ⟨rfl, fun hrun => (by cases hrun), fun _ body after hrest hbody => ?_⟩
      subst hrest
      rw [Reader.closeString_of_closed (isStringBody_iff_closed.1 hbody)] at hnone
      cases hnone
  next hstring =>
    have hatom : isAtomChar c = true := by
      simp [isAtomChar, hblank, hcomment, hquote, hopen, hclose, hstring]
    refine .of_ends ⟨by simp, List.forall_mem_cons.2 ⟨hatom, fun d hd => ?_⟩⟩ (by simp)
      head?_dropWhile (by simp)
    exact List.mem_takeWhile_imp hd

/-- **There is only one way to cut the first token of a text.** -/
theorem split_of_isCut (h : IsCut kind text after) (hjoin : text ++ after = c :: rest) :
    split c rest = (kind, text, after) := by
  have hform := h.form
  cases kind with
  | comment =>
    obtain ⟨body, rfl, hbody⟩ := hform
    rw [List.cons_append] at hjoin
    obtain ⟨rfl, rfl⟩ := List.cons_eq_cons.1 hjoin
    have hrun : ∀ d ∈ body, (d != '\n') = true := by
      intro d hd
      have hne : d ≠ '\n' := fun heq => hbody (heq ▸ hd)
      simpa using hne
    obtain ⟨htake, hdrop⟩ := span_of_ends hrun (h.ends rfl)
    rw [split, if_pos rfl, htake, hdrop]
  | blank =>
    obtain ⟨first, run, rfl⟩ := List.exists_cons_of_ne_nil hform.1
    rw [List.cons_append] at hjoin
    obtain ⟨rfl, rfl⟩ := List.cons_eq_cons.1 hjoin
    obtain ⟨hfirst, hrun⟩ := List.forall_mem_cons.1 hform.2
    have hcomment : first ≠ ';' := by
      rintro rfl
      exact absurd hfirst (by decide)
    obtain ⟨htake, hdrop⟩ := span_of_ends hrun (h.ends rfl)
    rw [split, if_neg hcomment, if_pos hfirst, htake, hdrop]
  | quote | openBracket | closeBracket =>
    subst hform
    obtain ⟨rfl, rfl⟩ := List.cons_eq_cons.1 hjoin
    rfl
  | string =>
    obtain ⟨body, rfl, hbody⟩ := hform
    rw [List.cons_append, List.cons_append, List.append_assoc] at hjoin
    obtain ⟨rfl, rfl⟩ := List.cons_eq_cons.1 hjoin
    exact Reader.split_string (isStringBody_iff_closed.1 hbody) after
  | unterminated =>
    subst hform
    rw [List.singleton_append] at hjoin
    obtain ⟨rfl, rfl⟩ := List.cons_eq_cons.1 hjoin
    have hnone : closeString after = none := by
      rcases hclose : closeString after with _ | ⟨body, left⟩
      · rfl
      · -- what closes a string begins with what may stand inside one
        obtain ⟨inside, rfl, hclosed⟩ := Reader.closed_of_closeString hclose
        have hafter := closeString_append hclose
        rw [List.append_assoc] at hafter
        exact absurd (isStringBody_iff_closed.2 hclosed) (h.unclosed rfl inside left hafter.symm)
    rw [Reader.split_doubleQuote, hnone]
  | atom =>
    obtain ⟨first, run, rfl⟩ := List.exists_cons_of_ne_nil hform.1
    rw [List.cons_append] at hjoin
    obtain ⟨rfl, rfl⟩ := List.cons_eq_cons.1 hjoin
    exact Lexeme.IsAtom.split ⟨hform.1, hform.2⟩ (h.ends rfl)

/-! ## Rows -/

/-- What the row of tokens of a text is that has so many characters before it. -/
structure IsRow (offset : Nat) (s : List Char) (ts : List Token) : Prop where
  nonempty : ∀ t ∈ ts, t.text ≠ []
  joined : ts.flatMap Token.text = s
  placed : ∀ before t after, ts = before ++ t :: after →
    t.offset = offset + (before.flatMap Token.text).length
  cut : ∀ before t after, ts = before ++ t :: after →
    IsCut t.kind t.text (after.flatMap Token.text)

theorem isRow_nil (offset : Nat) : IsRow offset [] [] where
  nonempty := nofun
  joined := rfl
  placed before t after h := absurd h (by simp)
  cut before t after h := absurd h (by simp)

/-- A token that is cut from a text goes before the tokens of the rest. -/
theorem IsRow.cons {offset : Nat} {ts : List Token} (htext : text ≠ [])
    (hcut : IsCut kind text rest) (h : IsRow (offset + text.length) rest ts) :
    IsRow offset (text ++ rest) (⟨kind, text, offset⟩ :: ts) where
  nonempty := List.forall_mem_cons.2 ⟨htext, h.nonempty⟩
  joined := by rw [List.flatMap_cons, h.joined]
  placed before t after heq := by
    rcases List.cons_eq_append_iff.1 heq with ⟨rfl, hfirst⟩ | ⟨behind, rfl, hrest⟩
    · obtain ⟨rfl, rfl⟩ := List.cons_eq_cons.1 hfirst
      rfl
    · rw [h.placed behind t after hrest, List.flatMap_cons, List.length_append, Nat.add_assoc]
  cut before t after heq := by
    rcases List.cons_eq_append_iff.1 heq with ⟨rfl, hfirst⟩ | ⟨behind, rfl, hrest⟩
    · obtain ⟨rfl, rfl⟩ := List.cons_eq_cons.1 hfirst
      rw [h.joined]
      exact hcut
    · exact h.cut behind t after hrest

theorem IsRow.tail {offset : Nat} {s : List Char} {t : Token} {ts : List Token}
    (h : IsRow offset s (t :: ts)) :
    IsRow (offset + t.text.length) (ts.flatMap Token.text) ts where
  nonempty := (List.forall_mem_cons.1 h.nonempty).2
  joined := rfl
  placed before u after heq := by
    rw [h.placed (t :: before) u after (congrArg (t :: ·) heq), List.flatMap_cons,
      List.length_append, Nat.add_assoc]
  cut before u after heq := h.cut (t :: before) u after (congrArg (t :: ·) heq)

/-- The tokens of a text, read one after the other, are such a row. -/
theorem isRow_row (offset : Nat) (s : List Char) : IsRow offset s (row offset s) := by
  fun_induction row offset s with
  | case1 offset => exact isRow_nil offset
  | case2 offset c rest first ih =>
    have hrow := IsRow.cons (split_text_ne_nil c rest) (isCut_split c rest) ih
    rwa [split_append] at hrow

/-- There is no other such row. -/
theorem IsRow.eq_row {offset : Nat} {s : List Char} {ts : List Token} (h : IsRow offset s ts) :
    ts = row offset s := by
  induction ts generalizing offset s with
  | nil =>
    have hs : [] = s := h.joined
    rw [← hs, row]
  | cons t ts ih =>
    obtain ⟨c, more, htext⟩ := List.exists_cons_of_ne_nil (h.nonempty t List.mem_cons_self)
    have hs : c :: (more ++ ts.flatMap Token.text) = s := by
      rw [← h.joined, List.flatMap_cons, htext, List.cons_append]
    have hsplit : split c (more ++ ts.flatMap Token.text) =
        (t.kind, t.text, ts.flatMap Token.text) := by
      refine split_of_isCut (h.cut [] t ts rfl) ?_
      rw [htext, List.cons_append]
    have hoffset : t.offset = offset := h.placed [] t ts rfl
    rw [← hs, row_cons, hsplit, ← ih h.tail, ← hoffset]

/-! ## Taking up a row -/

/-- The same token with so many fewer characters before it. -/
def unshift (n : Nat) (t : Token) : Token := ⟨t.kind, t.text, t.offset - n⟩

theorem unshift_shift (n : Nat) (t : Token) : unshift n (shift n t) = t := by
  rw [unshift, shift, Nat.add_sub_cancel_left]

/-- A row is what comes before a token and the row of the text from the token on. -/
theorem exists_row_of_mem {offset : Nat} {s : List Char} {t : Token} (h : t ∈ row offset s) :
    ∃ before u earlier, s = before ++ u ∧ t.offset = offset + before.length ∧
      row offset s = earlier ++ row t.offset u ∧ ∀ e ∈ earlier, e.offset < t.offset := by
  fun_induction row offset s with
  | case1 => cases h
  | case2 offset c rest first ih =>
    rcases List.mem_cons.1 h with rfl | h
    · refine ⟨[], c :: rest, [], rfl, rfl, ?_, List.forall_mem_nil _⟩
      rw [List.nil_append, row_cons]
    · obtain ⟨before, u, earlier, hrest, hoffset, hrow, hearlier⟩ := ih h
      have hpositive : 0 < first.2.1.length := List.length_pos_iff.2 (split_text_ne_nil c rest)
      refine ⟨first.2.1 ++ before, u, ⟨first.1, first.2.1, offset⟩ :: earlier, ?_, ?_, ?_,
        List.forall_mem_cons.2 ⟨?_, hearlier⟩⟩
      · rw [List.append_assoc, ← hrest]
        exact (split_append c rest).symm
      · rw [hoffset, List.length_append, Nat.add_assoc]
      · rw [hrow, List.cons_append]
      · show offset < t.offset
        omega

/-- **The text from the place of a token on has the tokens from there on**, at the places that they
have in it. -/
theorem row_drop {s : List Char} {t : Token} (h : t ∈ row 0 s) :
    row 0 (s.drop t.offset) =
      ((row 0 s).filter fun u => t.offset ≤ u.offset).map (unshift t.offset) := by
  obtain ⟨before, u, earlier, rfl, hoffset, hrow, hearlier⟩ := exists_row_of_mem h
  have hbefore : (earlier.filter fun e => t.offset ≤ e.offset) = [] := by
    refine List.filter_eq_nil_iff.2 fun e he => ?_
    have hlt := hearlier e he
    simp only [decide_eq_true_eq]
    omega
  have hbehind : ((row t.offset u).filter fun e => t.offset ≤ e.offset) = row t.offset u := by
    refine List.filter_eq_self.2 fun e he => ?_
    simpa using le_offset_of_mem_row he
  have hback : (row t.offset u).map (unshift t.offset) = row 0 u := by
    have hshift : row t.offset u = (row 0 u).map (shift t.offset) := row_shift t.offset 0 u
    rw [hshift, List.map_map]
    exact List.map_id'' (unshift_shift t.offset) _
  rw [hrow, List.filter_append, hbefore, hbehind, List.nil_append, hback, hoffset, Nat.zero_add,
    List.drop_left]

theorem meaningful_drop {s : List Char} {t : Token} (h : t ∈ row 0 s) :
    meaningful (s.drop t.offset) =
      ((meaningful s).filter fun u => t.offset ≤ u.offset).map (unshift t.offset) := by
  rw [meaningful, meaningful, row_drop h, List.filter_map, List.filter_filter, List.filter_filter]
  congr 1
  refine List.filter_congr fun u _ => ?_
  exact Bool.and_comm _ _

/-- **A text has one row of tokens.**  The row that is read is the only one of which the tokens are
not empty, put together are the text, stand where those before them end, and are cut as their kinds
demand; without comments and blanks it is what is read where only meaningful tokens are wanted.
From the place of each of its tokens on, the text has the tokens from there on. -/
theorem tokenization_unique (s : List Char) :
    (∀ ts, IsRow 0 s ts ↔ ts = row 0 s) ∧
    (∀ ts, IsRow 0 s ts → meaningful s = ts.filter fun t => !t.kind.isTrivia) ∧
    ∀ t ∈ row 0 s,
      row 0 (s.drop t.offset) =
        ((row 0 s).filter fun u => t.offset ≤ u.offset).map (unshift t.offset) ∧
      meaningful (s.drop t.offset) =
        ((meaningful s).filter fun u => t.offset ≤ u.offset).map (unshift t.offset) := by
  refine ⟨fun ts => ⟨fun h => h.eq_row, ?_⟩, fun ts h => ?_, fun t ht => ?_⟩
  · rintro rfl
    exact isRow_row 0 s
  · rw [h.eq_row, meaningful]
  · exact ⟨row_drop ht, meaningful_drop ht⟩

/-- A double quote in a comment closes nothing, and neither does an escaped one, so that both of the
others stand alone.  Reading can be taken up at the first of them. -/
theorem tokenization_of_open_string :
    let s := ";\"\n\"\\\"".toList
    let ts : List Token := [⟨.comment, [';', '"'], 0⟩, ⟨.blank, ['\n'], 2⟩,
      ⟨.unterminated, ['"'], 3⟩, ⟨.atom, ['\\'], 4⟩, ⟨.unterminated, ['"'], 5⟩]
    IsRow 0 s ts ∧ ⟨.unterminated, ['"'], 3⟩ ∈ row 0 s ∧
      row 0 (s.drop 3) =
        [⟨.unterminated, ['"'], 0⟩, ⟨.atom, ['\\'], 1⟩, ⟨.unterminated, ['"'], 2⟩] := by
  intro s ts
  have hrow : ts = row 0 s := by decide +kernel
  have hmem : ⟨.unterminated, ['"'], 3⟩ ∈ row 0 s := by
    rw [← hrow]
    decide
  obtain ⟨hunique, -, hresume⟩ := tokenization_unique s
  refine ⟨(hunique ts).2 hrow, hmem, ?_⟩
  rw [(hresume _ hmem).1, ← hrow]
  rfl

end Token

end SmallLisp
