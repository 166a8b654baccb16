import Mathlib.Data.List.TakeWhile
import SmallLisp.Proofs.Grammar

/-! # Where tokens end

What has been read of a text stays as it was read when the text goes on.  Only the last token is in
doubt: an atom, a comment or blanks may get longer (`TokenKind.goesOn`), and a double quote that
opens no string may open one after all.  So a text can be cut in front of each of its meaningful
tokens: the tokens before are the same whatever follows (`Reader.meaningfulFrom_cut`), unless one
of them is such a double quote, and the tokens behind are those of the rest read by itself, at the
offsets that they have there (`Reader.meaningfulFrom_shift`).  Where no string is left open, a
newline behind the text ends its last token, whatever it is (`Reader.meaningfulFrom_newline`).
-/
namespace SmallLisp

/-- Whether a token of a kind gets longer if such a character stands behind it. -/
def TokenKind.goesOn : TokenKind → Char → Bool
  | comment, c => c != '\n'
  | blank, c => Text.isBlank c
  | atom, c => Token.isAtomChar c
  | quote, _ | openBracket, _ | closeBracket, _ | string, _ | unterminated, _ => false

namespace Token

/-- The same token with so many more characters before it. -/
def shift (n : Nat) (t : Token) : Token := ⟨t.kind, t.text, n + t.offset⟩

/-- The characters up to the first that fails a test are the same when the text goes on, if there
is such a character in the text or the text goes on with one. -/
theorem span_append {p : Char → Bool} {s u : List Char}
    (h : s.dropWhile p ≠ [] ∨ ∀ c ∈ u.head?, p c = false) :
    (s ++ u).takeWhile p = s.takeWhile p ∧ (s ++ u).dropWhile p = s.dropWhile p ++ u := by
  induction s with
  | nil =>
    cases u with
    | nil => exact ⟨rfl, rfl⟩
    | cons c u =>
      have hc : p c = false := h.resolve_left (fun h => h rfl) c rfl
      simp [List.takeWhile, List.dropWhile, hc]
  | cons c s ih =>
    by_cases hc : p c = true
    · simp only [List.cons_append, List.takeWhile_cons_of_pos hc, List.dropWhile_cons_of_pos hc]
        at h ⊢
      obtain ⟨htake, hdrop⟩ := ih h
      exact ⟨congrArg _ htake, hdrop⟩
    · simp [List.takeWhile_cons_of_neg hc, List.dropWhile_cons_of_neg hc]

/-- A run is all that belongs to it, and what is left is what stands behind it. -/
theorem span_of_ends {p : Char → Bool} {run rest : List Char} (hrun : ∀ d ∈ run, p d = true)
    (hends : ∀ d ∈ rest.head?, p d = false) :
    (run ++ rest).takeWhile p = run ∧ (run ++ rest).dropWhile p = rest := by
  obtain ⟨htake, hdrop⟩ := span_append (s := run) (.inr hends)
  rw [List.takeWhile_eq_self_iff.2 hrun] at htake
  rw [List.dropWhile_eq_nil_iff.2 hrun, List.nil_append] at hdrop
  exact ⟨htake, hdrop⟩

/-- A string that is closed is closed at the same place when the text goes on. -/
theorem closeString_append_right {s body after : List Char}
    (h : closeString s = some (body, after)) (u : List Char) :
    closeString (s ++ u) = some (body, after ++ u) := by
  fun_induction closeString s generalizing body after with
  | case1 => cases h
  | case2 rest =>
    cases h
    rfl
  | case3 => cases h
  | case4 c rest ih =>
    obtain ⟨⟨b, a⟩, hp, he⟩ := Option.map_eq_some_iff.1 h
    cases he
    rw [List.cons_append, List.cons_append, closeString, ih hp]
    rfl
  | case5 c rest hq hlast hpair ih =>
    obtain ⟨⟨b, a⟩, hp, he⟩ := Option.map_eq_some_iff.1 h
    cases he
    have hc : c ≠ '\\' := by
      rintro rfl
      cases rest with
      | nil => exact hlast rfl rfl
      | cons d rest => exact hpair d rest rfl rfl
    rw [List.cons_append, Reader.closeString_plain hc hq, ih hp]
    rfl

/-- **A token stays as it is when the text goes on**, if something else stands behind it already or
the text goes on in a way that does not make it longer. -/
theorem split_append_right {c : Char} {s : List Char} {kind : TokenKind} {text after : List Char}
    (hsplit : split c s = (kind, text, after)) (hkind : kind ≠ .unterminated) {u : List Char}
    (h : after ≠ [] ∨ ∀ d ∈ u.head?, kind.goesOn d = false) :
    split c (s ++ u) = (kind, text, after ++ u) := by
  unfold split at hsplit ⊢
  split at hsplit
  next hc =>
    cases hsplit
    obtain ⟨htake, hdrop⟩ := span_append h
    rw [if_pos hc, htake, hdrop]
  next hcomment =>
  rw [if_neg hcomment]
  split at hsplit
  next hc =>
    cases hsplit
    obtain ⟨htake, hdrop⟩ := span_append h
    rw [if_pos hc, htake, hdrop]
  next hblank =>
  rw [if_neg hblank]
  split at hsplit
  next hc =>
    cases hsplit
    rw [if_pos hc]
  next hquote =>
  rw [if_neg hquote]
  split at hsplit
  next hc =>
    cases hsplit
    rw [if_pos hc]
  next hopen =>
  rw [if_neg hopen]
  split at hsplit
  next hc =>
    cases hsplit
    rw [if_pos hc]
  next hclose =>
  rw [if_neg hclose]
  split at hsplit
  next hc =>
    rw [if_pos hc]
    split at hsplit
    next body rest hstring =>
      cases hsplit
      rw [closeString_append_right hstring]
    next =>
      cases hsplit
      exact absurd rfl hkind
  next hstring =>
    cases hsplit
    obtain ⟨htake, hdrop⟩ := span_append h
    rw [if_neg hstring, htake, hdrop]

theorem row_shift (n offset : Nat) (s : List Char) :
    row (n + offset) s = (row offset s).map (shift n) := by
  fun_induction row offset s with
  | case1 => rw [row, List.map_nil]
  | case2 offset c rest first ih =>
    rw [row_cons, Nat.add_assoc, ih]
    rfl

end Token

namespace Reader
open Token

/-! ## The next meaningful token -/

theorem nextToken_nil (offset : Nat) : nextToken offset [] = none := by
  rw [nextToken]

theorem nextToken_cons (offset : Nat) (c : Char) (rest : List Char) :
    nextToken offset (c :: rest) =
      if (split c rest).1.isTrivia then
        nextToken (offset + (split c rest).2.1.length) (split c rest).2.2
      else some (⟨(split c rest).1, (split c rest).2.1, offset⟩, (split c rest).2.2) := by
  rw [nextToken]

/-- The next meaningful token starts somewhere in the text, and what is before it is not in doubt
when the text goes on. -/
theorem exists_of_nextToken {offset : Nat} {s after : List Char} {t : Token}
    (h : nextToken offset s = some (t, after)) :
    ∃ x c rest, s = x ++ c :: rest ∧ t.offset = offset + x.length ∧
      split c rest = (t.kind, t.text, after) ∧ t.kind.isTrivia = false ∧
      ∀ u, nextToken offset (s ++ u) = nextToken t.offset (c :: rest ++ u) := by
  fun_induction nextToken offset s with
  | case1 => cases h
  | case2 offset c rest first htrivia ih =>
    obtain ⟨x, d, more, hrest, hoffset, hsplit, hmeaning, hnext⟩ := ih h
    refine ⟨first.2.1 ++ x, d, more, ?_, ?_, hsplit, hmeaning, fun u => ?_⟩
    · rw [List.append_assoc, ← hrest]
      exact (split_append c rest).symm
    · rw [hoffset, List.length_append, Nat.add_assoc]
    · have hkind : first.1 ≠ .unterminated := by
        intro hk
        rw [hk] at htrivia
        cases htrivia
      have hne : first.2.2 ≠ [] := by
        rw [hrest]
        exact List.append_ne_nil_of_right_ne_nil _ (List.cons_ne_nil _ _)
      have hstable : split c (rest ++ u) = (first.1, first.2.1, first.2.2 ++ u) :=
        split_append_right rfl hkind (.inl hne)
      rw [List.cons_append, nextToken_cons, hstable, if_pos htrivia]
      exact hnext u
  | case3 offset c rest first hmeaning =>
    cases h
    exact ⟨[], c, rest, rfl, rfl, rfl, by simpa using hmeaning, fun _ => rfl⟩

/-- The next meaningful token stays as it is when the text goes on, under the same conditions as
any token. -/
theorem nextToken_append_right {offset : Nat} {s after : List Char} {t : Token}
    (h : nextToken offset s = some (t, after)) (hkind : t.kind ≠ .unterminated) {u : List Char}
    (hu : after ≠ [] ∨ ∀ d ∈ u.head?, t.kind.goesOn d = false) :
    nextToken offset (s ++ u) = some (t, after ++ u) := by
  obtain ⟨x, c, rest, -, -, hsplit, hmeaning, hnext⟩ := exists_of_nextToken h
  rw [hnext, List.cons_append, nextToken_cons, split_append_right hsplit hkind hu,
    if_neg (by simpa using hmeaning)]

theorem nextToken_blank {b : Char} (hb : Text.isBlank b = true) (offset : Nat) (u : List Char) :
    nextToken offset (b :: u) = nextToken (offset + 1) u := by
  have hsplit : ∀ (c : Char) (v : List Char), Text.isBlank c = true →
      split c v = (.blank, c :: v.takeWhile Text.isBlank, v.dropWhile Text.isBlank) := by
    intro c v hc
    have hcomment : c ≠ ';' := by
      rintro rfl
      exact absurd hc (by decide)
    rw [split, if_neg hcomment, if_pos hc]
  rw [nextToken_cons, hsplit b u hb]
  simp only [TokenKind.isTrivia, if_true]
  cases u with
  | nil => rfl
  | cons c v =>
    by_cases hc : Text.isBlank c = true
    · rw [nextToken_cons (offset + 1), hsplit c v hc]
      simp only [TokenKind.isTrivia, if_true, List.takeWhile_cons_of_pos hc,
        List.dropWhile_cons_of_pos hc, List.length_cons]
      congr 1
      omega
    · simp [List.takeWhile_cons_of_neg hc, List.dropWhile_cons_of_neg hc]

theorem nextToken_blanks {blanks : List Char} (hb : Text.isAllBlank blanks = true) (offset : Nat)
    (u : List Char) : nextToken offset (blanks ++ u) = nextToken (offset + blanks.length) u := by
  induction blanks generalizing offset with
  | nil => rfl
  | cons b blanks ih =>
    obtain ⟨hfirst, hothers⟩ := List.forall_mem_cons.1 (List.all_eq_true.1 hb)
    rw [List.cons_append, nextToken_blank hfirst, ih (List.all_eq_true.2 hothers),
      List.length_cons, Nat.add_assoc, Nat.add_comm 1]

/-- The first character tells whether a token has a meaning. -/
theorem isTrivia_split (c : Char) (rest : List Char) :
    (split c rest).1.isTrivia = (c == ';' || Text.isBlank c) := by
  unfold split
  split
  next hc => simp [hc, TokenKind.isTrivia]
  next hc =>
    by_cases hblank : Text.isBlank c = true
    · simp [hblank, TokenKind.isTrivia]
    · have hplain : (c == ';' || Text.isBlank c) = false := by simp [hc, hblank]
      rw [hplain, if_neg hblank]
      repeat' split
      all_goals rfl

/-- Where nothing is left behind a token without a meaning that is no comment, there were only
blanks. -/
theorem isAllBlank_of_split {c : Char} {rest : List Char}
    (htrivia : (split c rest).1.isTrivia = true) (hcomment : (split c rest).1 ≠ .comment)
    (hnil : (split c rest).2.2 = []) : Text.isAllBlank (c :: rest) = true := by
  unfold split at htrivia hcomment hnil
  split at hcomment
  · exact absurd rfl hcomment
  next hc =>
    rw [if_neg hc] at hnil htrivia
    by_cases hblank : Text.isBlank c = true
    · rw [if_pos hblank] at hnil
      have hrest : Text.isAllBlank rest = true := Text.trimStart_eq_nil_iff.1 hnil
      exact List.all_eq_true.2 (List.forall_mem_cons.2 ⟨hblank, List.all_eq_true.1 hrest⟩)
    · rw [if_neg hblank] at htrivia
      exfalso
      repeat' split at htrivia
      all_goals cases htrivia

/-- Behind a text without meaningful tokens a newline ends the last token: if these are blanks, it
is one of them. -/
theorem nextToken_newline {offset : Nat} {s : List Char} (h : nextToken offset s = none)
    (u : List Char) :
    nextToken offset (s ++ '\n' :: u) = nextToken (offset + s.length + 1) u := by
  have hnewline : Text.isBlank '\n' = true := by decide
  fun_induction nextToken offset s with
  | case1 offset => exact nextToken_blank hnewline offset u
  | case2 offset c rest first htrivia ih =>
    by_cases hends : first.2.2 ≠ [] ∨ first.1 = .comment
    · have hkind : first.1 ≠ .unterminated := by
        intro hk
        rw [hk] at htrivia
        cases htrivia
      have hstable : split c (rest ++ '\n' :: u) =
          (first.1, first.2.1, first.2.2 ++ '\n' :: u) := by
        refine split_append_right rfl hkind (hends.imp_right fun hk d hd => ?_)
        cases hd
        exact (congrArg (TokenKind.goesOn · '\n') hk).trans rfl
      have hlength : first.2.1.length + first.2.2.length = rest.length + 1 := by
        rw [← List.length_append, split_append, List.length_cons]
      rw [List.cons_append, nextToken_cons, hstable, if_pos htrivia]
      refine (ih h).trans ?_
      congr 1
      simp only [List.length_cons]
      omega
    · obtain ⟨hnil, hcomment⟩ := not_or.1 hends
      have hall := isAllBlank_of_split htrivia hcomment (not_not.1 hnil)
      rw [nextToken_blanks hall, nextToken_blank hnewline]
  | case3 => cases h

/-! ## All meaningful tokens -/

theorem meaningfulFrom_shift (n offset : Nat) (s : List Char) :
    meaningfulFrom (n + offset) s = (meaningfulFrom offset s).map (shift n) := by
  rw [meaningfulFrom, meaningfulFrom, row_shift, List.filter_map]
  rfl

theorem meaningful_eq_meaningfulFrom (s : List Char) : meaningful s = meaningfulFrom 0 s := rfl

theorem meaningfulFrom_nil (offset : Nat) : meaningfulFrom offset [] = [] := by
  rw [meaningfulFrom_eq, nextToken_nil]

theorem meaningfulFrom_blanks {blanks : List Char} (hb : Text.isAllBlank blanks = true)
    (offset : Nat) (u : List Char) :
    meaningfulFrom offset (blanks ++ u) = meaningfulFrom (offset + blanks.length) u := by
  rw [meaningfulFrom_eq, nextToken_blanks hb, ← meaningfulFrom_eq]

/-- **A text can be cut in front of a meaningful token**, if no double quote before it opens a
string without an end: the tokens before the cut are the same whatever follows. -/
theorem meaningfulFrom_cut {offset : Nat} {s : List Char} {before after : List Token} {t : Token}
    (h : meaningfulFrom offset s = before ++ t :: after)
    (hb : ∀ b ∈ before, b.kind ≠ .unterminated) :
    ∃ x c rest, s = x ++ c :: rest ∧ t.offset = offset + x.length ∧
      (split c rest).1 = t.kind ∧ (split c rest).2.1 = t.text ∧ t.kind.isTrivia = false ∧
      after = meaningfulFrom (t.offset + t.text.length) (split c rest).2.2 ∧
      ∀ u, meaningfulFrom offset (s ++ u) = before ++ meaningfulFrom t.offset (c :: rest ++ u) := by
  induction before generalizing offset s with
  | nil =>
    rw [List.nil_append, meaningfulFrom_eq] at h
    rcases hn : nextToken offset s with _ | ⟨first, left⟩
    · rw [hn] at h
      cases h
    · rw [hn] at h
      cases h
      obtain ⟨x, c, rest, hs, hoffset, hsplit, hmeaning, hnext⟩ := exists_of_nextToken hn
      refine ⟨x, c, rest, hs, hoffset, ?_, ?_, hmeaning, ?_, fun u => ?_⟩
      · rw [hsplit]
      · rw [hsplit]
      · rw [hsplit]
      · rw [List.nil_append, meaningfulFrom_eq, hnext, ← meaningfulFrom_eq]
  | cons b before ih =>
    obtain ⟨hfirst, hothers⟩ := List.forall_mem_cons.1 hb
    rw [List.cons_append, meaningfulFrom_eq] at h
    rcases hn : nextToken offset s with _ | ⟨first, left⟩
    · rw [hn] at h
      cases h
    · rw [hn] at h
      obtain ⟨rfl, hleft⟩ := List.cons_eq_cons.1 h
      obtain ⟨x, c, rest, hx, hoffset, hkind, htext, hmeaning, hafter, hcut⟩ := ih hleft hothers
      obtain ⟨y, d, more, hy, hyoffset, hsplit, -, -⟩ := exists_of_nextToken hn
      have hmore : first.text ++ left = d :: more := by
        have := split_append d more
        rwa [hsplit] at this
      have hne : left ≠ [] := by
        rw [hx]
        exact List.append_ne_nil_of_right_ne_nil _ (List.cons_ne_nil _ _)
      refine ⟨y ++ first.text ++ x, c, rest, ?_, ?_, hkind, htext, hmeaning, hafter, fun u => ?_⟩
      · rw [hy, ← hmore, hx]
        simp only [List.append_assoc]
      · rw [hoffset, hyoffset, List.length_append, List.length_append]
        omega
      · rw [meaningfulFrom_eq, nextToken_append_right hn hfirst (.inl hne)]
        exact congrArg _ (hcut u)

/-- **A newline ends the last token**, if no string is left open. -/
theorem meaningfulFrom_newline {offset : Nat} {s : List Char}
    (h : ∀ t ∈ meaningfulFrom offset s, t.kind ≠ .unterminated) (u : List Char) :
    meaningfulFrom offset (s ++ '\n' :: u) =
      meaningfulFrom offset s ++ meaningfulFrom (offset + s.length + 1) u := by
  induction hl : s.length using Nat.strongRecOn generalizing offset s with
  | ind n ih =>
    subst hl
    rw [meaningfulFrom_eq offset s] at h ⊢
    rcases hn : nextToken offset s with _ | ⟨t, after⟩
    · rw [meaningfulFrom_eq, nextToken_newline hn, ← meaningfulFrom_eq, List.nil_append]
    · rw [hn] at h
      obtain ⟨hfirst, hothers⟩ := List.forall_mem_cons.1 h
      obtain ⟨x, c, rest, hs, hoffset, hsplit, hmeaning, -⟩ := exists_of_nextToken hn
      have hends : ∀ d ∈ ('\n' :: u).head?, t.kind.goesOn d = false := by
        intro d hd
        cases hd
        cases hk : t.kind with
        | blank =>
          rw [hk] at hmeaning
          cases hmeaning
        | _ => rfl
      have hlength : t.text.length + after.length = rest.length + 1 := by
        rw [← List.length_append, ← List.length_cons (a := c), ← split_append c rest, hsplit]
      rw [meaningfulFrom_eq, nextToken_append_right hn hfirst (.inr hends)]
      simp only
      rw [ih after.length (nextToken_length hn) hothers rfl, List.cons_append]
      congr 3
      rw [hs, hoffset, List.length_append, List.length_cons]
      omega

end Reader

end SmallLisp
