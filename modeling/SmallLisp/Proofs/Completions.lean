import SmallLisp.Proofs.ReadingProgress

/-! # What more text can mend

A text that cannot be read is either wrong or unfinished, and the error tells which
(`SyntaxError.isIncomplete`).  A wrong text stays wrong, with the same error at the same place,
whatever follows: the token that is refused is a closing bracket or a string, and both stay as
they are when the text goes on (`Reader.parseAll_append_of_wrong`).

An unfinished text can be finished: a string by a double quote, with one more before it if the text
ends in the middle of an escape; a quote by an empty string; and then every open bracket by a
closing one (`Reader.readAll_closers`).  Only a string in which an escape is unknown is beyond help
(`Reader.UnknownEscape`), although it is reported as unfinished.  Finishing a text nests nothing
more deeply, so no limit stands in the way.

`Reader.incomplete_iff_completable` puts this together.
-/
namespace SmallLisp.Reader
open Grammar Token

/-! ## Refused tokens -/

theorem deliver_ne_refused (v : Value) (stack : List Opening) (e : SyntaxError) :
    deliver v stack ≠ .refused e := by
  induction stack generalizing v with
  | nil => nofun
  | cons o outer ih =>
    cases o with
    | quote offset => exact ih v.quoted
    | bracket offset items => nofun

/-- A string of which an escape is unknown is wrong for good. -/
theorem isIncomplete_of_unescape {position : Nat} {body : List Char} {e : SyntaxError}
    (h : unescape position body = .error e) : e.isIncomplete = false := by
  fun_induction unescape position body with
  | case1 => cases h
  | case2 position c rest entry hfind ih =>
    rcases hu : unescape (position + 2) rest with e' | s
    · rw [hu] at h
      cases h
      exact ih hu
    · rw [hu] at h
      cases h
  | case3 position c rest hfind =>
    cases h
    rfl
  | case4 position c rest hplain ih =>
    rcases hu : unescape (position + 1) rest with e' | s
    · rw [hu] at h
      cases h
      exact ih hu
    · rw [hu] at h
      cases h

/-- **Two ways in which a token is refused**: it is a double quote whose string does not end, or it
is a closing bracket or a string and wrong for good. -/
theorem cases_of_step_refused {stack : List Opening} {t : Token} {e : SyntaxError}
    (h : step stack t = .refused e) :
    (t.kind = .unterminated ∧ e = ⟨.unclosedString, t.offset⟩) ∨
      ((t.kind = .closeBracket ∨ t.kind = .string) ∧ e.isIncomplete = false) := by
  unfold step at h
  split at h
  · cases h
  · cases h
  next hkind =>
    refine .inr ⟨.inl hkind, ?_⟩
    split at h
    · exact absurd h (deliver_ne_refused _ _ _)
    · cases h
      rfl
  next hkind =>
    refine .inr ⟨.inr hkind, ?_⟩
    split at h
    · exact absurd h (deliver_ne_refused _ _ _)
    next hu =>
      cases h
      exact isIncomplete_of_unescape hu
  next hkind =>
    cases h
    exact .inl ⟨hkind, rfl⟩
  all_goals exact absurd h (deliver_ne_refused _ _ _)

/-- What stops the reader is a token, which is refused with what is open then. -/
theorem exists_refused {stack : List Opening} {ts : List Token} {e : SyntaxError}
    (h : (progress stack ts).ending = .error e) :
    ∃ before next t after, ts = before ++ t :: after ∧
      (progress stack before).ending = .ok next ∧ step next t = .refused e := by
  induction ts generalizing stack with
  | nil => cases h
  | cons t ts ih =>
    rw [progress] at h
    cases hs : step stack t with
    | refused e' =>
      rw [hs] at h
      cases h
      exact ⟨[], stack, t, ts, rfl, rfl, hs⟩
    | complete v =>
      rw [hs] at h
      obtain ⟨before, next, u, after, rfl, hbefore, hstep⟩ := ih h
      refine ⟨t :: before, next, u, after, rfl, ?_, hstep⟩
      rw [progress, hs]
      exact hbefore
    | continued inside =>
      rw [hs] at h
      obtain ⟨before, next, u, after, rfl, hbefore, hstep⟩ := ih h
      refine ⟨t :: before, next, u, after, rfl, ?_, hstep⟩
      rw [progress, hs]
      exact hbefore

/-- An error comes from a token that is refused or from what is still open. -/
theorem cases_of_outcome {p : Progress} {e : SyntaxError} (h : p.outcome = .error e) :
    p.ending = .error e ∨ ∃ o outer, p.ending = .ok (o :: outer) ∧ e = o.unfinished := by
  obtain ⟨forms, e' | _ | ⟨o, outer⟩⟩ := p
  · cases h
    exact .inl rfl
  · cases h
  · cases h
    exact .inr ⟨o, outer, rfl, rfl⟩

theorem isIncomplete_unfinished (o : Opening) : o.unfinished.isIncomplete = true := by
  cases o <;> rfl

/-! ## Cutting a text -/

/-- A text that is cut in front of one of its tokens: the tokens before leave `stack` open, and from
this token on there is `c :: rest`.  However the text goes on, the tokens before stay. -/
structure Cut (s : List Char) (before : List Token) (stack : List Opening) (t : Token) (c : Char)
    (rest : List Char) : Prop where
  reached : (progress [] before).ending = .ok stack
  text : s.drop t.offset = c :: rest
  kind : (split c rest).1 = t.kind
  token : (split c rest).2.1 = t.text
  meaning : t.kind.isTrivia = false
  tokens : ∀ u, meaningful (s ++ u) = before ++ meaningfulFrom t.offset (c :: rest ++ u)

theorem exists_cut {s : List Char} {before after : List Token} {stack : List Opening} {t : Token}
    (htokens : meaningful s = before ++ t :: after)
    (hreached : (progress [] before).ending = .ok stack) :
    ∃ c rest, Cut s before stack t c rest := by
  obtain ⟨x, c, rest, rfl, hoffset, hkind, htoken, hmeaning, -, hcut⟩ :=
    meaningfulFrom_cut htokens (kind_ne_of_progress hreached)
  rw [Nat.zero_add] at hoffset
  refine ⟨c, rest, hreached, ?_, hkind, htoken, hmeaning, hcut⟩
  rw [hoffset]
  exact List.drop_left

section Cuts
variable {s rest : List Char} {before : List Token} {stack : List Opening} {t : Token} {c : Char}

theorem Cut.parseAll (h : Cut s before stack t c rest) (u : List Char) :
    parseAll (s ++ u) = (readAll stack (meaningfulFrom t.offset (c :: rest ++ u))).map
      ((progress [] before).forms ++ ·) := by
  rw [parseAll_eq_outcome, h.tokens, progress_append, Progress.goOn, h.reached, readAll_eq_outcome]
  exact Progress.outcome_after _ _

theorem Cut.nesting (h : Cut s before stack t c rest) (u : List Char) :
    nesting (s ++ u) =
      max (peak [] before) (peak stack (meaningfulFrom t.offset (c :: rest ++ u))) := by
  rw [Reader.nesting, h.tokens, peak_append, Progress.peakOf, h.reached]

theorem Cut.meaningfulFrom_self (h : Cut s before stack t c rest) :
    ∃ after, meaningfulFrom t.offset (c :: rest) = t :: after := by
  refine ⟨meaningfulFrom (t.offset + t.text.length) (split c rest).2.2, ?_⟩
  rw [meaningfulFrom_eq, nextToken_cons, h.kind, h.token, if_neg (by simp [h.meaning])]

/-- A text is nested as deeply as it is where the reader is stopped. -/
theorem Cut.nesting_of_refused (h : Cut s before stack t c rest) {e : SyntaxError}
    (hstep : step stack t = .refused e) :
    Reader.nesting s = max (peak [] before) stack.length := by
  obtain ⟨after, hfirst⟩ := h.meaningfulFrom_self
  have hself := h.nesting []
  rwa [List.append_nil, List.append_nil, hfirst, peak_cons, hstep, peakAfter, Nat.max_zero]
    at hself

/-- The token behind the cut stays, too, unless it can get longer. -/
theorem Cut.meaningfulFrom_append (h : Cut s before stack t c rest)
    (hkind : t.kind ≠ .unterminated) (hends : ∀ d, t.kind.goesOn d = false) (u : List Char) :
    ∃ after, meaningfulFrom t.offset (c :: rest ++ u) = t :: after := by
  have hsplit : split c (rest ++ u) = (t.kind, t.text, (split c rest).2.2 ++ u) := by
    refine split_append_right ?_ hkind (.inr fun d _ => hends d)
    rw [← h.kind, ← h.token]
  refine ⟨meaningfulFrom (t.offset + t.text.length) ((split c rest).2.2 ++ u), ?_⟩
  rw [meaningfulFrom_eq, List.cons_append, nextToken_cons, hsplit, if_neg (by simp [h.meaning])]

end Cuts

/-! ## Wrong texts -/

/-- **What makes a text wrong is there whatever follows**: the token that is refused, and the tokens
before it. -/
theorem exists_refused_of_wrong {s : List Char} {e : SyntaxError} (h : parseAll s = .error e)
    (hwrong : e.isIncomplete = false) :
    ∃ before stack t, (progress [] before).ending = .ok stack ∧ step stack t = .refused e ∧
      ∀ u, ∃ after, meaningful (s ++ u) = before ++ t :: after := by
  rw [parseAll_eq_outcome] at h
  rcases cases_of_outcome h with hending | ⟨o, outer, -, rfl⟩
  · obtain ⟨before, stack, t, after, htokens, hreached, hstep⟩ := exists_refused hending
    obtain ⟨c, rest, hcut⟩ := exists_cut htokens hreached
    refine ⟨before, stack, t, hreached, hstep, fun u => ?_⟩
    -- a closing bracket or a string is a token for good
    have hstays : ∃ after, meaningfulFrom t.offset (c :: rest ++ u) = t :: after := by
      rcases cases_of_step_refused hstep with ⟨-, rfl⟩ | ⟨hkind | hkind, -⟩
      · cases hwrong
      · exact hcut.meaningfulFrom_append (by rw [hkind]; nofun) (fun d => by rw [hkind]; rfl) u
      · exact hcut.meaningfulFrom_append (by rw [hkind]; nofun) (fun d => by rw [hkind]; rfl) u
    obtain ⟨after, hfirst⟩ := hstays
    exact ⟨after, by rw [hcut.tokens, hfirst]⟩
  · rw [isIncomplete_unfinished] at hwrong
    cases hwrong

/-- A text in which a token is refused is read up to that token. -/
theorem read_of_refused {s : List Char} {before after : List Token} {stack : List Opening}
    {t : Token} {e : SyntaxError} (htokens : meaningful s = before ++ t :: after)
    (hreached : (progress [] before).ending = .ok stack) (hstep : step stack t = .refused e) :
    parseAll s = .error e ∧ nesting s = max (peak [] before) stack.length := by
  have hrefused : progress stack (t :: after) = ⟨[], .error e⟩ := by rw [progress, hstep]
  have hpeak : peak stack (t :: after) = stack.length := by rw [peak, hstep]
  constructor
  · rw [parseAll_eq_outcome, htokens, progress_append, Progress.goOn, hreached]
    simp only [hrefused]
    rfl
  · rw [nesting, htokens, peak_append, Progress.peakOf, hreached]
    simp only [hpeak]

/-- **A wrong text stays wrong**, with the same error at the same place. -/
theorem parseAll_append_of_wrong {s : List Char} {e : SyntaxError} (h : parseAll s = .error e)
    (hwrong : e.isIncomplete = false) (u : List Char) :
    parseAll (s ++ u) = .error e ∧ nesting (s ++ u) = nesting s := by
  obtain ⟨before, stack, t, hreached, hstep, htokens⟩ := exists_refused_of_wrong h hwrong
  obtain ⟨after, hself⟩ := htokens []
  obtain ⟨after', hlonger⟩ := htokens u
  rw [List.append_nil] at hself
  rw [(read_of_refused hself hreached hstep).2]
  exact read_of_refused hlonger hreached hstep

/-! ## Unfinished brackets and quotes -/

/-- How many brackets are open. -/
def brackets : List Opening → Nat
  | [] => 0
  | .quote _ :: outer => brackets outer
  | .bracket _ _ :: outer => brackets outer + 1

/-- So many closing brackets. -/
def closers (n : Nat) : List Char := List.replicate n ')'

theorem lexemes_closers (offset n : Nat) :
    (meaningfulFrom offset (closers n)).map Token.lexeme = List.replicate n .closeBracket := by
  induction n generalizing offset with
  | zero =>
    rw [closers, List.replicate_zero, meaningfulFrom_nil]
    rfl
  | succ n ih =>
    rw [closers, List.replicate_succ, meaningfulFrom_eq, nextToken_cons]
    exact congrArg _ (ih _)

/-- **A value and closing brackets for all that is open around it complete an expression**, and
nothing more is opened for it. -/
theorem readAll_closers (v : Value) (stack : List Opening) {ts : List Token}
    (hts : ts.map Token.lexeme = List.replicate (brackets stack) .closeBracket) :
    (∃ es, resumeAll (deliver v stack) ts = .ok es) ∧
      peakAfter (deliver v stack) ts ≤ stack.length := by
  induction stack generalizing v ts with
  | nil =>
    rw [brackets, List.replicate_zero, List.map_eq_nil_iff] at hts
    subst hts
    exact ⟨⟨[v], rfl⟩, Nat.le_refl _⟩
  | cons o outer ih =>
    cases o with
    | quote offset =>
      obtain ⟨hread, hpeak⟩ := ih v.quoted hts
      exact ⟨hread, Nat.le_succ_of_le hpeak⟩
    | bracket offset items =>
      rw [brackets, List.replicate_succ] at hts
      obtain ⟨t, others, rfl, ht, hothers⟩ := List.map_eq_cons_iff.1 hts
      obtain ⟨hread, hpeak⟩ := ih (.list (v :: items).reverse) hothers
      have hstep : step (.bracket offset (v :: items) :: outer) t =
          deliver (.list (v :: items).reverse) outer := step_closeBracket ht
      rw [deliver, resumeAll, peakAfter, follows_readAll.cons, peak_cons, hstep]
      exact ⟨hread, Nat.max_le.2 ⟨Nat.le_refl _, Nat.le_succ_of_le hpeak⟩⟩

/-- A text that completes what is open. -/
def completion : List Opening → List Char
  | [] => []
  | .quote _ :: outer => '"' :: '"' :: closers (brackets outer)
  | .bracket _ _ :: outer => ')' :: closers (brackets outer)

theorem readAll_completion (stack : List Opening) (offset : Nat) :
    (∃ es, readAll stack (meaningfulFrom offset (completion stack)) = .ok es) ∧
      peak stack (meaningfulFrom offset (completion stack)) = stack.length := by
  match stack with
  | [] =>
    rw [completion, meaningfulFrom_nil]
    exact ⟨⟨[], rfl⟩, rfl⟩
  | .quote o :: outer =>
    have htokens : meaningfulFrom offset (completion (.quote o :: outer)) =
        ⟨.string, ['"', '"'], offset⟩ ::
          meaningfulFrom (offset + 2) (closers (brackets outer)) := by
      rw [completion, meaningfulFrom_eq, nextToken_cons]
      rfl
    obtain ⟨hread, hpeak⟩ := readAll_closers (.str (String.ofList [])) (.quote o :: outer)
      (lexemes_closers (offset + 2) (brackets outer))
    have hstep : step (.quote o :: outer) ⟨.string, ['"', '"'], offset⟩ =
        deliver (.str (String.ofList [])) (.quote o :: outer) := step_string rfl .nil
    rw [htokens, follows_readAll.cons, peak_cons, hstep]
    exact ⟨hread, Nat.max_eq_left hpeak⟩
  | .bracket o items :: outer =>
    have htokens : meaningfulFrom offset (completion (.bracket o items :: outer)) =
        ⟨.closeBracket, [')'], offset⟩ ::
          meaningfulFrom (offset + 1) (closers (brackets outer)) := by
      rw [completion, meaningfulFrom_eq, nextToken_cons]
      rfl
    obtain ⟨hread, hpeak⟩ := readAll_closers (.list items.reverse) outer
      (lexemes_closers (offset + 1) (brackets outer))
    rw [htokens, follows_readAll.cons, peak_cons, step_closeBracket rfl]
    exact ⟨hread, Nat.max_eq_left (Nat.le_succ_of_le hpeak)⟩

/-- **A text that ends with something open can be completed.** -/
theorem exists_completion_of_open {s : List Char} {stack : List Opening}
    (h : (progress [] (meaningful s)).ending = .ok stack) :
    ∃ t es, parseAll (s ++ t) = .ok es ∧ nesting (s ++ t) = nesting s := by
  -- the newline ends whatever the last token is, an atom or a comment
  have htokens : ∀ u, meaningful (s ++ '\n' :: u) =
      meaningful s ++ meaningfulFrom (0 + s.length + 1) u :=
    meaningfulFrom_newline (kind_ne_of_progress h)
  obtain ⟨⟨es, hread⟩, hpeak⟩ := readAll_completion stack (0 + s.length + 1)
  have hopen : max (nesting s) stack.length = nesting s := 
    Nat.max_eq_left (length_le_peak_of_progress h)
  refine ⟨'\n' :: completion stack, (progress [] (meaningful s)).forms ++ es, ?_, ?_⟩
  · rw [parseAll_eq_outcome, htokens, progress_append, Progress.goOn, h, Progress.outcome_after,
      ← readAll_eq_outcome, hread]
    rfl
  · rw [nesting, htokens, peak_append, Progress.peakOf, h]
    exact (congrArg _ hpeak).trans hopen

/-! ## Unfinished strings -/

/-- Behind the double quote that opens a string, an escape is unknown. -/
inductive UnknownEscape : List Char → Prop
  | here {c : Char} {rest : List Char} (h : ∀ d, (c, d) ∉ escapes) :
      UnknownEscape ('\\' :: c :: rest)
  | plain {c : Char} {rest : List Char} (hb : c ≠ '\\') (hq : c ≠ '"') (h : UnknownEscape rest) :
      UnknownEscape (c :: rest)
  | pair (c : Char) {rest : List Char} (h : UnknownEscape rest) : UnknownEscape ('\\' :: c :: rest)

theorem UnknownEscape.append_right {s : List Char} (h : UnknownEscape s) (u : List Char) :
    UnknownEscape (s ++ u) := by
  induction h with
  | here h => exact .here h
  | plain hb hq _ ih => exact .plain hb hq ih
  | pair c _ ih => exact .pair c ih

/-- What closes a string does not make an escape known. -/
theorem UnknownEscape.not_spells {s : List Char} (h : UnknownEscape s) {inside after : List Char}
    (hclose : closeString s = some (inside ++ ['"'], after)) (text : List Char) :
    ¬ Spells inside text := by
  intro hspells
  induction h generalizing inside after text with
  | here hnone =>
    obtain ⟨⟨b, a⟩, -, he⟩ := Option.map_eq_some_iff.1 hclose
    cases hspells with
    | nil => cases he
    | plain hb => exact hb (List.cons_eq_cons.1 (Prod.mk.inj he).1).1.symm
    | escape he' =>
      obtain ⟨-, htail⟩ := List.cons_eq_cons.1 (Prod.mk.inj he).1
      obtain ⟨rfl, -⟩ := List.cons_eq_cons.1 htail
      exact hnone _ he'
  | plain hb hq _ ih =>
    rw [closeString_plain hb hq] at hclose
    obtain ⟨⟨b, a⟩, hp, he⟩ := Option.map_eq_some_iff.1 hclose
    cases hspells with
    | nil => exact hq (List.cons_eq_cons.1 (Prod.mk.inj he).1).1
    | plain _ _ hinside =>
      obtain ⟨-, rfl⟩ := List.cons_eq_cons.1 (Prod.mk.inj he).1
      exact ih hp _ hinside
    | escape => exact hb (List.cons_eq_cons.1 (Prod.mk.inj he).1).1
  | pair c _ ih =>
    obtain ⟨⟨b, a⟩, hp, he⟩ := Option.map_eq_some_iff.1 hclose
    cases hspells with
    | nil => cases he
    | plain hb => exact hb (List.cons_eq_cons.1 (Prod.mk.inj he).1).1.symm
    | escape _ hinside =>
      obtain ⟨-, htail⟩ := List.cons_eq_cons.1 (Prod.mk.inj he).1
      obtain ⟨-, rfl⟩ := List.cons_eq_cons.1 htail
      exact ih hp _ hinside

/-- What may stand inside a string spells a text, unless an escape in it is unknown. -/
theorem spells_or_unknownEscape {body : List Char} (h : Closed body) :
    (∃ text, Spells body text) ∨ UnknownEscape body := by
  induction h with
  | nil => exact .inl ⟨[], .nil⟩
  | plain hb hq _ ih =>
    rcases ih with ⟨text, ih⟩ | ih
    · exact .inl ⟨_, .plain hb hq ih⟩
    · exact .inr (.plain hb hq ih)
  | pair c _ ih =>
    rcases ih with ⟨text, ih⟩ | ih
    · by_cases hknown : ∃ d, (c, d) ∈ escapes
      · obtain ⟨d, hd⟩ := hknown
        exact .inl ⟨_, .escape hd ih⟩
      · exact .inr (.here (not_exists.1 hknown))
    · exact .inr (.pair c ih)

/-- An unfinished string may stand inside one, or does so up to a last backslash. -/
theorem closed_of_closeString_eq_none {s : List Char} (h : closeString s = none) :
    Closed s ∨ ∃ body, s = body ++ ['\\'] ∧ Closed body := by
  fun_induction closeString s with
  | case1 => exact .inl .nil
  | case2 => cases h
  | case3 => exact .inr ⟨[], rfl, .nil⟩
  | case4 c rest ih =>
    rcases ih (Option.map_eq_none_iff.1 h) with hrest | ⟨body, rfl, hbody⟩
    · exact .inl (.pair c hrest)
    · exact .inr ⟨'\\' :: c :: body, rfl, .pair c hbody⟩
  | case5 c rest hq hlast hpair ih =>
    have hb : c ≠ '\\' := by
      rintro rfl
      cases rest with
      | nil => exact hlast rfl rfl
      | cons d rest => exact hpair d rest rfl rfl
    rcases ih (Option.map_eq_none_iff.1 h) with hrest | ⟨body, rfl, hbody⟩
    · exact .inl (.plain hb hq hrest)
    · exact .inr ⟨c :: body, rfl, .plain hb hq hbody⟩

/-- **An unfinished string can be finished**, unless an escape in it is unknown. -/
theorem exists_string_end {s : List Char} (h : closeString s = none) (hknown : ¬ UnknownEscape s) :
    ∃ ending body text, s ++ ending = body ++ ['"'] ∧ Spells body text := by
  rcases closed_of_closeString_eq_none h with hclosed | ⟨body, rfl, hclosed⟩
  · obtain ⟨text, hspells⟩ := (spells_or_unknownEscape hclosed).resolve_right hknown
    exact ⟨['"'], s, text, rfl, hspells⟩
  · have hbody : ¬ UnknownEscape body := fun hu => hknown (hu.append_right _)
    obtain ⟨text, hspells⟩ := (spells_or_unknownEscape hclosed).resolve_right hbody
    -- the backslash at the end gets a double quote to take along
    have hescape : Spells ['\\', '"'] ['"'] := .escape (by decide) .nil
    refine ⟨['"', '"'], body ++ ['\\', '"'], text ++ ['"'], ?_, hspells.append hescape⟩
    rw [List.append_assoc, List.append_assoc]
    rfl

/-- Where the reader stops at a double quote, the text behind it is a string that does not end. -/
theorem split_unterminated {c : Char} {rest : List Char}
    (h : (split c rest).1 = .unterminated) : c = '"' ∧ closeString rest = none := by
  unfold split at h
  split at h
  · cases h
  split at h
  · cases h
  split at h
  · cases h
  split at h
  · cases h
  split at h
  · cases h
  split at h
  next hquote =>
    split at h
    · cases h
    next hclose => exact ⟨hquote, hclose⟩
  · cases h

/-- A double quote with an unknown escape behind it is refused, whether its string ends or not. -/
theorem exists_refused_of_unknownEscape {rest : List Char} (h : UnknownEscape rest) (offset : Nat)
    (stack : List Opening) :
    ∃ t after, meaningfulFrom offset ('"' :: rest) = t :: after ∧
      ∃ e, step stack t = .refused e := by
  rw [meaningfulFrom_eq, nextToken_cons, split_doubleQuote]
  rcases hclose : closeString rest with _ | ⟨b, after⟩
  · exact ⟨_, _, rfl, _, rfl⟩
  · obtain ⟨inside, rfl, hclosed⟩ := closed_of_closeString hclose
    refine ⟨⟨.string, '"' :: (inside ++ ['"']), offset⟩, _, rfl, ?_⟩
    have hbody : (('"' :: (inside ++ ['"'])).drop 1).dropLast = inside := inside_quotes inside
    rcases hu : unescape (offset + 1) inside with e | text
    · exact ⟨e, by simp only [step, hbody, hu]⟩
    · exact absurd (spells_of_unescape hclosed hu) (h.not_spells hclose text)

/-- **A string that does not end can be finished, and all that is open around it completed, unless
an escape in it is unknown.** -/
theorem exists_completion_of_string {s rest : List Char} {before : List Token}
    {stack : List Opening} {t : Token} {c : Char} (h : Cut s before stack t c rest)
    (hkind : t.kind = .unterminated) :
    (∃ u es, parseAll (s ++ u) = .ok es ∧ nesting (s ++ u) = nesting s) ↔
      ¬ UnknownEscape rest := by
  obtain ⟨rfl, hclose⟩ := split_unterminated (h.kind.trans hkind)
  constructor
  · rintro ⟨u, es, hread, -⟩ hunknown
    obtain ⟨first, after, hfirst, hrefused⟩ := exists_refused_of_unknownEscape
      (hunknown.append_right u) t.offset stack
    rw [h.parseAll, List.cons_append, hfirst, readAll_eq_outcome, progress] at hread
    obtain ⟨e, hstep⟩ := hrefused
    rw [hstep] at hread
    cases hread
  · intro hknown
    obtain ⟨ending, body, text, hstring, hspells⟩ := exists_string_end hclose hknown
    obtain ⟨offset, htokens⟩ : ∃ offset, meaningfulFrom t.offset
        ('"' :: rest ++ (ending ++ closers (brackets stack))) =
          ⟨.string, '"' :: body ++ ['"'], t.offset⟩ ::
            meaningfulFrom offset (closers (brackets stack)) := by
      refine ⟨t.offset + ('"' :: body ++ ['"']).length, ?_⟩
      rw [List.cons_append, ← List.append_assoc, hstring, List.append_assoc, meaningfulFrom_eq,
        nextToken_cons, List.singleton_append, split_string (closed_of_spells hspells)]
      rfl
    obtain ⟨⟨es, hread⟩, hpeak⟩ := readAll_closers (.str (String.ofList text)) stack
      (lexemes_closers offset (brackets stack))
    have hstep : step stack ⟨.string, '"' :: body ++ ['"'], t.offset⟩ =
        deliver (.str (String.ofList text)) stack := step_string rfl hspells
    refine ⟨ending ++ closers (brackets stack), (progress [] before).forms ++ es, ?_, ?_⟩
    · rw [h.parseAll, htokens, follows_readAll.cons, hstep, hread]
      rfl
    · have hrefused : step stack t = .refused ⟨.unclosedString, t.offset⟩ := by
        simp only [step, hkind]
      rw [h.nesting, h.nesting_of_refused hrefused, htokens, peak_cons, hstep,
        Nat.max_eq_left hpeak]

/-! ## Beginnings of texts -/

theorem peakAfter_deliver_nil (v : Value) (stack : List Opening) :
    peakAfter (deliver v stack) [] ≤ stack.length := by
  induction stack generalizing v with
  | nil => exact Nat.le_refl _
  | cons o outer ih =>
    cases o with
    | quote offset => exact Nat.le_succ_of_le (ih v.quoted)
    | bracket offset items => exact Nat.le_refl _

/-- A token opens nothing, unless it is an opening bracket or a quote. -/
theorem peak_singleton (stack : List Opening) (t : Token) :
    t.kind = .openBracket ∨ t.kind = .quote ∨ peak stack [t] = stack.length := by
  have hlow : peakAfter (step stack t) [] ≤ stack.length → peak stack [t] = stack.length :=
    fun h => (peak_cons stack t []).trans (Nat.max_eq_left h)
  by_cases hopen : t.kind = .openBracket
  · exact .inl hopen
  by_cases hquote : t.kind = .quote
  · exact .inr (.inl hquote)
  refine .inr (.inr (hlow ?_))
  unfold step
  split
  next h => exact absurd h hopen
  next h => exact absurd h hquote
  · split
    · exact Nat.le_succ_of_le (peakAfter_deliver_nil _ _)
    · exact Nat.zero_le _
  · split
    · exact peakAfter_deliver_nil _ _
    · exact Nat.zero_le _
  · exact Nat.zero_le _
  all_goals exact peakAfter_deliver_nil _ _

/-- **A beginning of a text is not nested more deeply than the text.** -/
theorem nesting_le_append (s u : List Char) : nesting s ≤ nesting (s ++ u) := by
  cases hending : (progress [] (meaningful s)).ending with
  | error e =>
    obtain ⟨before, stack, t, after, htokens, hreached, hstep⟩ := exists_refused hending
    obtain ⟨c, rest, hcut⟩ := exists_cut htokens hreached
    rw [hcut.nesting, hcut.nesting_of_refused hstep]
    have hstack := length_le_peak stack (meaningfulFrom t.offset (c :: rest ++ u))
    omega
  | ok next =>
    rcases List.eq_nil_or_concat (meaningful s) with hnil | ⟨before, t, htokens⟩
    · rw [nesting, hnil]
      exact Nat.zero_le _
    · rw [List.concat_eq_append] at htokens
      -- only the last token is in doubt, and what is open before it
      obtain ⟨stack, hreached⟩ : ∃ stack, (progress [] before).ending = .ok stack := by
        cases hb : (progress [] before).ending with
        | ok stack => exact ⟨stack, rfl⟩
        | error e =>
          rw [htokens, progress_append, Progress.goOn, hb] at hending
          cases hb.symm.trans hending
      obtain ⟨c, rest, hcut⟩ := exists_cut htokens hreached
      rw [hcut.nesting, nesting, htokens, peak_append, Progress.peakOf, hreached]
      have hopening (hkind : t.kind ≠ .unterminated) (hends : ∀ d, t.kind.goesOn d = false) :
          peak stack [t] ≤ peak stack (meaningfulFrom t.offset (c :: rest ++ u)) := by
        obtain ⟨after, hfirst⟩ := hcut.meaningfulFrom_append hkind hends u
        rw [hfirst, peak_cons, peak_cons]
        have hafter : peakAfter (step stack t) [] ≤ peakAfter (step stack t) after := by
          cases step stack t with
          | refused e => exact Nat.le_refl _
          | complete v => exact Nat.zero_le _
          | continued next => exact length_le_peak next after
        omega
      have hlast : peak stack [t] ≤ peak stack (meaningfulFrom t.offset (c :: rest ++ u)) := by
        rcases peak_singleton stack t with hkind | hkind | hlow
        · exact hopening (by simp [hkind]) (fun d => by rw [hkind]; rfl)
        · exact hopening (by simp [hkind]) (fun d => by rw [hkind]; rfl)
        · rw [hlow]
          exact length_le_peak _ _
      simp only
      omega

/-- **An error tells whether more text can mend it.**

If a text is wrong, any text that begins with it has the same error at the same place.  If it is
unfinished, there is a text that begins with it and can be read, except just when the reader stopped
at a string that does not end and an escape in it is unknown.  So a text with which one that can be
read begins can be read itself or is unfinished.

No limit on nesting interferes: a text that begins with a wrong one is nested as deeply, an
unfinished text can be completed without nesting anything more deeply, and a beginning of a text is
not nested more deeply than the text. -/
theorem incomplete_iff_completable (s : List Char) :
    (∀ e, parseAll s = .error e → e.isIncomplete = false →
      ∀ t, parseAll (s ++ t) = .error e ∧ nesting (s ++ t) = nesting s) ∧
    (∀ e, parseAll s = .error e → e.isIncomplete = true →
      ((∃ t es, parseAll (s ++ t) = .ok es ∧ nesting (s ++ t) = nesting s) ↔
        ¬ (e.flaw = .unclosedString ∧ UnknownEscape (s.drop (e.position + 1))))) ∧
    ∀ t es, parseAll (s ++ t) = .ok es → nesting s ≤ nesting (s ++ t) ∧
      ((∃ es', parseAll s = .ok es') ∨ ∃ e, parseAll s = .error e ∧ e.isIncomplete = true) := by
  refine ⟨fun e h hwrong t => parseAll_append_of_wrong h hwrong t, fun e h hunfinished => ?_,
    fun t es h => ⟨nesting_le_append s t, ?_⟩⟩
  · rw [parseAll_eq_outcome] at h
    rcases cases_of_outcome h with hending | ⟨o, outer, hending, rfl⟩
    · obtain ⟨before, stack, t, after, htokens, hreached, hstep⟩ := exists_refused hending
      obtain ⟨c, rest, hcut⟩ := exists_cut htokens hreached
      rcases cases_of_step_refused hstep with ⟨hkind, rfl⟩ | ⟨-, hwrong⟩
      · have hrest : s.drop (t.offset + 1) = rest := by
          rw [← List.drop_drop, hcut.text, List.drop_one, List.tail_cons]
        rw [exists_completion_of_string hcut hkind, hrest]
        exact not_congr (Iff.symm (and_iff_right rfl))
      · rw [hunfinished] at hwrong
        cases hwrong
    · have hflaw : o.unfinished.flaw ≠ .unclosedString := by cases o <;> nofun
      exact iff_of_true (exists_completion_of_open hending) (fun hs => hflaw hs.1)
  · rcases hp : parseAll s with e | es'
    · cases hi : e.isIncomplete with
      | true => exact .inr ⟨e, rfl, hi⟩
      | false =>
        have hwrong := (parseAll_append_of_wrong hp hi t).1
        rw [h] at hwrong
        cases hwrong
    · exact .inl ⟨es', rfl⟩

end SmallLisp.Reader
