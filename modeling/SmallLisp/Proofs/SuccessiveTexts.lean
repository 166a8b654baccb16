import SmallLisp.Proofs.Completions
import SmallLisp.Proofs.JoinedTexts

/-! # Texts one after the other

A text with a newline and a second text behind it is evaluated as the two are evaluated one after
the other (`Evaluation.successive_texts`), unless the first is unfinished.  Where the first is wrong
or too deeply nested, nothing of the second is ever looked at (`Script.ofText_of_stopped`).  Else
the expressions of the second come behind those of the first (`Script.forms_newline`), and reading
stops for the same reason as it does in the second by itself (`Script.stop_newline`).

A script is made one expression at a time, so what has to be shown is how the first expression of a
text depends on what follows.  If there is more of the text behind it, it is the same whatever
follows (`Reader.parseOne_append`); if it is the last of the text, it is the same in front of a
newline (`Reader.parseOne_newline`); and if the text has none, it is that of what follows
(`Reader.parseOne_shift`).
-/
namespace SmallLisp

/-- The same stop with so many more characters before it. -/
def ReadingStop.shift (n : Nat) : ReadingStop → ReadingStop
  | malformed e => malformed (e.shift n)
  | tooDeep => tooDeep

namespace Reader
open Token

/-- All expressions of a text, unless it is nested beyond a limit. -/
def parseWithin (limit : Nat) (s : List Char) : Except ReadingStop (List Value) :=
  if limit < nesting s then .error .tooDeep else (parseAll s).mapError .malformed

/-! ## The first expression of a longer text -/

theorem meaningfulFrom_of_split {c : Char} {rest : List Char}
    (h : (split c rest).1.isTrivia = false) (offset : Nat) :
    ∃ t after, meaningfulFrom offset (c :: rest) = t :: after ∧ t.offset = offset := by
  rw [meaningfulFrom_eq, nextToken_cons, if_neg (by simp [h])]
  exact ⟨_, _, rfl, rfl⟩

/-- Tokens that stand behind more text stand in front of the same text. -/
theorem textFrom_shift {before : List Char} {n : Nat} (h : before.length = n) (u : List Char)
    (ts : List Token) : textFrom (before ++ u) (ts.map (Token.shift n)) = textFrom u ts := by
  subst h
  cases ts with
  | nil => rfl
  | cons t ts =>
    exact List.drop_length_add_append t.offset

/-- **The first expression of a text is the same whatever follows**, if something follows in the
text already. -/
theorem parseOne_append {s rest : List Char} {v : Value}
    (h : parseOne s = .ok (some (v, rest))) (hrest : rest ≠ []) (u : List Char) :
    parseOne (s ++ u) = .ok (some (v, rest ++ u)) ∧ nestingOfFirst (s ++ u) = nestingOfFirst s := by
  obtain ⟨before, read, rfl, -, hstarts, htokens, hone, hread⟩ := exists_of_parseOne h
  obtain ⟨c, more, rfl⟩ := List.exists_cons_of_ne_nil hrest
  obtain ⟨t, after, hfirst, hoffset⟩ := meaningfulFrom_of_split (hstarts c more rfl) before.length
  rw [← meaningful_shift, hfirst] at htokens
  -- the text is cut in front of the token behind the expression
  obtain ⟨x, d, tail, hs, htoffset, -, -, -, -, hcut⟩ :=
    meaningfulFrom_cut htokens (kind_ne_of_progress (congrArg Progress.ending hread))
  have hlength : before.length = x.length := by rw [← hoffset, htoffset, Nat.zero_add]
  obtain ⟨rfl, hdtail⟩ := List.append_inj hs hlength
  obtain ⟨rfl, rfl⟩ := List.cons_eq_cons.1 hdtail
  have hlonger : meaningful (before ++ c :: more ++ u) =
      read ++ meaningfulFrom before.length (c :: (more ++ u)) := by
    rw [meaningful_eq_meaningfulFrom, hcut u, hoffset, List.cons_append]
  have hmeaning : (split c (more ++ u)).1.isTrivia = false := by
    rw [isTrivia_split, ← isTrivia_split c more]
    exact hstarts c more rfl
  obtain ⟨t', after', hfirst', hoffset'⟩ := meaningfulFrom_of_split hmeaning before.length
  have hone' := readOne_of_progress hread (meaningfulFrom before.length (c :: (more ++ u)))
  rw [← hlonger] at hone'
  constructor
  · rw [parseOne, hone']
    refine congrArg (fun left => Except.ok (some (v, left))) ?_
    rw [hfirst', textFrom, hoffset', List.append_assoc]
    exact List.drop_left
  · rw [nestingOfFirst_eq_peak hlonger hone']
    exact (nestingOfFirst_eq_peak (htokens.trans (by rw [← hfirst, meaningful_shift])) hone).symm

/-- **An expression with which a text ends is the same in front of a newline**, and it is followed
by what follows there, from its first token on. -/
theorem parseOne_newline {s : List Char} {v : Value} (h : parseOne s = .ok (some (v, [])))
    (u : List Char) :
    parseOne (s ++ '\n' :: u) = .ok (some (v, textFrom u (meaningful u))) ∧
      nestingOfFirst (s ++ '\n' :: u) = nestingOfFirst s := by
  obtain ⟨before, read, -, -, -, htokens, hone, hread⟩ := exists_of_parseOne h
  rw [meaningful_eq_meaningfulFrom [], meaningfulFrom_nil, List.map_nil] at htokens hone
  have hlonger : meaningful (s ++ '\n' :: u) =
      read ++ (meaningful u).map (Token.shift (s.length + 1)) := by
    rw [List.append_nil] at htokens
    rw [meaningful_newline (kind_ne_of_progress (htokens ▸ congrArg Progress.ending hread)),
      htokens]
  have hone' := readOne_of_progress hread ((meaningful u).map (Token.shift (s.length + 1)))
  rw [← hlonger] at hone'
  constructor
  · rw [parseOne, hone']
    refine congrArg (fun left => Except.ok (some (v, left))) ?_
    rw [List.append_cons]
    exact textFrom_shift (by rw [List.length_append]; rfl) _ _
  · rw [nestingOfFirst_eq_peak hlonger hone', nestingOfFirst_eq_peak htokens hone]

/-- Where nothing with a meaning is in front of a text, its first expression is that of the
text. -/
theorem parseOne_shift {before u : List Char}
    (h : meaningful (before ++ u) = (meaningful u).map (Token.shift before.length)) :
    parseOne (before ++ u) = (parseOne u).mapError (SyntaxError.shift before.length) ∧
      nestingOfFirst (before ++ u) = nestingOfFirst u := by
  have hone := readOne_shift before.length [] (meaningful u)
  rw [List.map_nil, ← h] at hone
  constructor
  · rw [parseOne, parseOne, hone]
    rcases readOne [] (meaningful u) with e | _ | ⟨v, rest⟩
    · rfl
    · rfl
    · exact congrArg (fun left => Except.ok (some (v, left))) (textFrom_shift rfl u rest)
  · rcases hu : readOne [] (meaningful u) with e | _ | ⟨v, rest⟩ <;>
      rw [hu] at hone <;>
      simp only [nestingOfFirst, hone, hu, Except.mapError, Except.map, Option.map] <;>
      rw [h]
    · exact peak_shift _ [] _
    · exact peak_shift _ [] _
    · rw [List.length_map, List.length_map, ← List.map_take]
      exact peak_shift _ [] _

/-! ## Nesting of the first expression -/

/-- If no expression is complete in the end, none is complete before. -/
theorem progress_of_forms_eq_nil {before after : List Token} {stack : List Opening}
    (h : (progress [] before).ending = .ok stack)
    (hforms : (progress [] (before ++ after)).forms = []) :
    progress [] before = ⟨[], .ok stack⟩ := by
  rcases hbefore : progress [] before with ⟨forms, ending⟩
  rw [hbefore] at h
  cases h
  rw [progress_append, hbefore] at hforms
  have hnone : forms = [] := (List.append_eq_nil_iff.1 hforms).1
  rw [hnone]

/-- Tokens that complete no expression belong to the first. -/
theorem peak_le_nestingOfFirst {s : List Char} {before us : List Token} {next : List Opening}
    (hbefore : progress [] before = ⟨[], .ok next⟩) (htokens : meaningful s = before ++ us) :
    peak [] before ≤ nestingOfFirst s := by
  have hone : readOne [] (meaningful s) = readOne next us := by
    rw [htokens, readOne_append hbefore]
  have hwhole : peak [] before ≤ peak [] (meaningful s) := by
    rw [htokens, peak_append]
    exact Nat.le_max_left _ _
  rcases hread : readOne next us with e | _ | ⟨v, rest⟩
  · simp only [nestingOfFirst, hone, hread]
    exact hwhole
  · simp only [nestingOfFirst, hone, hread]
    exact hwhole
  · obtain ⟨read, -, rfl, -⟩ := progress_of_readOne hread
    rw [← List.append_assoc] at htokens
    rw [nestingOfFirst_eq_peak htokens (hone.trans hread), peak_append]
    exact Nat.le_max_left _ _

/-- An error in the first expression comes behind tokens that complete none, are nested as deeply
as the text, and stay what they are in front of a newline. -/
theorem exists_of_parseOne_eq_error {s : List Char} {e : SyntaxError} (h : parseOne s = .error e)
    (u : List Char) :
    ∃ before next us, progress [] before = ⟨[], .ok next⟩ ∧
      meaningful (s ++ '\n' :: u) = before ++ us ∧ nesting s = peak [] before := by
  obtain ⟨hparse, hforms⟩ := parseAll_of_parseOne_eq_error h
  rw [parseAll_eq_outcome] at hparse
  rcases hprogress : progress [] (meaningful s) with ⟨forms, ending⟩
  rw [hprogress] at hparse hforms
  cases hforms
  rcases cases_of_outcome hparse with hending | ⟨o, outer, hending, -⟩
  · cases hending
    obtain ⟨before, next, t, after, htokens, hreached, hstep⟩ :=
      exists_refused (congrArg Progress.ending hprogress)
    obtain ⟨c, rest, hcut⟩ := exists_cut htokens hreached
    refine ⟨before, next, _, ?_, hcut.tokens ('\n' :: u), ?_⟩
    · rw [htokens] at hprogress
      exact progress_of_forms_eq_nil hreached (congrArg Progress.forms hprogress)
    · rw [hcut.nesting_of_refused hstep]
      exact Nat.max_eq_left (length_le_peak_of_progress hreached)
  · cases hending
    have hkinds := kind_ne_of_progress (congrArg Progress.ending hprogress)
    exact ⟨meaningful s, _, _, hprogress, meaningful_newline hkinds u, rfl⟩

/-- **With more text, the first expression is nested no less deeply.** -/
theorem nestingOfFirst_le_newline (s u : List Char) :
    nestingOfFirst s ≤ nestingOfFirst (s ++ '\n' :: u) := by
  rcases hone : parseOne s with e | _ | ⟨v, rest⟩
  · obtain ⟨before, next, us, hbefore, htokens, hnesting⟩ := exists_of_parseOne_eq_error hone u
    rw [nestingOfFirst_eq_nesting (by simp [hone]), hnesting]
    exact peak_le_nestingOfFirst hbefore htokens
  · rw [nestingOfFirst_eq_nesting (by simp [hone]), nesting, meaningful_of_parseOne_eq_none hone]
    exact Nat.zero_le _
  · by_cases hrest : rest = []
    · subst hrest
      exact Nat.le_of_eq (parseOne_newline hone u).2.symm
    · exact Nat.le_of_eq (parseOne_append hone hrest _).2.symm

/-- **A wrong first expression stays wrong**, with the same error. -/
theorem parseOne_append_of_wrong {s : List Char} {e : SyntaxError} (h : parseOne s = .error e)
    (hwrong : e.isIncomplete = false) (u : List Char) :
    parseOne (s ++ u) = .error e ∧ nestingOfFirst (s ++ u) = nestingOfFirst s := by
  obtain ⟨hparse, hforms⟩ := parseAll_of_parseOne_eq_error h
  obtain ⟨before, stack, t, hreached, hstep, htokens⟩ := exists_refused_of_wrong hparse hwrong
  have hbefore : progress [] before = ⟨[], .ok stack⟩ := by
    obtain ⟨after, hself⟩ := htokens []
    rw [List.append_nil] at hself
    rw [hself] at hforms
    exact progress_of_forms_eq_nil hreached hforms
  obtain ⟨after, hu⟩ := htokens u
  have hone : parseOne (s ++ u) = .error e := by
    rw [parseOne, hu, readOne_append hbefore, readOne, hstep]
    rfl
  refine ⟨hone, ?_⟩
  rw [nestingOfFirst_eq_nesting (by simp [hone]), nestingOfFirst_eq_nesting (by simp [h])]
  exact (parseAll_append_of_wrong hparse hwrong u).2

/-! ## All expressions -/

/-- **Reading two texts with a newline between them is reading one after the other**, unless the
first is unfinished: the expressions of both, or the error of the first, or that of the second,
which stands so many characters further. -/
theorem parseWithin_newline {limit : Nat} {s : List Char}
    (hs : ∀ e, parseWithin limit s = .error (.malformed e) → e.isIncomplete = false)
    (t : List Char) :
    parseWithin limit (s ++ '\n' :: t) =
      match parseWithin limit s with
      | .error stop => .error stop
      | .ok vs =>
        match parseWithin limit t with
        | .error stop => .error (stop.shift (s.length + 1))
        | .ok ws => .ok (vs ++ ws) := by
  by_cases hdeep : limit < nesting s
  · have hjoined := Nat.lt_of_lt_of_le hdeep (nesting_le_append s ('\n' :: t))
    rw [parseWithin, parseWithin, if_pos hdeep, if_pos hjoined]
  · rcases hparse : parseAll s with e | vs
    · have hwrong : e.isIncomplete = false := hs e (by rw [parseWithin, if_neg hdeep, hparse]; rfl)
      obtain ⟨hjoined, hnesting⟩ := parseAll_append_of_wrong hparse hwrong ('\n' :: t)
      simp only [parseWithin, hnesting, if_neg hdeep, hparse, hjoined]
      rfl
    · obtain ⟨hjoined, hnesting⟩ := parseAll_newline hparse t
      have hlimit : limit < nesting (s ++ '\n' :: t) ↔ limit < nesting t := by omega
      simp only [parseWithin, hlimit, if_neg hdeep, hparse, hjoined]
      by_cases hdeep' : limit < nesting t
      · rw [if_pos hdeep', if_pos hdeep']
        rfl
      · rw [if_neg hdeep', if_neg hdeep']
        rcases parseAll t with e | ws <;> rfl

end Reader

namespace Script
open Reader
variable {limit : Nat} {s : List Char}

/-- **What stands behind a text that is wrong or too deeply nested is not looked at.** -/
theorem ofText_of_stopped {stop : ReadingStop} (h : (ofText limit s).stop? = some stop)
    (hstop : ∀ e, stop = .malformed e → e.isIncomplete = false) (u : List Char) :
    ofText limit (s ++ '\n' :: u) = ofText limit s := by
  induction hn : s.length using Nat.strongRecOn generalizing s with
  | ind n ih =>
    subst hn
    rw [ofText_eq] at h
    rw [ofText_eq, ofText_eq limit s]
    by_cases hdeep : limit < nestingOfFirst s
    · rw [if_pos hdeep, if_pos (Nat.lt_of_lt_of_le hdeep (nestingOfFirst_le_newline s u))]
    · rw [if_neg hdeep] at h ⊢
      rcases hone : parseOne s with e | _ | ⟨v, rest⟩
      · rw [hone] at h
        cases h
        obtain ⟨hone', hnesting⟩ := parseOne_append_of_wrong hone (hstop e rfl) ('\n' :: u)
        rw [hnesting, if_neg hdeep, hone']
      · rw [hone] at h
        cases h
      · rw [hone] at h
        by_cases hrest : rest = []
        · subst hrest
          rw [show (ofText limit []).stop? = none by rw [ofText_nil]] at h
          cases h
        · obtain ⟨hone', hnesting⟩ := parseOne_append hone hrest ('\n' :: u)
          rw [hnesting, if_neg hdeep, hone']
          simp only [ih rest.length (parseOne_length hone) h rfl]

/-- Where nothing with a meaning is in front of a text, the expressions are those of the text. -/
theorem forms_shift {before u : List Char} (limit : Nat)
    (h : Token.meaningful (before ++ u) = (Token.meaningful u).map (Token.shift before.length)) :
    (ofText limit (before ++ u)).forms = (ofText limit u).forms := by
  obtain ⟨hone, hnesting⟩ := parseOne_shift h
  rw [ofText_eq, ofText_eq limit u, hone, hnesting]
  by_cases hdeep : limit < nestingOfFirst u
  · rw [if_pos hdeep, if_pos hdeep]
  · rw [if_neg hdeep, if_neg hdeep]
    rcases parseOne u with e | _ | ⟨v, rest⟩ <;> rfl

/-- What is in front of the first token does not count. -/
theorem forms_textFrom (limit : Nat) (u : List Char) :
    (ofText limit (textFrom u (Token.meaningful u))).forms = (ofText limit u).forms := by
  obtain ⟨before, hu, -, htokens⟩ :=
    exists_textFrom (List.nil_append (Token.meaningful u)).symm nofun
  have hmoved : Token.meaningful (before ++ textFrom u (Token.meaningful u)) =
      (Token.meaningful (textFrom u (Token.meaningful u))).map (Token.shift before.length) := by
    rw [← hu]
    exact htokens
  have hshift := forms_shift limit hmoved
  rw [← hshift, ← hu]

/-- **Behind a text that is read to its end, the expressions of the next one follow.** -/
theorem forms_newline (h : (ofText limit s).stop? = none) (u : List Char) :
    (ofText limit (s ++ '\n' :: u)).forms = (ofText limit s).forms ++ (ofText limit u).forms := by
  induction hn : s.length using Nat.strongRecOn generalizing s with
  | ind n ih =>
    subst hn
    rw [ofText_eq limit s] at h ⊢
    by_cases hdeep : limit < nestingOfFirst s
    · rw [if_pos hdeep] at h
      cases h
    · rw [if_neg hdeep] at h ⊢
      rcases hone : parseOne s with e | _ | ⟨v, rest⟩
      · rw [hone] at h
        cases h
      · have htokens := meaningful_of_parseOne_eq_none hone
        have hnewline := meaningful_newline (s := s) (by simp [htokens]) u
        rw [htokens, List.nil_append] at hnewline
        rw [List.append_cons] at hnewline ⊢
        exact forms_shift limit (by rw [hnewline, List.length_append]; rfl)
      · rw [hone] at h
        by_cases hrest : rest = []
        · subst hrest
          obtain ⟨hone', hnesting⟩ := parseOne_newline hone u
          rw [ofText_eq, hnesting, if_neg hdeep, hone']
          simp only [ofText_nil, forms_textFrom]
          rfl
        · obtain ⟨hone', hnesting⟩ := parseOne_append hone hrest ('\n' :: u)
          rw [ofText_eq, hnesting, if_neg hdeep, hone']
          simp only [ih rest.length (parseOne_length hone) h rfl, List.cons_append]

end Script

/-! ## Evaluation -/

/-- An error is the one at which a loop stops reading a text: the error of the text, with its place
counted from the start of what the loop has not read. -/
structure SyntaxError.Stops (e : SyntaxError) (text : List Char) : Prop where
  error : (ReadingLoop.evaluating.pass text).error? = some e
  place : ∃ before, text = before ++ (ReadingLoop.evaluating.pass text).unread ∧
    Reader.parseAll text = .error (e.shift before.length)

namespace Script
open Reader
variable {limit : Nat} {s : List Char}

theorem ofText_of_parseWithin {vs : List Value} (h : parseWithin limit s = .ok vs) :
    ofText limit s = ⟨vs, none⟩ := by
  rw [parseWithin] at h
  split at h
  · cases h
  next hnesting =>
    rcases hparse : parseAll s with e | ws
    · rw [hparse] at h
      cases h
    · rw [hparse] at h
      cases h
      exact ReadingLoop.script_of_parseAll (Nat.le_of_not_lt hnesting) hparse

theorem stop_of_tooDeep (h : parseWithin limit s = .error .tooDeep) :
    (ofText limit s).stop? = some .tooDeep := by
  rw [parseWithin] at h
  split at h
  next hnesting => exact ReadingLoop.script_tooDeep hnesting
  · rcases hparse : parseAll s with e | vs <;> rw [hparse] at h <;> cases h

/-- A malformed text stops its script, with the same flaw. -/
theorem exists_stops {e : SyntaxError} (h : parseWithin limit s = .error (.malformed e)) :
    ∃ e', (ofText limit s).stop? = some (.malformed e') ∧ e'.flaw = e.flaw ∧ e'.Stops s := by
  rw [parseWithin] at h
  split at h
  · cases h
  next hnesting =>
    have hscript : ofText limit s = _ :=
      ReadingLoop.evaluating.script_eq_pass (Nat.le_of_not_lt hnesting)
    obtain ⟨before, hs, hread⟩ := (ReadingLoop.evaluating.isOf_pass s).read
    cases herror : (ReadingLoop.evaluating.pass s).error? with
    | none =>
      rw [herror] at hread
      rw [hread] at h
      cases h
    | some e' =>
      rw [herror] at hread
      rw [hread] at h
      cases h
      refine ⟨e', ?_, rfl, herror, before, hs, hread⟩
      rw [hscript, herror]
      rfl

/-- What stops the script of two texts with a newline between them is what stops that of the
second, up to the place of an error. -/
theorem stop_newline {vs : List Value} (h : parseWithin limit s = .ok vs) (t : List Char) :
    (ofText limit (s ++ '\n' :: t)).stop? = (ofText limit t).stop? ∨
      ∃ e e', (ofText limit t).stop? = some (.malformed e) ∧
        (ofText limit (s ++ '\n' :: t)).stop? = some (.malformed e') ∧ e'.flaw = e.flaw ∧
        e.Stops t ∧ e'.Stops (s ++ '\n' :: t) := by
  have hjoined := parseWithin_newline (by rw [h]; nofun) t
  rw [h] at hjoined
  rcases ht : parseWithin limit t with (e | _) | ws
  · rw [ht] at hjoined
    obtain ⟨e₁, hstop, hflaw, hstops⟩ := exists_stops ht
    obtain ⟨e₂, hstop', hflaw', hstops'⟩ := exists_stops hjoined
    exact .inr ⟨e₁, e₂, hstop, hstop', hflaw'.trans hflaw.symm, hstops, hstops'⟩
  · rw [ht] at hjoined
    exact .inl ((stop_of_tooDeep hjoined).trans (stop_of_tooDeep ht).symm)
  · rw [ht] at hjoined
    rw [ofText_of_parseWithin hjoined, ofText_of_parseWithin ht]
    exact .inl rfl

/-- Where a text is wrong or too deeply nested, its script is that of any text that goes on behind
a newline. -/
theorem ofText_of_parseWithin_error {stop : ReadingStop} (h : parseWithin limit s = .error stop)
    (hs : ∀ e, stop = .malformed e → e.isIncomplete = false) (t : List Char) :
    (ofText limit s).stop? ≠ none ∧ ofText limit (s ++ '\n' :: t) = ofText limit s := by
  cases stop with
  | tooDeep =>
    have hstop := stop_of_tooDeep h
    exact ⟨by simp [hstop], ofText_of_stopped hstop nofun t⟩
  | malformed e =>
    obtain ⟨e', hstop, hflaw, -⟩ := exists_stops h
    refine ⟨by simp [hstop], ofText_of_stopped hstop (fun e'' he => ?_) t⟩
    cases he
    rw [SyntaxError.isIncomplete, hflaw]
    exact hs e rfl

end Script

namespace Evaluation
open Reader
variable {setting : Setting} {s t : List Char}

/-- A script that is stopped ends with a fault. -/
theorem exists_fault_of_stop {script : Script} (h : script.stop? ≠ none) (eval : Evaluator)
    (scope : FrameId) (b : Store) : ∃ f c, (runScript eval scope script).run b = (.error f, c) := by
  obtain ⟨stop, hstop⟩ := Option.ne_none_iff_exists'.1 h
  rw [run_runScript, hstop]
  rcases (evalForms eval scope .nil script.forms).run b with ⟨f | v, c⟩
  · exact ⟨f, c, rfl⟩
  · exact ⟨stopFault stop, c, rfl⟩

/-- A script in two parts. -/
theorem run_runScript_append (eval : Evaluator) (scope : FrameId) (first more : List Value)
    (stop? : Option ReadingStop) (b : Store) :
    (runScript eval scope ⟨first ++ more, stop?⟩).run b =
      match (evalForms eval scope .nil first).run b with
      | (.error f, c) => (.error f, c)
      | (.ok v, c) =>
        match (evalForms eval scope .nil more).run c with
        | (.error f, d) => (.error f, d)
        | (.ok w, d) =>
          match stop? with
          | none => (.ok (if more.isEmpty then v else w), d)
          | some stop => (.error (stopFault stop), d) := by
  rw [run_runScript, run_evalForms_append]
  rcases (evalForms eval scope .nil first).run b with ⟨f | v, c⟩
  · rfl
  · simp only
    rw [run_evalForms_last]
    rcases (evalForms eval scope .nil more).run c with ⟨f | w, d⟩ <;> rfl

/-- **Evaluating two texts with a newline between them is evaluating one after the other**, unless
the first is unfinished.

Reading gives the expressions of the first and then those of the second, or the error of the first,
or else that of the second, which stands so many characters further.

Evaluation comes to the same final state, whatever evaluates the expressions and wherever it
starts.  If the first text fails, so does the whole, with the same fault, and nothing of the second
is evaluated.  Else the second is evaluated in the state that the first leaves, and the value is its
own, or that of the first if there is no expression in it.  Its fault is that of the whole, except
that if the text itself is malformed, the places of the error count from the text that is left
unread, which need not begin at the same character. -/
theorem successive_texts (setting : Setting) {s : List Char}
    (hs : ∀ e, parseWithin setting.nestingLimit s = .error (.malformed e) → e.isIncomplete = false)
    (t : List Char) :
    let joined := s ++ '\n' :: t
    (parseWithin setting.nestingLimit joined =
      match parseWithin setting.nestingLimit s with
      | .error stop => .error stop
      | .ok vs =>
        match parseWithin setting.nestingLimit t with
        | .error stop => .error (stop.shift (s.length + 1))
        | .ok ws => .ok (vs ++ ws)) ∧
    ∀ (eval : Evaluator) (scope : FrameId) (before : Store),
      let both := (evaluateText setting eval scope joined).run before
      match (evaluateText setting eval scope s).run before with
      | (.error f, between) => both = (.error f, between)
      | (.ok v, between) =>
        match (evaluateText setting eval scope t).run between with
        | (.ok w, after) =>
          both = (.ok (if (Script.ofText setting.nestingLimit t).forms.isEmpty then v else w), after)
        | (.error f, after) =>
          both = (.error f, after) ∨
            ∃ e e', f = .lisp (.malformed e) ∧ both = (.error (.lisp (.malformed e')), after) ∧
              e'.flaw = e.flaw ∧ e.Stops t ∧ e'.Stops joined := by
  intro joined
  have hjoined := parseWithin_newline hs t
  refine ⟨hjoined, fun eval scope before => ?_⟩
  intro both
  rcases hparse : parseWithin setting.nestingLimit s with stop | vs
  · -- nothing of the second text is looked at
    obtain ⟨hstop, hscript⟩ :=
      Script.ofText_of_parseWithin_error hparse (fun e he => hs e (he ▸ hparse)) t
    have hsame : both = (evaluateText setting eval scope s).run before := by
      simp only [both, evaluateText, joined, hscript]
    obtain ⟨f, between, hrun⟩ := exists_fault_of_stop hstop eval scope before
    have hs' : (evaluateText setting eval scope s).run before = (.error f, between) := hrun
    rw [hsame, hs']
  · have hscript := Script.ofText_of_parseWithin hparse
    have hforms := Script.forms_newline (congrArg Script.stop? hscript) t
    have hstop := Script.stop_newline hparse t
    rcases hjoin : Script.ofText setting.nestingLimit joined with ⟨forms, stop?⟩
    rcases hthen : Script.ofText setting.nestingLimit t with ⟨more, stop'?⟩
    rw [hjoin, hscript, hthen] at hforms
    rw [hjoin, hthen] at hstop
    dsimp only at hforms hstop
    subst hforms
    have hboth := run_runScript_append eval scope vs more stop? before
    simp only [both, evaluateText, hjoin, hscript, hthen, hboth, run_runScript]
    rcases (evalForms eval scope .nil vs).run before with ⟨f | v, between⟩
    · rfl
    simp only
    rcases (evalForms eval scope .nil more).run between with ⟨f | w, after⟩
    · exact .inl rfl
    -- both texts are read as far as the second is, and stop there alike
    rcases hstop with rfl | ⟨e, e', rfl, rfl, hflaw, hstops, hstops'⟩
    · cases stop? with
      | none => rfl
      | some stop => exact .inl rfl
    · exact .inr ⟨e, e', rfl, rfl, hflaw, hstops, hstops'⟩

end Evaluation

namespace StrayBracket
open Reader

/-- A quoted name, and something about it that is not read. -/
def first : List Char := "'a ; note".toList

/-- A name, and a bracket too many. -/
def second : List Char := "b)".toList

theorem parseWithin_first :
    parseWithin 985 first = .ok [.list [.sym "quote", .sym "a"]] := by
  have htokens : Token.meaningful first = [⟨.quote, ['\''], 0⟩, ⟨.atom, ['a'], 1⟩] := by
    decide +kernel
  rw [parseWithin, nesting, parseAll, htokens]
  rfl

theorem parseWithin_second :
    parseWithin 985 second = .error (.malformed ⟨.strayBracket, 1⟩) := by
  have htokens : Token.meaningful second = [⟨.atom, ['b'], 0⟩, ⟨.closeBracket, [')'], 1⟩] := by
    decide +kernel
  rw [parseWithin, nesting, parseAll, htokens]
  rfl

end StrayBracket

/-- The note goes as far as the newline, and the bracket in the second line is told of at its place
in the whole. -/
theorem Evaluation.successive_texts_stray :
    let setting : Setting := .standard FileTree.empty (.ofLocation [])
    (∀ e, Reader.parseWithin setting.nestingLimit StrayBracket.first = .error (.malformed e) →
      e.isIncomplete = false) ∧
    Reader.parseWithin setting.nestingLimit (StrayBracket.first ++ '\n' :: StrayBracket.second) =
      .error (.malformed ⟨.strayBracket, 11⟩) := by
  intro setting
  have hfirst : Reader.parseWithin setting.nestingLimit StrayBracket.first = _ :=
    StrayBracket.parseWithin_first
  have hsecond : Reader.parseWithin setting.nestingLimit StrayBracket.second = _ :=
    StrayBracket.parseWithin_second
  have hfinished : ∀ e, Reader.parseWithin setting.nestingLimit StrayBracket.first =
      .error (.malformed e) → e.isIncomplete = false := by
    rw [hfirst]
    nofun
  refine ⟨hfinished, ?_⟩
  have hjoined := (Evaluation.successive_texts setting hfinished StrayBracket.second).1
  rw [hfirst, hsecond] at hjoined
  exact hjoined

end SmallLisp
