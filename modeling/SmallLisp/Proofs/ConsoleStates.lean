import SmallLisp.Proofs.ConsoleInputs
import SmallLisp.Proofs.SuccessiveTexts

/-! # The states of the console

The fields of a console belong together, whatever it is fed: it prompts for more just if a text is
pending, what is pending is unfinished, and the number in the prompt counts the inputs that were
evaluated.  This holds after every line and every interruption, also after lines that are broken off
by a fault (`Console.Reached.invariant`).

A blank line inside an input adds a newline to what is pending.  That changes nothing about reading
it, since a newline at the end of a text ends at most its last token
(`Reader.parseWithin_append_newline`).
-/
namespace SmallLisp

/-! ## A newline at the end -/

namespace Reader
open Token Grammar

theorem closed_append {body more : List Char} (h : Closed body) (hmore : Closed more) :
    Closed (body ++ more) := by
  induction h with
  | nil => exact hmore
  | plain hb hq _ ih => exact .plain hb hq ih
  | pair c _ ih => exact .pair c ih

/-- What may stand inside a string does not close it. -/
theorem closeString_eq_none_of_closed {body : List Char} (h : Closed body) :
    closeString body = none := by
  induction h with
  | nil => rfl
  | plain hb hq _ ih => rw [closeString_plain hb hq, ih, Option.map_none]
  | pair c _ ih => rw [closeString, ih, Option.map_none]

/-- A newline does not close a string, not even behind a backslash. -/
theorem closeString_append_newline {s : List Char} (h : closeString s = none) :
    closeString (s ++ ['\n']) = none := by
  rcases closed_of_closeString_eq_none h with hclosed | ⟨body, rfl, hclosed⟩
  · exact closeString_eq_none_of_closed
      (closed_append hclosed (.plain (by decide) (by decide) .nil))
  · rw [List.append_assoc]
    exact closeString_eq_none_of_closed (closed_append hclosed (.pair '\n' .nil))

/-- **A newline at the end of a text changes nothing.** -/
theorem parseAll_append_newline (s : List Char) :
    parseAll (s ++ ['\n']) = parseAll s ∧ nesting (s ++ ['\n']) = nesting s := by
  cases hending : (progress [] (meaningful s)).ending with
  | ok stack =>
    have htokens : meaningful (s ++ ['\n']) = meaningful s := by
      rw [meaningful_newline (kind_ne_of_progress hending), meaningful_eq_meaningfulFrom [],
        meaningfulFrom_nil, List.map_nil, List.append_nil]
    rw [parseAll, parseAll, nesting, nesting, htokens]
    exact ⟨rfl, rfl⟩
  | error e =>
    have hparse : parseAll s = .error e := by
      rw [parseAll_eq_outcome, Progress.outcome, hending]
    obtain ⟨before, stack, t, after, htokens, hreached, hstep⟩ := exists_refused hending
    obtain ⟨c, rest, hcut⟩ := exists_cut htokens hreached
    rcases cases_of_step_refused hstep with ⟨hkind, -⟩ | ⟨-, hwrong⟩
    · -- the string goes on, and the reader stops at its beginning as before
      obtain ⟨rfl, hclose⟩ := split_unterminated (hcut.kind.trans hkind)
      have hrefused : step stack ⟨.unterminated, ['"'], t.offset⟩ = .refused e := by
        rw [← hstep]
        simp only [step, hkind]
      obtain ⟨after', hlonger⟩ : ∃ after', meaningful (s ++ ['\n']) =
          before ++ ⟨.unterminated, ['"'], t.offset⟩ :: after' := by
        rw [hcut.tokens, List.cons_append, meaningfulFrom_eq, nextToken_cons, split_doubleQuote,
          closeString_append_newline hclose]
        exact ⟨_, rfl⟩
      rw [hparse, (read_of_refused htokens hreached hstep).2]
      exact read_of_refused hlonger hreached hrefused
    · rw [hparse]
      exact parseAll_append_of_wrong hparse hwrong ['\n']

/-- **A newline at the end of a text changes nothing**, with a limit on nesting neither. -/
theorem parseWithin_append_newline (limit : Nat) (s : List Char) :
    parseWithin limit (s ++ ['\n']) = parseWithin limit s := by
  obtain ⟨hparse, hnesting⟩ := parseAll_append_newline s
  rw [parseWithin, parseWithin, hparse, hnesting]

end Reader

namespace Console
open Reader

/-! ## Prompts -/

theorem primaryPrompt_ne_secondaryPrompt (count : Nat) : primaryPrompt count ≠ secondaryPrompt := by
  intro h
  have hchars := congrArg String.toList h
  rw [primaryPrompt, String.toList_append, String.toList_append] at hchars
  exact absurd (List.cons_eq_cons.1 hchars).1 (by decide)

/-! ## What a line completes -/

section Lines
variable {setting : Setting} {console : Console} {line : List Char}

/-- More is awaited just of a text that is unfinished. -/
theorem needsMore_eq_true_iff {text : List Char} :
    needsMore setting text = .ok true ↔
      ∃ e, parseWithin setting.nestingLimit text = .error (.malformed e) ∧
        e.isIncomplete = true := by
  rw [needsMore, parseWithin]
  by_cases hdeep : setting.nestingLimit < nesting text
  · rw [if_pos hdeep, if_pos hdeep]
    simp
  · rw [if_neg hdeep, if_neg hdeep]
    rcases parseAll text with e | vs <;> simp [Except.mapError]

/-- The input that is complete with a line, which is what the interpreter is given when the line is
typed.  A line that ends the console or is blank completes nothing, nor does one after which the
text is unfinished or nested too deeply. -/
def completed? (setting : Setting) (console : Console) (line : List Char) : Option (List Char) :=
  if line = "EOF".toList ∨ Text.isAllBlank line = true ∨
      (console.pending = [] ∧ exitCommands.contains (Text.trim line) = true) then none
  else
    match needsMore setting (console.source line) with
    | .ok false => some (console.source line)
    | _ => none

/-- What is complete is not unfinished. -/
theorem not_isIncomplete_of_completed {text : List Char}
    (h : console.completed? setting line = some text) {e : SyntaxError}
    (he : parseWithin setting.nestingLimit text = .error (.malformed e)) :
    e.isIncomplete = false := by
  unfold completed? at h
  split at h
  · cases h
  split at h
  next hmore =>
    cases h
    by_contra hincomplete
    rw [Bool.not_eq_false] at hincomplete
    rw [needsMore_eq_true_iff.2 ⟨e, he, hincomplete⟩] at hmore
    cases hmore
  · cases h

/-- **What feeding a line to a console comes to.**  In all cases but the last two nothing is
evaluated, and the state changes in what is printed only. -/
inductive Fed (setting : Setting) (console : Console) (line : List Char) (s : Store) :
    Except Fault (Console × Bool) × Store → Prop
  | ended {t : Store} (hnone : console.completed? setting line = none) (ht : t.Agrees s)
      (h : line = "EOF".toList ∨ (console.pending = [] ∧ Text.trim line ∈ exitCommands)) :
      Fed setting console line s (.ok (console, true), t)
  | idle {t : Store} (hnone : console.completed? setting line = none) (ht : t.Agrees s)
      (hidle : console.pending = []) :
      Fed setting console line s (.ok (console, false), t)
  | blank {t : Store} (hnone : console.completed? setting line = none) (ht : t.Agrees s)
      (hpending : console.pending ≠ []) :
      Fed setting console line s
        (.ok ({ console with pending := console.pending ++ ['\n'] }, false), t)
  | unfinished {t : Store} (hnone : console.completed? setting line = none) (ht : t.Agrees s)
      (hsource : console.source line ≠ [])
      (h : needsMore setting (console.source line) = .ok true) :
      Fed setting console line s
        (.ok ({ console with pending := console.source line, prompt := secondaryPrompt }, false), t)
  | tooDeep {t : Store} (hnone : console.completed? setting line = none) (ht : t.Agrees s)
      (f : Fault) : Fed setting console line s (.error f, t)
  | failed {s' t : Store} {f : Fault}
      (hsome : console.completed? setting line = some (console.source line)) (hs : s'.Agrees s)
      (h : needsMore setting (console.source line) = .ok false)
      (hrun : (console.evaluate setting (console.source line)).run s' = (.error f, t)) :
      Fed setting console line s (.error f, t)
  | evaluated {s' t : Store}
      (hsome : console.completed? setting line = some (console.source line)) (hs : s'.Agrees s)
      (h : needsMore setting (console.source line) = .ok false)
      (hrun : (console.evaluate setting (console.source line)).run s' = (.ok (), t)) :
      Fed setting console line s (.ok ({ console with count := console.count + 1 }.reset, false), t)

theorem source_ne_nil (hblank : Text.isAllBlank line = false) : console.source line ≠ [] := by
  unfold source
  split
  · rintro rfl
    cases hblank
  · exact List.append_ne_nil_of_right_ne_nil _ (List.cons_ne_nil _ _)

theorem fed_feed (setting : Setting) (console : Console) (line : List Char) (s : Store) :
    Fed setting console line s ((console.feed setting line).run s) := by
  by_cases hend : line = "EOF".toList
  · have hnone : console.completed? setting line = none := if_pos (.inl hend)
    rw [feed, if_pos hend]
    exact .ended hnone ⟨rfl, rfl⟩ (.inl hend)
  by_cases hblank : Text.isAllBlank line = true
  · have hnone : console.completed? setting line = none := if_pos (.inr (.inl hblank))
    rw [feed, if_neg hend, if_pos hblank]
    by_cases hpending : console.pending = []
    · rw [if_pos hpending]
      exact .idle hnone .rfl hpending
    · rw [if_neg hpending]
      exact .blank hnone .rfl hpending
  by_cases hexit : console.pending = [] ∧ Text.trim line ∈ exitCommands
  · have hnone : console.completed? setting line = none :=
      if_pos (.inr (.inr (hexit.imp_right List.contains_iff_mem.2)))
    rw [feed, if_neg hend, if_neg hblank, if_pos hexit]
    exact .ended hnone .rfl (.inr hexit)
  rw [Bool.not_eq_true] at hblank
  have hcompleted : console.completed? setting line =
      match needsMore setting (console.source line) with
      | .ok false => some (console.source line)
      | _ => none :=
    if_neg fun h => h.elim hend fun h => h.elim (by simp [hblank]) fun h =>
      hexit (h.imp_right List.contains_iff_mem.1)
  obtain ⟨s', hs, hfeed⟩ := feed_look setting console hend hblank hexit s
  rw [hfeed, look]
  rcases hm : needsMore setting (console.source line) with f | _ | _
  · rw [hm] at hcompleted
    exact .tooDeep hcompleted hs f
  · rw [hm] at hcompleted
    simp only [Action.run_bind]
    rcases hrun : (console.evaluate setting (console.source line)).run s' with ⟨f | ⟨⟩, t⟩
    · exact .failed hcompleted hs hm hrun
    · exact .evaluated hcompleted hs hm hrun
  · rw [hm] at hcompleted
    exact .unfinished hcompleted hs (source_ne_nil hblank) hm

end Lines

/-! ## Sessions -/

/-- A console is in a consistent state: it prompts for what it awaits, and what is pending is
unfinished. -/
structure Consistent (limit : Nat) (console : Console) : Prop where
  idle : console.pending = [] → console.prompt = primaryPrompt console.count
  unfinished : console.pending ≠ [] → console.prompt = secondaryPrompt ∧
    ∃ e, parseWithin limit console.pending = .error (.malformed e) ∧ e.isIncomplete = true

/-- A console has got from its start to where it is by lines and interruptions, in whatever states
and with whatever files around, with a limit on nesting that stays.  Also kept are the texts that
the interpreter was given on the way, and those of them whose evaluation was carried through.  A
line that leads to a fault leaves the console as it is, and the session can go on; so it can after a
line that ends the console. -/
inductive Reached (limit : Nat) (start : Console) :
    Console → (given carried : List (List Char)) → Prop
  | start : Reached limit start start [] []
  | line {console next : Console} {given carried : List (List Char)}
      (h : Reached limit start console given carried) {setting : Setting}
      (hlimit : setting.nestingLimit = limit) {line : List Char} {ends : Bool} {s t : Store}
      (hfeed : (console.feed setting line).run s = (.ok (next, ends), t)) :
      Reached limit start next (given ++ (console.completed? setting line).toList)
        (carried ++ (console.completed? setting line).toList)
  | broken {console : Console} {given carried : List (List Char)}
      (h : Reached limit start console given carried) {setting : Setting}
      (hlimit : setting.nestingLimit = limit) {line : List Char} {f : Fault} {s t : Store}
      (hfeed : (console.feed setting line).run s = (.error f, t)) :
      Reached limit start console (given ++ (console.completed? setting line).toList) carried
  | interrupt {console next : Console} {given carried : List (List Char)}
      (h : Reached limit start console given carried) {s t : Store}
      (hinterrupt : console.interrupt.run s = (.ok next, t)) :
      Reached limit start next given carried

section States
variable {limit : Nat} {start console next : Console} {given carried : List (List Char)}

theorem consistent_reset (console : Console) : Consistent limit console.reset where
  idle _ := rfl
  unfinished h := absurd rfl h

/-- A line keeps the state consistent, and counts if it completes an input. -/
theorem Consistent.feed (h : Consistent limit console) {setting : Setting}
    (hlimit : setting.nestingLimit = limit) {line : List Char} {ends : Bool} {s t : Store}
    (hfeed : (console.feed setting line).run s = (.ok (next, ends), t)) :
    Consistent limit next ∧
      next.count = console.count + (console.completed? setting line).toList.length := by
  have hfed := fed_feed setting console line s
  rw [hfeed] at hfed
  cases hfed with
  | ended hnone =>
    rw [hnone]
    exact ⟨h, rfl⟩
  | idle hnone =>
    rw [hnone]
    exact ⟨h, rfl⟩
  | blank hnone _ hpending =>
    rw [hnone]
    obtain ⟨hprompt, herror⟩ := h.unfinished hpending
    refine ⟨⟨fun hnil => absurd hnil (by simp), fun _ => ⟨hprompt, ?_⟩⟩, rfl⟩
    rw [parseWithin_append_newline]
    exact herror
  | unfinished hnone _ hsource hmore =>
    rw [hnone]
    refine ⟨⟨fun hnil => absurd hnil hsource, fun _ => ⟨rfl, ?_⟩⟩, rfl⟩
    rw [← hlimit]
    exact needsMore_eq_true_iff.1 hmore
  | evaluated hsome =>
    rw [hsome]
    exact ⟨consistent_reset _, rfl⟩

theorem Reached.consistent (h : Reached limit start console given carried)
    (hstart : Consistent limit start) : Consistent limit console := by
  induction h with
  | start => exact hstart
  | line _ hlimit hfeed ih => exact (ih.feed hlimit hfeed).1
  | broken _ _ _ ih => exact ih
  | interrupt _ hinterrupt =>
    cases hinterrupt
    exact consistent_reset _

theorem Reached.count_eq (h : Reached limit start console given carried)
    (hstart : Consistent limit start) : console.count = start.count + carried.length := by
  induction h with
  | start => rfl
  | line h hlimit hfeed ih =>
    rw [((h.consistent hstart).feed hlimit hfeed).2, ih, List.length_append, Nat.add_assoc]
  | broken _ _ _ ih => exact ih
  | interrupt _ hinterrupt ih =>
    cases hinterrupt
    exact ih

/-- Nothing unfinished is given to the interpreter. -/
theorem Reached.given_complete (h : Reached limit start console given carried) :
    ∀ text ∈ given, ∀ e, parseWithin limit text = .error (.malformed e) →
      e.isIncomplete = false := by
  have hmore : ∀ {given : List (List Char)} {console : Console} {setting : Setting}
      {line : List Char}, setting.nestingLimit = limit →
      (∀ text ∈ given, ∀ e, parseWithin limit text = .error (.malformed e) →
        e.isIncomplete = false) →
      ∀ text ∈ given ++ (console.completed? setting line).toList, ∀ e,
        parseWithin limit text = .error (.malformed e) → e.isIncomplete = false := by
    rintro given console setting line rfl hgiven text htext e he
    rcases List.mem_append.1 htext with htext | htext
    · exact hgiven text htext e he
    · exact not_isIncomplete_of_completed (Option.mem_toList.1 htext) he
  induction h with
  | start => nofun
  | line _ hlimit _ ih => exact hmore hlimit ih
  | broken _ hlimit _ ih => exact hmore hlimit ih
  | interrupt _ _ ih => exact ih

theorem consistent_new (interpreter : Interpreter) (color echoesLines : Bool) :
    Consistent limit (.new interpreter color echoesLines) where
  idle _ := rfl
  unfinished h := absurd rfl h

/-- A line that completes an input has it evaluated, and one that completes none has nothing
evaluated. -/
theorem feed_completed (setting : Setting) (console : Console) (line : List Char) (s : Store) :
    (console.completed? setting line = none → ((console.feed setting line).run s).2.Agrees s) ∧
      ∀ text, console.completed? setting line = some text → ∃ s', s'.Agrees s ∧
        (console.feed setting line).run s =
          match (console.evaluate setting text).run s' with
          | (.error f, t) => (.error f, t)
          | (.ok (), t) => (.ok ({ console with count := console.count + 1 }.reset, false), t) := by
  have hfed := fed_feed setting console line s
  generalize (console.feed setting line).run s = outcome at hfed ⊢
  cases hfed with
  | ended hnone hs | idle hnone hs | blank hnone hs | unfinished hnone hs | tooDeep hnone hs =>
    exact ⟨fun _ => hs, fun text htext => absurd (hnone.symm.trans htext) nofun⟩
  | failed hsome hs _ hrun | evaluated hsome hs _ hrun =>
    refine ⟨fun hnone => absurd (hnone.symm.trans hsome) nofun, fun text htext => ⟨_, hs, ?_⟩⟩
    cases hsome.symm.trans htext
    rw [hrun]

/-- What ends a console. -/
theorem ends_of_feed {setting : Setting} {line : List Char} {s t : Store}
    (hfeed : (console.feed setting line).run s = (.ok (next, true), t)) :
    line = "EOF".toList ∨ (console.pending = [] ∧ Text.trim line ∈ exitCommands) := by
  have hfed := fed_feed setting console line s
  rw [hfeed] at hfed
  cases hfed with
  | ended _ _ h => exact h

/-- **What holds of a console in every session**: wherever a new console gets by lines, by
interruptions and by lines that are broken off by a fault,

* it prompts for more just if something is pending, and else for the input with the next number;
* what is pending is unfinished;
* the next number is one more than the number of inputs that were evaluated and told of;
* nothing unfinished was ever given to the interpreter, and
* a line ends it only if that is `EOF`, or if nothing is pending and the line is one of the exit
  commands.

What the interpreter is given for a line is the input that the line completes, if it does, and the
line changes no scope and no module else. -/
theorem Reached.invariant {interpreter : Interpreter} {color echoesLines : Bool}
    (h : Reached limit (.new interpreter color echoesLines) console given carried) :
    (console.pending ≠ [] ↔ console.prompt = secondaryPrompt) ∧
    (console.pending ≠ [] → ∃ e, parseWithin limit console.pending = .error (.malformed e) ∧
      e.isIncomplete = true) ∧
    (console.pending = [] → console.prompt = primaryPrompt console.count) ∧
    console.count = carried.length + 1 ∧
    (∀ text ∈ given, ∀ e, parseWithin limit text = .error (.malformed e) →
      e.isIncomplete = false) ∧
    ∀ (setting : Setting) (line : List Char) (s : Store),
      (∀ next t, (console.feed setting line).run s = (.ok (next, true), t) →
        line = "EOF".toList ∨ (console.pending = [] ∧ Text.trim line ∈ exitCommands)) ∧
      (console.completed? setting line = none → ((console.feed setting line).run s).2.Agrees s) ∧
      ∀ text, console.completed? setting line = some text → ∃ s', s'.Agrees s ∧
        (console.feed setting line).run s =
          match (console.evaluate setting text).run s' with
          | (.error f, t) => (.error f, t)
          | (.ok (), t) =>
            (.ok ({ console with count := console.count + 1 }.reset, false), t) := by
  have hnew : Consistent limit (.new interpreter color echoesLines) :=
    consistent_new interpreter color echoesLines
  have hconsole := h.consistent hnew
  refine ⟨⟨fun hpending => (hconsole.unfinished hpending).1, fun hprompt hidle => ?_⟩,
    fun hpending => (hconsole.unfinished hpending).2, hconsole.idle,
    (h.count_eq hnew).trans (Nat.add_comm ..), h.given_complete, fun setting line s => ?_⟩
  · exact primaryPrompt_ne_secondaryPrompt _ ((hconsole.idle hidle).symm.trans hprompt)
  · exact ⟨fun next t => ends_of_feed, feed_completed setting console line s⟩

end States

/-- After a line with an open bracket and a blank one, both are pending. -/
theorem Reached.invariant_open_bracket :
    ∃ console given carried,
      Reached 985 (.new ⟨4, false⟩ false false) console given carried ∧
      console.pending = "(+ 1\n".toList ∧ console.prompt = "...> " := by
  let start : Console := .new ⟨4, false⟩ false false
  have hmore : needsMore NullSpecifier.setting "(+ 1".toList = .ok true := by decide +kernel
  have hend : "(+ 1".toList ≠ "EOF".toList := by decide
  obtain ⟨s, -, hfeed⟩ := feed_look NullSpecifier.setting start hend (by decide) (by decide)
    NullSpecifier.before
  have hsource : start.source "(+ 1".toList = "(+ 1".toList := rfl
  rw [look, hsource, hmore] at hfeed
  have hstart : Reached 985 start start [] [] := .start
  have hopened := hstart.line rfl hfeed
  have hspaces : Text.isAllBlank "  ".toList = true := by decide
  have hblank := feed_blank NullSpecifier.setting
    { start with pending := "(+ 1".toList, prompt := secondaryPrompt } hspaces s
  have hlonger := hopened.line rfl hblank
  exact ⟨_, _, _, hlonger, rfl, hlonger.invariant.1.1 (by decide)⟩

end Console

end SmallLisp
