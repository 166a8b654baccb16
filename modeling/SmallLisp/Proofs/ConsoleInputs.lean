import Mathlib.Data.List.Induction
import SmallLisp.Proofs.EvaluationFaults
import SmallLisp.Proofs.JoinedTexts
import SmallLisp.Proofs.PastOutput

/-! # What the console evaluates

The console is given one line after the other, and has to make out the inputs in them.  An input
begins with a line that is not blank and ends with the first line that makes its text complete
(`Console.Input`); what is left at the end is an input that has only begun (`Console.Begun`), and
between two inputs there are at most blank lines.  Any lines that do not end the console can be cut
into inputs like this (`Console.exists_cut`).

The text of an input is that of its lines, with newlines between them, except that the characters of
a blank line are lost (`Console.taken`).  A console over the lines does what evaluating the texts
one after the other does, up to what is printed (`Console.runs_parts`); and if no evaluation fails,
that is what evaluating all the lines at once does (`Interpreter.eval_join`).
`Console.evaluates_typed` puts both together.
-/
namespace SmallLisp
open Evaluation

/-! ## Texts one after the other -/

namespace Interpreter
variable {setting : Setting} {interpreter : Interpreter}

/-- Evaluates texts one after the other as long as none fails, and gives the value of the last one
with an expression in it, or `last` if there is none. -/
def evalTexts (setting : Setting) (interpreter : Interpreter) (last : Value) :
    List (List Char) → Action Value
  | [] => pure last
  | text :: more => do
    let v ← interpreter.eval setting text
    let isEmpty := (Script.ofText setting.nestingLimit text).forms.isEmpty
    interpreter.evalTexts setting (if isEmpty then last else v) more

/-- A text that is evaluated without failing has nothing wrong in it. -/
theorem of_run_eval {text : List Char} {s t : Store} {v : Value}
    (h : (interpreter.eval setting text).run s = (.ok v, t)) :
    (Script.ofText setting.nestingLimit text).stop? = none ∧
      (evalForms (interpreter.evaluator setting) interpreter.scope .nil
        (Script.ofText setting.nestingLimit text).forms).run s = (.ok v, t) := by
  rw [Interpreter.eval, evaluateText, run_runScript] at h
  rcases hforms : (evalForms (interpreter.evaluator setting) interpreter.scope .nil
    (Script.ofText setting.nestingLimit text).forms).run s with ⟨f | w, u⟩
  · rw [hforms] at h
    cases h
  · rw [hforms] at h
    cases hstop : (Script.ofText setting.nestingLimit text).stop? with
    | none =>
      rw [hstop] at h
      exact ⟨rfl, h⟩
    | some stop =>
      rw [hstop] at h
      cases h

theorem of_run_evalTexts {texts : List (List Char)} {last v : Value} {s t : Store}
    (h : (interpreter.evalTexts setting last texts).run s = (.ok v, t)) :
    (∀ text ∈ texts, (Script.ofText setting.nestingLimit text).stop? = none) ∧
      (evalForms (interpreter.evaluator setting) interpreter.scope last
        (texts.flatMap fun text => (Script.ofText setting.nestingLimit text).forms)).run s =
          (.ok v, t) := by
  induction texts generalizing last s with
  | nil => exact ⟨nofun, h⟩
  | cons text more ih =>
    rw [evalTexts, Action.run_bind] at h
    rcases htext : (interpreter.eval setting text).run s with ⟨f | w, u⟩
    · rw [htext] at h
      cases h
    · rw [htext] at h
      obtain ⟨hstop, hforms⟩ := of_run_eval htext
      obtain ⟨hstops, hmore⟩ := ih h
      refine ⟨List.forall_mem_cons.2 ⟨hstop, hstops⟩, ?_⟩
      rw [List.flatMap_cons, run_evalForms_append, run_evalForms_last, hforms]
      exact hmore

/-- **Texts that are evaluated one after the other without failing can be evaluated at once**, with
newlines between them. -/
theorem eval_join {texts : List (List Char)} {v : Value} {s t : Store}
    (h : (interpreter.evalTexts setting .nil texts).run s = (.ok v, t)) :
    (interpreter.eval setting (Text.join ['\n'] texts)).run s = (.ok v, t) := by
  obtain ⟨hstops, hforms⟩ := of_run_evalTexts h
  rw [Interpreter.eval, evaluateText, run_runScript, Script.ofText_join hstops, hforms]

/-- A blank text changes nothing. -/
theorem evalTexts_blank {text : List Char} (h : Text.isAllBlank text = true) (last : Value)
    (more : List (List Char)) (s : Store) :
    (interpreter.evalTexts setting last (text :: more)).run s =
      (interpreter.evalTexts setting last more).run s := by
  have hscript : Script.ofText setting.nestingLimit text = ⟨[], none⟩ := by
    have hnone := Reader.parseOne_eq_none_of_blank h
    have htokens := Reader.meaningful_of_parseOne_eq_none hnone
    exact ReadingLoop.script_of_tokens htokens (Nat.zero_le _) rfl
  have hrun : (interpreter.eval setting text).run s = (.ok .nil, s) := by
    rw [Interpreter.eval, evaluateText, hscript]
    rfl
  rw [evalTexts, Action.run_bind, hrun, hscript]
  rfl

end Interpreter

namespace Console

/-! ## Lines and inputs -/

/-- A line as it becomes part of an input: of a blank one only the newline stays. -/
def taken (line : List Char) : List Char :=
  if Text.isAllBlank line then [] else line

/-- The text that lines make up. -/
def textOf (lines : List (List Char)) : List Char :=
  Text.join ['\n'] (lines.map taken)

/-- A line is neither blank nor ends all input, and behind so many lines of an input it is no
command that ends the console. -/
structure Takes (lines : List (List Char)) (line : List Char) : Prop where
  notBlank : Text.isAllBlank line = false
  notEnd : line ≠ "EOF".toList
  notExit : lines = [] → Text.trim line ∉ exitCommands

/-- Lines of an input that has begun and is not complete, or no lines at all. -/
inductive Begun (setting : Setting) : List (List Char) → Prop
  | nil : Begun setting []
  | text {lines : List (List Char)} {line : List Char} (h : Begun setting lines)
      (ht : Takes lines line) (hm : needsMore setting (textOf (lines ++ [line])) = .ok true) :
      Begun setting (lines ++ [line])
  | blank {lines : List (List Char)} {line : List Char} (h : Begun setting lines)
      (hne : lines ≠ []) (hb : Text.isAllBlank line = true) : Begun setting (lines ++ [line])

/-- A complete input: the lines with which it has begun, and the one that completes it. -/
structure Input (setting : Setting) where
  before : List (List Char)
  last : List Char
  begun : Begun setting before
  takes : Takes before last
  complete : needsMore setting (textOf (before ++ [last])) = .ok false

/-- A part of what is typed: a blank line while no input has begun, or an input. -/
inductive Part (setting : Setting) where
  | blank (line : List Char) (h : Text.isAllBlank line = true)
  | input (input : Input setting)

variable {setting : Setting}

def Input.lines (input : Input setting) : List (List Char) := input.before ++ [input.last]

/-- What is evaluated of an input. -/
def Input.text (input : Input setting) : List Char := textOf input.lines

namespace Part

def lines : Part setting → List (List Char)
  | blank line _ => [line]
  | input i => i.lines

def input? : Part setting → Option (Input setting)
  | blank _ _ => none
  | input i => some i

/-- The lines as they are evaluated, if they are. -/
def takenLines : Part setting → List (List Char)
  | blank line _ => [line]
  | input i => i.lines.map taken

end Part

/-- Lines cut into inputs; an input that has only begun may be left at the end. -/
structure Cut (setting : Setting) (lines : List (List Char)) where
  parts : List (Part setting)
  rest : List (List Char)
  begun : Begun setting rest
  lines_eq : lines = parts.flatMap Part.lines ++ rest

namespace Cut
variable {lines : List (List Char)}

def inputs (cut : Cut setting lines) : List (Input setting) := cut.parts.filterMap Part.input?

/-- The texts of the inputs, which the console evaluates. -/
def texts (cut : Cut setting lines) : List (List Char) := cut.inputs.map Input.text

/-- All lines up to the input that is left, as they are evaluated. -/
def takenLines (cut : Cut setting lines) : List (List Char) := cut.parts.flatMap Part.takenLines

end Cut

theorem taken_of_blank {line : List Char} (h : Text.isAllBlank line = true) : taken line = [] :=
  if_pos h

theorem Takes.taken_eq {lines : List (List Char)} {line : List Char} (h : Takes lines line) :
    taken line = line :=
  if_neg (by simp [h.notBlank])

theorem textOf_append {lines : List (List Char)} (h : lines ≠ []) (line : List Char) :
    textOf (lines ++ [line]) = textOf lines ++ '\n' :: taken line := by
  rw [textOf, List.map_append]
  exact Text.join_append ['\n'] (by simpa using h) (List.cons_ne_nil _ _)

theorem Begun.textOf_eq_nil_iff {lines : List (List Char)} (h : Begun setting lines) :
    textOf lines = [] ↔ lines = [] := by
  cases h with
  | nil => exact iff_of_true rfl rfl
  | @text lines line h ht _ =>
    refine iff_of_false ?_ (by simp)
    by_cases hlines : lines = []
    · rw [hlines, List.nil_append]
      change taken line ≠ []
      rw [ht.taken_eq]
      rintro rfl
      cases ht.notBlank
    · rw [textOf_append hlines]
      simp
  | blank h hne _ =>
    rw [textOf_append hne]
    simp

/-- What a console has pending of the lines makes up an input together with one more line. -/
theorem Begun.source {lines : List (List Char)} (h : Begun setting lines) {line : List Char}
    (ht : Takes lines line) {console : Console} (hp : console.pending = textOf lines) :
    console.source line = textOf (lines ++ [line]) := by
  rw [Console.source, hp]
  by_cases hlines : lines = []
  · rw [if_pos (h.textOf_eq_nil_iff.2 hlines), hlines]
    exact ht.taken_eq.symm
  · rw [if_neg (mt h.textOf_eq_nil_iff.1 hlines), textOf_append hlines, ht.taken_eq]

/-! ## One line -/

section Lines
variable (setting) (console : Console) {lines : List (List Char)} {line : List Char}

theorem ne_end_of_blank (h : Text.isAllBlank line = true) : line ≠ "EOF".toList := by
  rintro rfl
  revert h
  decide

theorem feed_blank (h : Text.isAllBlank line = true) (s : Store) :
    (console.feed setting line).run s =
      (.ok ({ console with
        pending := if console.pending = [] then [] else console.pending ++ ['\n'] }, false),
        s) := by
  rw [feed, if_neg (ne_end_of_blank h), if_pos h]
  by_cases hp : console.pending = []
  · rw [if_pos hp, if_pos hp, ← hp]
    rfl
  · rw [if_neg hp, if_neg hp]
    rfl

/-- What a console does with the text of an input so far. -/
def look (setting : Setting) (console : Console) (source : List Char) : Action (Console × Bool) :=
  match needsMore setting source with
  | .error f => throw f
  | .ok true => return ({ console with pending := source, prompt := secondaryPrompt }, false)
  | .ok false => do
    console.evaluate setting source
    return ({ console with count := console.count + 1 }.reset, false)

/-- A line that neither is blank nor ends the console is shown at most, and then the input is looked
at that it belongs to. -/
theorem feed_look (hend : line ≠ "EOF".toList) (hblank : Text.isAllBlank line = false)
    (hexit : ¬ (console.pending = [] ∧ Text.trim line ∈ exitCommands)) (s : Store) :
    ∃ s', s'.Agrees s ∧ (console.feed setting line).run s =
      (console.look setting (console.source line)).run s' := by
  rw [feed, if_neg hend, if_neg (by simp [hblank]), if_neg hexit]
  dsimp only
  by_cases hecho : console.echoesLines = true
  · rw [if_pos hecho, Action.run_bind]
    refine ⟨_, ?_, rfl⟩
    exact ⟨rfl, rfl⟩
  · rw [if_neg hecho]
    exact ⟨s, .rfl, rfl⟩

/-- A line that is taken is shown at most, and then its input is looked at. -/
theorem feed_takes (h : Begun setting lines) (ht : Takes lines line)
    (hp : console.pending = textOf lines) (s : Store) :
    ∃ s', s'.Agrees s ∧ (console.feed setting line).run s =
      (console.look setting (textOf (lines ++ [line]))).run s' := by
  have hexit : ¬ (console.pending = [] ∧ Text.trim line ∈ exitCommands) :=
    fun hboth => ht.notExit (h.textOf_eq_nil_iff.1 (hp ▸ hboth.1)) hboth.2
  rw [← h.source ht hp]
  exact feed_look setting console ht.notEnd ht.notBlank hexit s

/-- A line is fed to the console after the prompt. -/
theorem runEvents_line (line : List Char) (events : List Event) (s : Store) :
    ∃ s', s'.Agrees s ∧ (runEvents setting console (.line line :: events)).run s =
      match (console.feed setting line).run s' with
      | (.error f, t) => (.ok ⟨console, some f⟩, t)
      | (.ok (next, true), t) => (.ok ⟨next, none⟩, t)
      | (.ok (next, false), t) => (runEvents setting next events).run t := by
  refine ⟨{ s with printed := ⟨.console, console.prompt⟩ :: s.printed }, ⟨rfl, rfl⟩, ?_⟩
  rw [runEvents, Action.run_bind]
  change (Action.attempt (console.feed setting line) >>= _ : Action Ending).run _ = _
  rw [Action.run_bind, Action.run_attempt]
  rcases (console.feed setting line).run
    { s with printed := ⟨.console, console.prompt⟩ :: s.printed } with ⟨f | ⟨next, _ | _⟩, t⟩
  all_goals rfl

end Lines

/-! ## Inputs -/

/-- The console when it has taken lines with which an input begins. -/
def taking (console : Console) (lines : List (List Char)) : Console :=
  { console with
    pending := textOf lines
    prompt := if lines = [] then console.prompt else secondaryPrompt }

/-- The console has taken the lines with which an input begins, and waits for more. -/
theorem Begun.runs {lines : List (List Char)} (h : Begun setting lines) {console : Console}
    (hp : console.pending = []) (events : List Event) (s : Store) :
    ∃ s', s'.Agrees s ∧ (runEvents setting console (lines.map .line ++ events)).run s =
      (runEvents setting (console.taking lines) events).run s' := by
  induction h generalizing events with
  | nil =>
    obtain ⟨interpreter, color, echoesLines, pending, prompt, count⟩ := console
    cases hp
    exact ⟨s, .rfl, rfl⟩
  | @text lines line h ht hm ih =>
    obtain ⟨s₁, h₁, hlines⟩ := ih (.line line :: events)
    obtain ⟨s₂, h₂, hline⟩ := runEvents_line setting (console.taking lines) line events s₁
    obtain ⟨s₃, h₃, hfeed⟩ := feed_takes setting (console.taking lines) h ht rfl s₂
    refine ⟨s₃, h₃.trans (h₂.trans h₁), ?_⟩
    rw [List.map_append, List.append_assoc, List.map_singleton, List.singleton_append, hlines,
      hline, hfeed, look, hm, taking, taking, if_neg (by simp : lines ++ [line] ≠ [])]
    rfl
  | @blank lines line h hne hb ih =>
    obtain ⟨s₁, h₁, hlines⟩ := ih (.line line :: events)
    obtain ⟨s₂, h₂, hline⟩ := runEvents_line setting (console.taking lines) line events s₁
    have hpending : (console.taking lines).pending ≠ [] := mt h.textOf_eq_nil_iff.1 hne
    refine ⟨s₂, h₂.trans h₁, ?_⟩
    rw [List.map_append, List.append_assoc, List.map_singleton, List.singleton_append, hlines,
      hline, feed_blank setting _ hb, if_neg hpending]
    simp only [taking, textOf_append hne, taken_of_blank hb, if_neg hne,
      if_neg (by simp : lines ++ [line] ≠ [])]

/-- What is pending and how many inputs there were does not matter when a text is evaluated. -/
theorem evaluate_taking (console : Console) (lines : List (List Char)) :
    evaluate setting (console.taking lines) = evaluate setting console := rfl

/-- The console takes the lines of an input and evaluates its text. -/
theorem Input.runs (input : Input setting) {console : Console} (hp : console.pending = [])
    (events : List Event) (s : Store) :
    ∃ s', s'.Agrees s ∧ (runEvents setting console (input.lines.map .line ++ events)).run s =
      match (console.evaluate setting input.text).run s' with
      | (.error f, t) => (.ok ⟨console.taking input.before, some f⟩, t)
      | (.ok _, t) =>
        (runEvents setting { console with count := console.count + 1 }.reset events).run t := by
  obtain ⟨s₁, h₁, hlines⟩ := input.begun.runs hp (.line input.last :: events) s
  obtain ⟨s₂, h₂, hline⟩ := runEvents_line setting (console.taking input.before) input.last events
    s₁
  obtain ⟨s₃, h₃, hfeed⟩ := feed_takes setting (console.taking input.before) input.begun
    input.takes rfl s₂
  refine ⟨s₃, h₃.trans (h₂.trans h₁), ?_⟩
  rw [Input.lines, List.map_append, List.append_assoc, List.map_singleton, List.singleton_append,
    hlines, hline, hfeed, look, input.complete, Input.text, Input.lines]
  simp only [Action.run_bind, evaluate_taking]
  rcases (console.evaluate setting (textOf (input.before ++ [input.last]))).run s₃ with ⟨f | _, t⟩
  · rfl
  · rfl

/-! ## Whole sessions -/

/-- Where the states agree, the console evaluates a text to the same end, and the states agree
again. -/
theorem evaluate_agrees {console : Console} {text : List Char} {s t s' : Store}
    {result : Except Fault Unit} (h : s.Agrees t)
    (hrun : (console.evaluate setting text).run s = (result, s')) :
    ∃ t', (console.evaluate setting text).run t = (result, t') ∧ s'.Agrees t' := by
  rw [run_evaluate] at hrun ⊢
  rcases hs : (console.interpreter.eval setting text).run s with ⟨f | v, u⟩
  · obtain ⟨u', ht, hagrees⟩ := Interpreter.eval_agrees h hs
    rw [hs, report] at hrun
    rw [ht, report]
    by_cases hf : f.isOfPath = true
    · rw [if_pos hf] at hrun ⊢
      cases hrun
      exact ⟨_, rfl, hagrees⟩
    · rw [if_neg hf] at hrun ⊢
      cases hrun
      exact ⟨_, rfl, hagrees.heap, hagrees.registry⟩
  · obtain ⟨u', ht, hagrees⟩ := Interpreter.eval_agrees h hs
    rw [hs, report] at hrun
    rw [ht, report]
    by_cases hw : v.isWritable setting.writingLimit = true
    · rw [if_pos hw] at hrun ⊢
      cases hrun
      exact ⟨_, rfl, hagrees.heap, hagrees.registry⟩
    · rw [if_neg hw] at hrun ⊢
      cases hrun
      exact ⟨_, rfl, hagrees⟩

/-- The fault with which an action ends, if it does. -/
def fault? {α : Type} : Except Fault α → Option Fault
  | .ok _ => none
  | .error f => some f

/-- A session is over: it came to the end that an outcome says, in a state that agrees, and if it
was not broken off, then with a text pending. -/
structure EndsLike (session : Except Fault Ending × Store) (outcome : Except Fault Unit × Store)
    (pending : List Char) : Prop where
  ending : ∃ ending, session.1 = .ok ending ∧ ending.fault? = fault? outcome.1 ∧
    (ending.fault? = none → ending.console.pending = pending)
  store : session.2.Agrees outcome.2

/-- **A console over lines does what evaluating the texts of the inputs does.** -/
theorem runs_parts (parts : List (Part setting)) {rest : List (List Char)}
    (hrest : Begun setting rest) {console : Console} (hp : console.pending = []) {s t : Store}
    (h : s.Agrees t) :
    EndsLike
      ((runEvents setting console ((parts.flatMap Part.lines ++ rest).map .line)).run s)
      ((forM ((parts.filterMap Part.input?).map Input.text) (console.evaluate setting)).run t)
      (textOf rest) := by
  induction parts generalizing console s t with
  | nil =>
    obtain ⟨s', hs', hruns⟩ := hrest.runs hp [] s
    rw [List.flatMap_nil, List.nil_append, ← List.append_nil (rest.map Event.line), hruns]
    exact ⟨⟨_, rfl, rfl, fun _ => rfl⟩, ⟨hs'.heap.trans h.heap, hs'.registry.trans h.registry⟩⟩
  | cons part parts ih =>
    -- prompts and lines are printed on the way, so the states do no more than agree
    rw [List.flatMap_cons, List.append_assoc, List.map_append]
    cases part with
    | blank line hb =>
      obtain ⟨s', hs', hline⟩ := runEvents_line setting console line
        ((parts.flatMap Part.lines ++ rest).map .line) s
      have hfeed : (console.feed setting line).run s' = (.ok (console, false), s') := by
        rw [feed_blank setting console hb, if_pos hp, ← hp]
      rw [hfeed] at hline
      rw [Part.lines, List.map_singleton, List.singleton_append, hline]
      exact ih hp (hs'.trans h)
    | input input =>
      obtain ⟨s', hs', hruns⟩ := input.runs hp ((parts.flatMap Part.lines ++ rest).map .line) s
      rw [Part.lines, hruns]
      change EndsLike _ ((forM (input.text :: (parts.filterMap Part.input?).map Input.text)
        (console.evaluate setting)).run t) _
      rw [List.forM_cons, Action.run_bind]
      rcases hs : (console.evaluate setting input.text).run s' with ⟨f | _, u⟩
      all_goals
        obtain ⟨u', ht, hagrees⟩ := evaluate_agrees (hs'.trans h) hs
        rw [ht]
      · exact ⟨⟨_, rfl, rfl, nofun⟩, hagrees⟩
      · let next : Console := { console with count := console.count + 1 }
        exact ih (rfl : next.reset.pending = []) hagrees

/-! ## The cut -/

theorem eq_of_needsMore_error {text : List Char} {f : Fault}
    (h : needsMore setting text = .error f) : f = .tooDeep := by
  unfold needsMore at h
  split at h
  · cases h
    rfl
  · split at h <;> cases h

/-- **Lines can be cut into inputs** up to one that ends the console, or in which more brackets and
quotes are inside one another than are allowed. -/
theorem exists_cut (setting : Setting) {lines : List (List Char)}
    (h : ∀ line ∈ lines, line ≠ "EOF".toList) :
    Nonempty (Cut setting lines) ∨
      ∃ before line after, lines = before ++ line :: after ∧ ∃ cut : Cut setting before,
        cut.rest = [] ∧ Text.trim line ∈ exitCommands ∨
        needsMore setting (textOf (cut.rest ++ [line])) = .error .tooDeep := by
  induction lines using List.reverseRecOn with
  | nil => exact .inl ⟨⟨[], [], .nil, rfl⟩⟩
  | append_singleton lines line ih =>
    -- the console is at the end of a cut, and one more line is typed
    obtain ⟨hlines, hline⟩ := List.forall_mem_append.1 h
    rcases ih hlines with ⟨⟨parts, rest, begun, rfl⟩⟩ | ⟨before, last, after, rfl, hbroken⟩
    · by_cases hb : Text.isAllBlank line = true
      · by_cases hrest : rest = []
        · refine .inl ⟨⟨parts ++ [.blank line hb], [], .nil, ?_⟩⟩
          rw [hrest, List.flatMap_append, List.append_nil, List.append_nil]
          rfl
        · exact .inl ⟨⟨parts, rest ++ [line], begun.blank hrest hb, List.append_assoc ..⟩⟩
      · by_cases hexit : rest = [] ∧ Text.trim line ∈ exitCommands
        · exact .inr ⟨_, line, [], rfl, ⟨parts, rest, begun, rfl⟩, .inl hexit⟩
        · have ht : Takes rest line :=
            ⟨by simpa using hb, hline line (List.mem_singleton_self line),
              fun hrest hmem => hexit ⟨hrest, hmem⟩⟩
          rcases hm : needsMore setting (textOf (rest ++ [line])) with f | _ | _
          · cases eq_of_needsMore_error hm
            exact .inr ⟨_, line, [], rfl, ⟨parts, rest, begun, rfl⟩, .inr hm⟩
          · refine .inl ⟨⟨parts ++ [.input ⟨rest, line, begun, ht, hm⟩], [], .nil, ?_⟩⟩
            rw [List.flatMap_append, List.append_nil, List.append_assoc, List.flatMap_singleton]
            rfl
          · exact .inl ⟨⟨parts, rest ++ [line], begun.text ht hm, List.append_assoc ..⟩⟩
    · refine .inr ⟨before, last, after ++ [line], ?_, hbroken⟩
      rw [List.append_assoc, List.cons_append]

/-! ## All lines at once -/

/-- What is evaluated of a part of what is typed, if it is at all. -/
def Part.text : Part setting → List Char
  | .blank line _ => line
  | .input i => i.text

theorem join_takenLines (parts : List (Part setting)) :
    Text.join ['\n'] (parts.flatMap Part.takenLines) =
      Text.join ['\n'] (parts.map Part.text) := by
  have hne : ∀ part ∈ parts, part.takenLines ≠ [] := by
    rintro (_ | input) -
    · exact List.cons_ne_nil _ _
    · simp [Part.takenLines, Input.lines]
  have htext : ∀ part : Part setting, Text.join ['\n'] part.takenLines = part.text := by
    rintro (_ | _) <;> rfl
  simp only [Text.join_flatMap _ hne, htext]

/-- Blank lines between the inputs can be evaluated or left out. -/
theorem evalTexts_parts (interpreter : Interpreter) (parts : List (Part setting)) (last : Value)
    (s : Store) :
    (interpreter.evalTexts setting last (parts.map Part.text)).run s =
      (interpreter.evalTexts setting last
        ((parts.filterMap Part.input?).map Input.text)).run s := by
  induction parts generalizing last s with
  | nil => rfl
  | cons part parts ih =>
    cases part with
    | blank line hb =>
      rw [List.map_cons, Part.text, Interpreter.evalTexts_blank hb, ih]
      rfl
    | input input =>
      change (interpreter.evalTexts setting last (input.text :: parts.map Part.text)).run s =
        (interpreter.evalTexts setting last
          (input.text :: (parts.filterMap Part.input?).map Input.text)).run s
      rw [Interpreter.evalTexts, Interpreter.evalTexts, Action.run_bind, Action.run_bind]
      rcases (interpreter.eval setting input.text).run s with ⟨f | v, t⟩
      · rfl
      · exact ih _ t

/-- Where no evaluation fails and the console is not broken off, it changes the scopes and the
modules as the evaluations do. -/
theorem agrees_of_evalTexts {console : Console} {texts : List (List Char)} {last v : Value}
    {s s' t t' : Store} (hs : s.Agrees s')
    (h : (console.interpreter.evalTexts setting last texts).run s = (.ok v, t))
    (h' : (forM texts (console.evaluate setting)).run s' = (.ok (), t')) : t.Agrees t' := by
  induction texts generalizing last s s' with
  | nil =>
    cases h
    cases h'
    exact hs
  | cons text more ih =>
    rw [Interpreter.evalTexts, Action.run_bind] at h
    rw [List.forM_cons, Action.run_bind, run_evaluate] at h'
    rcases htext : (console.interpreter.eval setting text).run s with ⟨f | w, u⟩
    · rw [htext] at h
      cases h
    · -- what the console shows in between is only printed
      obtain ⟨u', htext', hagrees⟩ := Interpreter.eval_agrees hs htext
      rw [htext] at h
      rw [htext', report] at h'
      by_cases hw : w.isWritable setting.writingLimit = true
      · rw [if_pos hw] at h'
        have hshown : u.Agrees (console.showing w u') := ⟨hagrees.heap, hagrees.registry⟩
        exact ih hshown h h'
      · rw [if_neg hw] at h'
        cases h'

/-- Lines of which the blank ones are empty are taken as they are. -/
theorem map_taken {lines : List (List Char)}
    (h : ∀ line ∈ lines, Text.isAllBlank line = true → line = []) : lines.map taken = lines := by
  refine (List.map_congr_left fun line hline => ?_).trans (List.map_id lines)
  rw [taken]
  split
  next hb => exact (h line hline hb).symm
  · rfl

/-- **The console evaluates what is typed**, except that the characters of a blank line inside an
input are lost.  Lines among which `EOF` is not can be cut into inputs, up to one that ends the
console or is too deeply nested.  A session over lines that are cut into inputs does what
evaluating the texts of the inputs one after the other does, and leaves the text pending of the
lines that are left.  If no evaluation fails and nothing is left, then evaluating all lines at once
gives the value of the last input with an expression in it; and if the console was not broken off,
it has the same scopes and modules after the session.  Where the blank lines in the inputs are
empty, the texts are those of the lines, unchanged. -/
theorem evaluates_typed (setting : Setting) (lines : List (List Char)) :
    ((∀ line ∈ lines, line ≠ "EOF".toList) →
      Nonempty (Cut setting lines) ∨
        ∃ before line after, lines = before ++ line :: after ∧ ∃ cut : Cut setting before,
          cut.rest = [] ∧ Text.trim line ∈ exitCommands ∨
          needsMore setting (textOf (cut.rest ++ [line])) = .error .tooDeep) ∧
    ∀ (cut : Cut setting lines) (console : Console) (s : Store), console.pending = [] →
      let session := (console.run setting (lines.map .line)).run s
      EndsLike session ((forM cut.texts (console.evaluate setting)).run s) (textOf cut.rest) ∧
      (∀ v t, (console.interpreter.evalTexts setting .nil cut.texts).run s = (.ok v, t) →
        cut.rest = [] →
        (console.interpreter.eval setting (Text.join ['\n'] cut.takenLines)).run s = (.ok v, t) ∧
        ∀ ending u, session = (.ok ending, u) → ending.fault? = none → u.Agrees t) ∧
      ((∀ input ∈ cut.inputs, ∀ line ∈ input.lines, Text.isAllBlank line = true → line = []) →
        cut.takenLines ++ cut.rest = lines ∧
        ∀ input ∈ cut.inputs, input.text = Text.join ['\n'] input.lines) := by
  refine ⟨exists_cut setting, ?_⟩
  intro cut console s hp session
  have hsession : EndsLike session ((forM cut.texts (console.evaluate setting)).run s)
      (textOf cut.rest) := by
    have hends := runs_parts cut.parts cut.begun hp
      (s := { s with printed := ⟨.console, intro ++ "\n"⟩ :: s.printed }) (t := s) ⟨rfl, rfl⟩
    rw [← cut.lines_eq] at hends
    exact hends
  refine ⟨hsession, fun v t h hrest => ⟨?_, fun ending u hend hfault => ?_⟩, fun hblank => ?_⟩
  · rw [Cut.takenLines, join_takenLines]
    exact Interpreter.eval_join ((evalTexts_parts _ cut.parts _ s).trans h)
  · obtain ⟨⟨ending', heq, hfault', -⟩, hagrees⟩ := hsession
    rw [hend] at heq hagrees
    cases heq
    rw [hfault] at hfault'
    rcases hrun : (forM cut.texts (console.evaluate setting)).run s with ⟨f | ⟨⟩, t'⟩
    · rw [hrun] at hfault'
      cases hfault'
    · rw [hrun] at hagrees
      exact hagrees.trans (agrees_of_evalTexts .rfl h hrun).symm
  · have htaken : ∀ input ∈ cut.inputs, input.lines.map taken = input.lines :=
      fun input hinput => map_taken (hblank input hinput)
    refine ⟨?_, fun input hinput => congrArg (Text.join ['\n']) (htaken input hinput)⟩
    have hparts : cut.takenLines = cut.parts.flatMap Part.lines := by
      refine List.flatMap_congr fun part hpart => ?_
      cases part with
      | blank line hb => rfl
      | input input => exact htaken input (List.mem_filterMap.2 ⟨_, hpart, rfl⟩)
    rw [hparts, ← cut.lines_eq]

/-! ## A string over three lines -/

end Console

namespace BrokenString
open Console

/-- Two blanks stand on the line in the middle. -/
def lines : List (List Char) := ["\"a".toList, "  ".toList, "b\"".toList]

/-- The text without the blanks. -/
def shortened : List Char := "\"a\n\nb\"".toList

theorem ofText_shortened (limit : Nat) :
    Script.ofText limit shortened = ⟨[.str "a\n\nb"], none⟩ := by
  have htokens : Token.meaningful shortened = [⟨.string, shortened, 0⟩] := by decide +kernel
  exact ReadingLoop.script_of_tokens htokens (Nat.zero_le limit) rfl

theorem ofText_typed (limit : Nat) :
    Script.ofText limit (Text.join ['\n'] lines) = ⟨[.str "a\n  \nb"], none⟩ := by
  have htokens : Token.meaningful (Text.join ['\n'] lines) =
      [⟨.string, Text.join ['\n'] lines, 0⟩] := by decide +kernel
  exact ReadingLoop.script_of_tokens htokens (Nat.zero_le limit) rfl

/-- The three lines are one input. -/
def input : Input NullSpecifier.setting where
  before := ["\"a".toList, "  ".toList]
  last := "b\"".toList
  begun := by
    have hopened : Begun NullSpecifier.setting ([] ++ ["\"a".toList]) :=
      .text .nil ⟨by decide, by decide, by decide⟩ (by decide +kernel)
    exact hopened.blank (by decide) (by decide)
  takes := ⟨by decide, by decide, by decide⟩
  complete := by decide +kernel

end BrokenString

/-- In a string that goes over three lines, the one in the middle blank, the console loses the
blanks: it shows another string than the one that is typed. -/
theorem Console.blanks_lost_in_string :
    let console := NullSpecifier.console
    let s := NullSpecifier.before
    (console.interpreter.eval NullSpecifier.setting (Text.join ['\n'] BrokenString.lines)).run s =
        (.ok (.str "a\n  \nb"), s) ∧
      ∃ ending t, (console.run NullSpecifier.setting (BrokenString.lines.map .line)).run s =
          (.ok ending, t) ∧ ⟨.console, "\"a\\n\\nb\"\n"⟩ ∈ t.printed := by
  intro console s
  have heval : ∀ (text : List Char) (value : String) (s : Store),
      Script.ofText NullSpecifier.setting.nestingLimit text = ⟨[.str value], none⟩ →
      (console.interpreter.eval NullSpecifier.setting text).run s = (.ok (.str value), s) := by
    intro text value s hscript
    rw [Interpreter.eval, evaluateText, hscript]
    rfl
  refine ⟨heval _ _ s (BrokenString.ofText_typed _), ?_⟩
  have hidle : console.pending = [] := rfl
  obtain ⟨s', -, hruns⟩ := BrokenString.input.runs hidle []
    { s with printed := ⟨.console, intro ++ "\n"⟩ :: s.printed }
  have hshown : (console.evaluate NullSpecifier.setting BrokenString.input.text).run s' =
      (.ok (), console.showing (.str "a\n\nb") s') := by
    have htext : BrokenString.input.text = BrokenString.shortened := by decide
    rw [run_evaluate, htext, heval _ _ s' (BrokenString.ofText_shortened _)]
    rfl
  rw [hshown] at hruns
  refine ⟨_, _, hruns, ?_⟩
  refine List.mem_cons_of_mem _ (List.mem_cons_of_mem _ (List.mem_cons.2 (.inl ?_)))
  decide +kernel

end SmallLisp
