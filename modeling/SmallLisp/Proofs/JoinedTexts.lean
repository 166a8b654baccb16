import SmallLisp.Proofs.ReadingLoops

/-! # Texts joined by newlines

A newline ends every token that could go on, a comment or an atom, and it begins none.  So if a text
can be read to its end and nothing is unfinished then, what stands behind a newline after it is read
as by itself: the expressions of both come one after the other, and nothing is nested more deeply
(`Reader.parseAll_newline`).

For scripts this says that texts without anything wrong in them can be joined by newlines, and the
script of the whole has the expressions of all of them (`Script.ofText_join`).
-/
namespace SmallLisp

namespace Text
variable {α : Type} (between : List α)

theorem join_cons (piece : List α) {more : List (List α)} (h : more ≠ []) :
    join between (piece :: more) = piece ++ (between ++ join between more) := by
  cases more with
  | nil => exact absurd rfl h
  | cons next more => exact List.append_assoc ..

theorem join_append {pieces more : List (List α)} (hp : pieces ≠ []) (hm : more ≠ []) :
    join between (pieces ++ more) = join between pieces ++ (between ++ join between more) := by
  induction pieces with
  | nil => exact absurd rfl hp
  | cons piece pieces ih =>
    cases pieces with
    | nil => exact join_cons between piece hm
    | cons next pieces =>
      have hnext := List.cons_ne_nil next pieces
      have hboth : next :: pieces ++ more ≠ [] := List.append_ne_nil_of_left_ne_nil hnext _
      rw [List.cons_append, join_cons _ _ hboth, ih hnext, join_cons _ _ hnext, List.append_assoc,
        List.append_assoc]

/-- Pieces can be joined in groups, and then the groups. -/
theorem join_flatMap {β : Type} {groups : List β} {pieces : β → List (List α)}
    (h : ∀ g ∈ groups, pieces g ≠ []) :
    join between (groups.flatMap pieces) =
      join between (groups.map fun g => join between (pieces g)) := by
  induction groups with
  | nil => rfl
  | cons g groups ih =>
    obtain ⟨hg, hgroups⟩ := List.forall_mem_cons.1 h
    cases groups with
    | nil => rw [List.flatMap_cons, List.flatMap_nil, List.append_nil]; rfl
    | cons g' groups =>
      have hmore : (g' :: groups).flatMap pieces ≠ [] := by
        rw [List.flatMap_cons]
        exact List.append_ne_nil_of_left_ne_nil (List.forall_mem_cons.1 hgroups).1 _
      have hjoined : (g' :: groups).map (fun g => join between (pieces g)) ≠ [] :=
        List.cons_ne_nil _ _
      rw [List.flatMap_cons, join_append _ hg hmore, ih hgroups]
      exact (join_cons between _ hjoined).symm

end Text

namespace Reader
open Token

theorem progress_of_parseAll {s : List Char} {vs : List Value} (h : parseAll s = .ok vs) :
    progress [] (Token.meaningful s) = ⟨vs, .ok []⟩ := by
  rw [parseAll_eq_outcome] at h
  rcases hp : progress [] (Token.meaningful s) with ⟨forms, e | _ | ⟨o, outer⟩⟩ <;> rw [hp] at h
  · cases h
  · cases h
    rfl
  · cases h

/-- Behind a newline there are the tokens of a text by itself, if no string is left open before. -/
theorem meaningful_newline {s : List Char} (h : ∀ t ∈ meaningful s, t.kind ≠ .unterminated)
    (u : List Char) :
    meaningful (s ++ '\n' :: u) =
      meaningful s ++ (meaningful u).map (Token.shift (s.length + 1)) := by
  rw [meaningful_eq_meaningfulFrom, meaningfulFrom_newline h, Nat.zero_add,
    meaningful_shift (s.length + 1), ← meaningful_eq_meaningfulFrom]

/-- **Behind a finished text and a newline, a text is read as by itself.** -/
theorem parseAll_newline {s : List Char} {vs : List Value} (h : parseAll s = .ok vs)
    (u : List Char) :
    parseAll (s ++ '\n' :: u) =
      ((parseAll u).mapError (SyntaxError.shift (s.length + 1))).map (vs ++ ·) ∧
    nesting (s ++ '\n' :: u) = max (nesting s) (nesting u) := by
  have hread := progress_of_parseAll h
  have htokens := meaningful_newline (kind_ne_of_progress (congrArg Progress.ending hread)) u
  have hbehind : progress [] ((Token.meaningful u).map (Token.shift (s.length + 1))) =
      (progress [] (Token.meaningful u)).shift (s.length + 1) := progress_shift _ [] _
  constructor
  · rw [parseAll_eq_outcome, htokens, progress_append, hread]
    simp only [Progress.goOn, hbehind, Progress.outcome_after, Progress.outcome_shift,
      ← parseAll_eq_outcome]
  · rw [nesting, htokens, peak_append, hread]
    exact congrArg (max _) (peak_shift _ [] _)

end Reader

namespace Script
variable {limit : Nat} {s : List Char}

theorem ofText_newline {u : List Char} (hs : (ofText limit s).stop? = none)
    (hu : (ofText limit u).stop? = none) :
    ofText limit (s ++ '\n' :: u) = ⟨(ofText limit s).forms ++ (ofText limit u).forms, none⟩ := by
  obtain ⟨hnesting, hparse⟩ := ReadingLoop.parseAll_of_script hs
  obtain ⟨hnesting', hparse'⟩ := ReadingLoop.parseAll_of_script hu
  obtain ⟨hboth, hdepth⟩ := Reader.parseAll_newline hparse u
  refine ReadingLoop.script_of_parseAll (hdepth ▸ Nat.max_le.2 ⟨hnesting, hnesting'⟩) ?_
  rw [hboth, hparse']
  rfl

/-- **Texts can be joined by newlines** if nothing stops the reading of any of them. -/
theorem ofText_join {texts : List (List Char)}
    (h : ∀ text ∈ texts, (ofText limit text).stop? = none) :
    ofText limit (Text.join ['\n'] texts) =
      ⟨texts.flatMap fun text => (ofText limit text).forms, none⟩ := by
  induction texts with
  | nil => exact ofText_nil limit
  | cons text more ih =>
    obtain ⟨htext, hmore⟩ := List.forall_mem_cons.1 h
    cases more with
    | nil =>
      rw [List.flatMap_cons, List.flatMap_nil, List.append_nil]
      exact congrArg (Script.mk _) htext
    | cons next more =>
      have hrest := ih hmore
      have hnewline := ofText_newline htext (congrArg Script.stop? hrest)
      rw [hrest] at hnewline
      rw [List.flatMap_cons, ← hnewline, Text.join_cons _ _ (List.cons_ne_nil next more)]
      rfl

end Script

end SmallLisp
