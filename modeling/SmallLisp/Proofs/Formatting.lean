import SmallLisp.Native.Strings
import SmallLisp.Proofs.ReadBack
import Mathlib.Data.List.Infix

/-! # Formatting

A format string is cut at its placeholders, and the gaps are filled with the display texts of the
arguments.  This comes to the same as going through the format string once from the left, copying
characters and writing the next argument wherever a placeholder begins (`StringFunction.scan`), so
that nothing that was written is looked at again.

There is only one way to cut a format string so that no piece holds a placeholder
(`StringFunction.IsCut`), and the `i`-th gap is filled with the `i`-th argument, or with the
placeholder if there are not so many.  An argument that fills a gap has to have a text; those beyond
the last gap do not matter (`StringFunction.format_fills`).
-/
namespace SmallLisp.StringFunction

variable {s before piece first : List Char} {rest : List (List Char)} {args extra : List Value}

/-- What stands in a gap: the display text of the argument for it, or the placeholder if there is no
argument. -/
def filling : Option Value → List Char
  | some v => v.display.toList
  | none => placeholder

/-- A format string read once from the left. -/
def scan : List Char → List Value → List Char
  | [], _ => []
  | '%' :: 's' :: rest, args => filling args.head? ++ scan rest args.tail
  | c :: rest, args => c :: scan rest args

/-- A format string is cut into a first piece and pieces that each follow a placeholder, and there
is no placeholder in any of them. -/
structure IsCut (s first : List Char) (rest : List (List Char)) : Prop where
  eq : s = first ++ rest.flatMap (placeholder ++ ·)
  first_free : ¬ placeholder <:+: first
  rest_free : ∀ piece ∈ rest, ¬ placeholder <:+: piece

/-! ## The pieces -/

/-- A character in front belongs to the first piece unless a placeholder begins with it. -/
theorem formatPieces_cons {c : Char} (hopens : ∀ t, c = '%' → s = 's' :: t → False)
    (hs : formatPieces s = first :: rest) : formatPieces (c :: s) = (c :: first) :: rest := by
  rw [formatPieces]
  · rw [hs]
  · exact hopens

/-- No placeholder begins in a piece without one, unless it goes on behind the piece. -/
theorem not_opens {c : Char} (hfree : ¬ placeholder <:+: c :: piece) (hs : s.head? ≠ some 's') :
    ∀ t, c = '%' → piece ++ s = 's' :: t → False := by
  rintro t rfl heq
  cases piece with
  | nil =>
    rw [List.nil_append] at heq
    exact hs (by rw [heq]; rfl)
  | cons d piece =>
    cases heq
    exact hfree ⟨[], piece, rfl⟩

/-- What is free of placeholders is a piece, if one begins behind it or nothing is left. -/
theorem formatPieces_append (hfree : ¬ placeholder <:+: piece) (hs : s.head? ≠ some 's')
    (hpieces : formatPieces s = [] :: rest) : formatPieces (piece ++ s) = piece :: rest := by
  induction piece with
  | nil => exact hpieces
  | cons c piece ih =>
    have hpiece := ih fun hinfix => hfree (List.infix_cons hinfix)
    exact formatPieces_cons (not_opens hfree hs) hpiece

/-- However a format string is cut, these are its pieces. -/
theorem IsCut.formatPieces_eq (hcut : IsCut s first rest) : formatPieces s = first :: rest := by
  induction rest generalizing s first with
  | nil =>
    rw [hcut.eq]
    exact formatPieces_append hcut.first_free nofun rfl
  | cons piece rest ih =>
    have hpiece : IsCut (piece ++ rest.flatMap (placeholder ++ ·)) piece rest :=
      ⟨rfl, hcut.rest_free piece List.mem_cons_self,
        fun p hp => hcut.rest_free p (List.mem_cons_of_mem _ hp)⟩
    have hpieces : formatPieces
        (placeholder ++ (piece ++ rest.flatMap (placeholder ++ ·))) = [] :: piece :: rest :=
      congrArg ([] :: ·) (ih hpiece)
    rw [hcut.eq, List.flatMap_cons, List.append_assoc]
    exact formatPieces_append hcut.first_free (by simp [placeholder]) hpieces

/-- The pieces of a format string cut it. -/
theorem isCut_formatPieces (s : List Char) :
    ∃ first rest, formatPieces s = first :: rest ∧ IsCut s first rest := by
  fun_induction formatPieces s with
  | case1 => exact ⟨[], [], rfl, rfl, by simp [placeholder], by simp⟩
  | case2 s ih =>
    obtain ⟨first, rest, hs, hcut⟩ := ih
    refine ⟨[], first :: rest, by rw [hs], ?_, by simp [placeholder], ?_⟩
    · rw [List.flatMap_cons, List.nil_append, List.append_assoc, ← hcut.eq]
      rfl
    · exact List.forall_mem_cons.2 ⟨hcut.first_free, hcut.rest_free⟩
  | case3 c s hopens hnil ih =>
    exact absurd hnil (formatPieces_ne_nil s)
  | case4 c s hopens first rest hs ih =>
    obtain ⟨first', rest', hs', hcut⟩ := ih
    rw [hs] at hs'
    cases hs'
    refine ⟨c :: first, rest, rfl, by rw [List.cons_append, ← hcut.eq], ?_, hcut.rest_free⟩
    intro hinfix
    rcases List.infix_cons_iff.1 hinfix with hbegins | hinfix
    · -- a placeholder at the beginning of the piece would be one at the beginning of the string
      obtain ⟨t, ht⟩ := hbegins
      cases ht
      exact hopens _ rfl hcut.eq
    · exact hcut.first_free hinfix

theorem existsUnique_isCut (s : List Char) :
    ∃! cut : List Char × List (List Char), IsCut s cut.1 cut.2 := by
  obtain ⟨first, rest, hs, hcut⟩ := isCut_formatPieces s
  refine ⟨(first, rest), hcut, fun other hother => ?_⟩
  have heq := hother.formatPieces_eq.symm.trans hs
  exact Prod.ext (List.cons.inj heq).1 (List.cons.inj heq).2

/-! ## The gaps -/

theorem fillGaps_cons (piece : List Char) (rest : List (List Char)) (args : List Value) :
    fillGaps (piece :: rest) args =
      filling args.head? ++ (piece ++ fillGaps rest args.tail) := by
  cases args with
  | nil => simp [fillGaps, filling]
  | cons v args => simp [fillGaps, filling, Value.display]

/-- Filling the gaps of a format string is going through it once. -/
theorem fill_eq_scan (s : List Char) (args : List Value) : fill s args = scan s args := by
  induction s, args using scan.induct with
  | case1 args => rfl
  | case2 s args ih =>
    obtain ⟨first, rest, hs, -⟩ := isCut_formatPieces s
    have hpieces : formatPieces ('%' :: 's' :: s) = [] :: first :: rest := by
      rw [formatPieces, hs]
    rw [scan, ← ih, fill, fill, hs, hpieces]
    exact fillGaps_cons first rest args
  | case3 c s args hopens ih =>
    obtain ⟨first, rest, hs, -⟩ := isCut_formatPieces s
    rw [scan, ← ih, fill, fill, formatPieces_cons hopens hs, hs]
    · rfl
    · exact hopens

/-- Each gap is filled with the argument in its place. -/
theorem fillGaps_drop (rest : List (List Char)) (args : List Value) (k : Nat) :
    fillGaps rest (args.drop k) =
      (rest.zipIdx k).flatMap fun gap => filling args[gap.2]? ++ gap.1 := by
  induction rest generalizing k with
  | nil => rfl
  | cons piece rest ih =>
    rw [fillGaps_cons, List.head?_drop, List.tail_drop, ih, List.zipIdx_cons, List.flatMap_cons,
      List.append_assoc]

theorem scan_eq_of_isCut (hcut : IsCut s first rest) (args : List Value) :
    scan s args = first ++ rest.zipIdx.flatMap fun gap => filling args[gap.2]? ++ gap.1 := by
  rw [← fill_eq_scan, fill, hcut.formatPieces_eq, ← fillGaps_drop, List.drop_zero]

/-- Without arguments the placeholders stay. -/
theorem scan_nil (s : List Char) : scan s [] = s := by
  generalize hargs : ([] : List Value) = args
  induction s, args using scan.induct with
  | case1 args => rfl
  | case2 s args ih =>
    subst hargs
    rw [scan]
    exact congrArg (placeholder ++ ·) (ih rfl)
  | case3 c s args hopens ih =>
    rw [scan]
    · rw [ih hargs]
    · exact hopens

/-- Arguments beyond the last gap do not matter. -/
theorem scan_append (hcut : IsCut s first rest) (hmany : rest.length ≤ args.length) :
    scan s (args ++ extra) = scan s args := by
  rw [scan_eq_of_isCut hcut, scan_eq_of_isCut hcut]
  refine congrArg (first ++ ·) (List.flatMap_congr fun gap hgap => ?_)
  have hlt : gap.2 < args.length := Nat.lt_of_lt_of_le (List.snd_lt_of_mem_zipIdx hgap) hmany
  rw [List.getElem?_append_left hlt]

/-! ## Whole calls -/

theorem apply_format {f : String} (hcut : IsCut f.toList first rest) (limit : Nat)
    (args : List Value) : format.apply limit (.str f :: args) =
      if ∀ v ∈ args.take rest.length, v.nesting ≤ limit then
        .ok (.str (String.ofList (scan f.toList args)))
      else .error .tooDeep := by
  have hgaps : (formatPieces f.toList).length - 1 = rest.length := by
    rw [hcut.formatPieces_eq, List.length_cons, Nat.add_sub_cancel]
  have hwritable : (args.take rest.length).all (Value.isWritable limit) = true ↔
      ∀ v ∈ args.take rest.length, v.nesting ≤ limit := by
    simp only [List.all_eq_true, Value.isWritable, decide_eq_true_eq]
  rw [apply, formatted]
  simp only [hgaps, hwritable, fill_eq_scan]

/-- What a format string makes of arguments. -/
structure Fills (f : String) (args : List Value) : Prop where
  /-- There is one way to cut the format string at its placeholders. -/
  cut : ∃! cut : List Char × List (List Char), IsCut f.toList cut.1 cut.2
  /-- If there is room for the lists of each argument that fills a gap, the answer is the text that
  one gets by going through the format string once.  Otherwise there is none. -/
  answer : ∀ limit first rest, IsCut f.toList first rest → format.apply limit (.str f :: args) =
    if ∀ v ∈ args.take rest.length, v.nesting ≤ limit then
      .ok (.str (String.ofList (scan f.toList args)))
    else .error .tooDeep
  /-- This text is made of the pieces, with the argument in its place before each piece but the
  first, or the placeholder where there is no argument. -/
  gaps : ∀ first rest, IsCut f.toList first rest → scan f.toList args =
    first ++ rest.zipIdx.flatMap fun gap => filling args[gap.2]? ++ gap.1
  /-- Arguments beyond the last gap change nothing, whatever they are. -/
  surplus : ∀ limit first rest, IsCut f.toList first rest → rest.length ≤ args.length → ∀ extra,
    format.apply limit (.str f :: (args ++ extra)) = format.apply limit (.str f :: args)
  /-- A format string alone is its own answer. -/
  alone : ∀ limit, format.apply limit [.str f] = .ok (.str f)

/-- **Formatting goes through the format string once from the left.**  The placeholders are found
where they begin first, without overlapping; the text of the arguments is not looked at. -/
theorem format_fills (f : String) (args : List Value) : Fills f args where
  cut := existsUnique_isCut f.toList
  answer limit first rest hcut := apply_format hcut limit args
  gaps first rest hcut := scan_eq_of_isCut hcut args
  surplus limit first rest hcut hmany extra := by
    rw [apply_format hcut, apply_format hcut, List.take_append_of_le_length hmany,
      scan_append hcut hmany]
  alone limit := by
    obtain ⟨first, rest, -, hcut⟩ := isCut_formatPieces f.toList
    rw [apply_format hcut, scan_nil, String.ofList_toList, List.take_nil]
    exact if_pos nofun

/-- A placeholder directly behind a percent sign, one in an argument, and too few arguments. -/
example : format.apply 0 [.str "%%s%s-%s", .str "%s", .nil] = .ok (.str "%%snil-%s") := by
  rfl

/-- An argument with 600 lists inside one another cannot fill a gap where there is no room for so
many. -/
theorem deep_argument_not_formatted :
    (Value.nested 599).nesting = 600 ∧
      ∀ limit < 600, format.apply limit [.str "%s", Value.nested 599] = .error .tooDeep := by
  refine ⟨Value.nesting_nested 599, fun limit hlimit => ?_⟩
  have hcut : IsCut "%s".toList [] [[]] := ⟨rfl, by decide, by decide⟩
  have hdeep : ¬ (Value.nested 599).nesting ≤ limit := by
    rw [Value.nesting_nested]
    exact Nat.not_le.2 hlimit
  rw [apply_format hcut, if_neg]
  exact fun hall => hdeep (hall _ List.mem_cons_self)

end SmallLisp.StringFunction
