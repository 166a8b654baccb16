import SmallLisp.Reader

/-! # Scripts

A script is what a text gives to an evaluator that reads it one expression at a time: the
expressions in order, and what stopped the reading if it was stopped.  After each expression the
reader starts anew on the text that is left, so the position of an error counts from where that
text begins.
-/
namespace SmallLisp

/-- Why reading stopped before the end of a text. -/
inductive ReadingStop where
  | malformed (e : SyntaxError)
  /-- More brackets and quotes inside one another than are allowed. -/
  | tooDeep
  deriving DecidableEq, Repr

/-- The expressions of a text, up to where reading stopped. -/
structure Script where
  forms : List Value
  stop? : Option ReadingStop

namespace Reader

theorem offset_pos_of_readOne {s : List Char} {v : Value} {t : Token} {rest : List Token}
    (h : readOne [] (Token.meaningful s) = .ok (some (v, t :: rest))) : 0 < t.offset := by
  obtain ⟨read, hne, hr⟩ := readOne_length h
  have hp := (Token.row_pairwise 0 s).filter fun t => !t.kind.isTrivia
  change (Token.meaningful s).Pairwise _ at hp
  rw [hr] at hp
  obtain ⟨first, more, rfl⟩ := List.exists_cons_of_ne_nil hne
  have := (List.pairwise_append.1 hp).2.2 first (by simp) t (by simp)
  omega

/-- The text after an expression is shorter than the text read. -/
theorem parseOne_length {s rest : List Char} {v : Value}
    (h : parseOne s = .ok (some (v, rest))) : rest.length < s.length := by
  have hs : s ≠ [] := by
    rintro rfl
    simp [parseOne, Token.meaningful, Token.row, readOne, Except.map] at h
  have hl := List.length_pos_iff.2 hs
  unfold parseOne at h
  cases hr : readOne [] (Token.meaningful s) with
  | error e => simp [hr, Except.map] at h
  | ok found =>
    cases found with
    | none => simp [hr, Except.map] at h
    | some p =>
      obtain ⟨w, tokens⟩ := p
      simp only [hr, Except.map, Option.map_some, Except.ok.injEq, Option.some.injEq,
        Prod.mk.injEq] at h
      obtain ⟨rfl, rfl⟩ := h
      cases tokens with
      | nil => simpa [textFrom] using hl
      | cons t tokens =>
        have := offset_pos_of_readOne hr
        simp only [textFrom, List.length_drop]
        omega

end Reader

namespace Script

/-- The script of a text, with a limit on the nesting of each expression. -/
def ofText (limit : Nat) (s : List Char) : Script :=
  if limit < Reader.nestingOfFirst s then ⟨[], some .tooDeep⟩
  else
    match _h : Reader.parseOne s with
    | .error e => ⟨[], some (.malformed e)⟩
    | .ok none => ⟨[], none⟩
    | .ok (some (v, rest)) =>
      let more := ofText limit rest
      ⟨v :: more.forms, more.stop?⟩
termination_by s.length
decreasing_by exact Reader.parseOne_length _h

end Script

end SmallLisp
