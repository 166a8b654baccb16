import SmallLisp.Error
import SmallLisp.Number.Numeral
import SmallLisp.Value.Printer

/-! # What a single token means

An atom is a number if it is a numeral, one of the three literals, or else the symbol of that
name.  A string token means its text with the escapes replaced.
-/
namespace SmallLisp.Reader

/-- The words that stand for values of their own. -/
def literal? (text : List Char) : Option Value :=
  if text = "true".toList then some (.bool true)
  else if text = "false".toList then some (.bool false)
  else if text = "nil".toList then some .nil
  else none

/-- The value of an atom. -/
def atom (text : List Char) : Value :=
  match Number.Numeral.read? text with
  | some x => .num x
  | none => (literal? text).getD (.sym (String.ofList text))

/-- The text of a string whose characters between the quotes are given, the first of them at
`position`. -/
def unescape (position : Nat) : List Char → Except SyntaxError (List Char)
  | [] => .ok []
  | '\\' :: c :: rest =>
    match stringEscapes.find? fun e => e.1 == c with
    | some e => (unescape (position + 2) rest).map (e.2 :: ·)
    | none => .error ⟨.unknownEscape c, position⟩
  | c :: rest => (unescape (position + 1) rest).map (c :: ·)

/-- Writing a string and replacing its escapes gives the string back. -/
theorem unescape_flatMap_escapeChar (position : Nat) (s : List Char) :
    unescape position (s.flatMap escapeChar) = .ok s := by
  induction s generalizing position with
  | nil => rfl
  | cons c s ih =>
    rw [List.flatMap_cons]
    cases h : stringEscapes.find? fun e => e.2 == c with
    | some e =>
      have he : e.2 = c := by simpa using List.find?_some h
      have hm := List.mem_of_find?_eq_some h
      have hf : stringEscapes.find? (fun e' => e'.1 == e.1) = some e := by
        simp only [stringEscapes, List.mem_cons, List.not_mem_nil, or_false] at hm
        rcases hm with rfl | rfl | rfl | rfl | rfl <;> rfl
      simp [escapeChar, h, unescape, hf, ih, he, Except.map]
    | none =>
      have hc : c ≠ '\\' := by
        rintro rfl
        simp [stringEscapes] at h
      simp only [escapeChar, h, List.cons_append, List.nil_append]
      rw [unescape]
      · simp [ih, Except.map]
      · intro _ _ hb
        exact absurd hb hc

end SmallLisp.Reader
