import SmallLisp.Text.LetterCase.Table
import SmallLisp.Text.Printable

/-! # Upper and lower case

The full case mappings of Unicode, which may turn one character into several, independent of any
language.  The only mapping that looks around itself is that of the capital sigma: at the end of
a word its lower case is the final sigma.
-/
namespace SmallLisp.Text

/-- The image of a character: its expansion, else its place in a run, else itself. -/
def mapCase (expansions : List (Nat × List Nat)) (runs : List CaseRun) (c : Char) : List Char :=
  match expansions.find? fun e => e.1 == c.toNat with
  | some e => e.2.map Char.ofNat
  | none => [(runs.findSome? fun run => run.image? c).getD c]

/-- The upper case of a text. -/
def upper (s : List Char) : List Char :=
  s.flatMap (mapCase upperExpansions upperRuns)

/-- Whether the nearest character that counts is a letter with case. -/
def meetsCased (s : List Char) : Bool :=
  match s.dropWhile (inRanges caseIgnorableRanges) with
  | [] => false
  | c :: _ => inRanges casedRanges c

/-- The lower case of the rest of a text; `before` holds the characters already passed, the
nearest first. -/
def lowerFrom (before : List Char) : List Char → List Char
  | [] => []
  -- final: a letter stands before it in its word and none after it
  | 'Σ' :: rest =>
    (if meetsCased before && !meetsCased rest then 'ς' else 'σ') ::
      lowerFrom ('Σ' :: before) rest
  | c :: rest => mapCase lowerExpansions lowerRuns c ++ lowerFrom (c :: before) rest

/-- The lower case of a text. -/
def lower (s : List Char) : List Char :=
  lowerFrom [] s

theorem upper_append (s t : List Char) : upper (s ++ t) = upper s ++ upper t := by
  simp [upper]

end SmallLisp.Text
