import SmallLisp.Number.Numeral
import SmallLisp.Text.Blank

/-! # Texts that denote numbers

A text may denote a number without being a numeral: there may be blanks around it and single
underscores between its digits, and there are words for infinity and for what is no number
(`Number.denotesNumber`).  The reader takes numerals only.  Numerals are denoted numbers, so the
conversion of a numeral does not fail (`Number.denotesNumber_of_parse?`).
-/
namespace SmallLisp

theorem Text.trim_of_forall {s : List Char} (h : ∀ c ∈ s, Text.isBlank c = false) :
    Text.trim s = s := by
  have hstart : Text.trimStart s = s := by
    cases s with
    | nil => rfl
    | cons c rest => exact List.dropWhile_cons_of_neg (by simp [h c List.mem_cons_self])
  have hend : s.reverse.dropWhile Text.isBlank = s.reverse := by
    cases hr : s.reverse with
    | nil => rfl
    | cons c rest =>
      have hc : c ∈ s := List.mem_reverse.1 (hr ▸ List.mem_cons_self)
      exact List.dropWhile_cons_of_neg (by simp [h c hc])
  rw [trim, hstart, trimEnd, hend, List.reverse_reverse]

namespace Number

/-- What follows a row of digits that has begun: more digits are taken, each of them with at most
one underscore before it. -/
def moreDigits : List Char → List Char
  | [] => []
  | '_' :: c :: rest => if Text.isDecimalDigit c then moreDigits rest else '_' :: c :: rest
  | c :: rest => if Text.isDecimalDigit c then moreDigits rest else c :: rest

/-- What follows the row of digits at the start of a text, if there is one. -/
def afterDigits? : List Char → Option (List Char)
  | [] => none
  | c :: rest => if Text.isDecimalDigit c then some (moreDigits rest) else none

/-- What follows the digits with at most one point at the start of a text, if there are any. -/
def afterMagnitude? (s : List Char) : Option (List Char) :=
  match afterDigits? s with
  | some ('.' :: rest) => some ((afterDigits? rest).getD rest)
  | some rest => some rest
  | none =>
    match s with
    | '.' :: rest => afterDigits? rest
    | _ => none

/-- Whether a text is an exponent or nothing at all. -/
def isExponent : List Char → Bool
  | [] => true
  | c :: rest => (c == 'e' || c == 'E') && afterDigits? (Numeral.takeSign rest).2 == some []

/-- Whether a text is a word for a number, in letters of either case. -/
def isNumberWord (s : List Char) : Bool :=
  ["inf", "infinity", "nan"].any fun word => word.toList == s.map Char.toLower

/-- Whether a text denotes a number.  This is much more than numerals: there may be blanks around
it and underscores between its digits, and there are words for infinity and for no number. -/
def denotesNumber (s : List Char) : Bool :=
  let unsigned := (Numeral.takeSign (Text.trim s)).2
  isNumberWord unsigned || (afterMagnitude? unsigned).any isExponent

open Numeral

theorem moreDigits_of_takeDigits {s rest : List Char} {ds : List Nat}
    (h : takeDigits s = (ds, rest)) (hrest : rest.head? ≠ some '_') : moreDigits s = rest := by
  fun_induction moreDigits s generalizing ds with
  | case1 =>
    cases h
    rfl
  | case2 c more _ _ =>
    -- an underscore is no digit, so nothing would have been taken
    cases h
    exact absurd rfl hrest
  | case3 c more _ =>
    cases h
    rfl
  | case4 c more _ hdigit ih =>
    obtain ⟨d, hd⟩ := Option.isSome_iff_exists.1 hdigit
    rw [takeDigits, hd] at h
    cases h
    exact ih rfl
  | case5 c more _ hdigit =>
    rw [takeDigits, Option.not_isSome_iff_eq_none.1 hdigit] at h
    cases h
    rfl

theorem afterDigits?_of_takeDigits {s rest : List Char} {ds : List Nat}
    (h : takeDigits s = (ds, rest)) (hds : ds ≠ []) (hrest : rest.head? ≠ some '_') :
    afterDigits? s = some rest := by
  cases s with
  | nil =>
    cases h
    exact absurd rfl hds
  | cons c more =>
    rw [takeDigits] at h
    rcases hd : Text.digitValue? c with _ | d
    · rw [hd] at h
      cases h
      exact absurd rfl hds
    · rw [hd] at h
      cases h
      have hdigit : Text.isDecimalDigit c = true := Option.isSome_iff_exists.2 ⟨d, hd⟩
      rw [afterDigits?, if_pos hdigit, moreDigits_of_takeDigits rfl hrest]

/-- Where no digit is taken, no row of digits starts. -/
theorem afterDigits?_of_takeDigits_nil {s rest : List Char} (h : takeDigits s = ([], rest)) :
    afterDigits? s = none ∧ rest = s := by
  cases s with
  | nil =>
    cases h
    exact ⟨rfl, rfl⟩
  | cons c more =>
    rw [takeDigits] at h
    rcases hd : Text.digitValue? c with _ | d
    · rw [hd] at h
      cases h
      have hdigit : ¬ Text.isDecimalDigit c = true := by simp [Text.isDecimalDigit, hd]
      exact ⟨if_neg hdigit, rfl⟩
    · rw [hd] at h
      cases h

/-- An exponent is one for numbers of all kinds, and starts neither with a point nor with an
underscore. -/
theorem isExponent_of_exponent? {s : List Char} {e : Int} (h : exponent? s = some e) :
    isExponent s = true ∧ ∀ c ∈ s.head?, c ≠ '.' ∧ c ≠ '_' := by
  cases s with
  | nil => exact ⟨rfl, fun _ hc => by cases hc⟩
  | cons c rest =>
    rw [exponent?] at h
    split at h
    next hc =>
      refine ⟨?_, ?_⟩
      · rw [isExponent]
        rcases hdigits : takeDigits (takeSign rest).2 with ⟨_ | ⟨d, ds⟩, _ | ⟨x, more⟩⟩
        · simp only [hdigits] at h
          cases h
        · simp only [hdigits] at h
          cases h
        · rw [afterDigits?_of_takeDigits hdigits (List.cons_ne_nil d ds) (by decide)]
          simpa using hc
        · simp only [hdigits] at h
          cases h
      · intro d hd
        cases hd
        rcases hc with rfl | rfl
        · decide
        · decide
    · cases h

/-- The part of a numeral between its sign and its exponent. -/
theorem afterMagnitude?_of_parse? {unsigned afterWhole afterFraction : List Char}
    {whole fraction : List Nat} (hwhole : takeDigits unsigned = (whole, afterWhole))
    (hfraction : takeFraction afterWhole = (fraction, afterFraction))
    (hsome : ¬ (whole = [] ∧ fraction = []))
    (hend : ∀ c ∈ afterFraction.head?, c ≠ '.' ∧ c ≠ '_') :
    afterMagnitude? unsigned = some afterFraction := by
  have hunderscore : afterFraction.head? ≠ some '_' :=
    fun h => (hend '_' h).2 rfl
  unfold takeFraction at hfraction
  split at hfraction
  next rest =>
    by_cases hnone : whole = []
    · subst hnone
      obtain ⟨hdigits, rfl⟩ := afterDigits?_of_takeDigits_nil hwhole
      have hne : fraction ≠ [] := fun hf => hsome ⟨rfl, hf⟩
      unfold afterMagnitude?
      rw [hdigits]
      exact afterDigits?_of_takeDigits hfraction hne hunderscore
    · have hdigits : afterDigits? unsigned = some ('.' :: rest) :=
        afterDigits?_of_takeDigits hwhole hnone (by simp)
      unfold afterMagnitude?
      rw [hdigits]
      by_cases hf : fraction = []
      · subst hf
        obtain ⟨hmore, rfl⟩ := afterDigits?_of_takeDigits_nil hfraction
        simp only [hmore, Option.getD_none]
      · simp only [afterDigits?_of_takeDigits hfraction hf hunderscore, Option.getD_some]
  next hpoint =>
    cases hfraction
    have hne : whole ≠ [] := fun hw => hsome ⟨hw, rfl⟩
    unfold afterMagnitude?
    rw [afterDigits?_of_takeDigits hwhole hne hunderscore]
    split
    next rest heq =>
      cases heq
      exact absurd rfl (hend '.' rfl).1
    next heq => exact heq.symm
    next heq => cases heq

/-- **A numeral without blanks denotes a number.** -/
theorem denotesNumber_of_parse? {s : List Char} {n : Numeral} (h : parse? s = some n)
    (hblank : ∀ c ∈ s, Text.isBlank c = false) : denotesNumber s = true := by
  rcases hwhole : takeDigits (takeSign s).2 with ⟨whole, afterWhole⟩
  rcases hfraction : takeFraction afterWhole with ⟨fraction, afterFraction⟩
  simp only [parse?, hwhole, hfraction] at h
  split at h
  next hnone => cases h
  next hsome =>
    obtain ⟨e, hexponent, -⟩ := Option.map_eq_some_iff.1 h
    obtain ⟨hisExponent, hend⟩ := isExponent_of_exponent? hexponent
    have hmagnitude := afterMagnitude?_of_parse? hwhole hfraction hsome hend
    rw [denotesNumber, Text.trim_of_forall hblank, hmagnitude, Option.any_some, hisExponent,
      Bool.or_true]

end Number

end SmallLisp
