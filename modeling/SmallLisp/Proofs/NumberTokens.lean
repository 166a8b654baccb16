import SmallLisp.Proofs.RoundedNumbers
import SmallLisp.Proofs.TokenBoundaries

/-! # Which atoms are numbers

A number is spelled with an optional sign, digits with at most one point before, among or behind
them, and an optional exponent (`Number.Spelling`).  The digits may be those of any script.  A text
has one spelling at most (`Number.Spelling.text_injective`), because a sign, a point and the letter
of an exponent are no digits, so that every part ends where the next begins.

`Numeral.parse?` accepts the texts of spellings and no others (`Number.Numeral.parse?_text`,
`Number.Numeral.exists_spelling`), and what an accepted text is read as is what the exact value of
its spelling is rounded to.  All of this is `Reader.atom_reads_spellings`.
-/
namespace SmallLisp.Number

/-! ## Spellings -/

/-- Whether a text has no characters but decimal digits. -/
def AreDecimal (s : List Char) : Prop :=
  ∀ c ∈ s, Text.isDecimalDigit c = true

/-- The natural number that decimal digits denote, the last one being worth the least. -/
def digitsValue (s : List Char) : Nat :=
  Nat.ofDigits 10 (s.reverse.map fun c => (Text.digitValue? c).getD 0)

/-- The sign in front of digits. -/
inductive Sign where
  | absent
  | plus
  | minus
  deriving DecidableEq, Repr

namespace Sign

def text : Sign → List Char
  | absent => []
  | plus => ['+']
  | minus => ['-']

def isMinus : Sign → Bool
  | minus => true
  | _ => false

end Sign

/-- How the exponent of a number is spelled: a letter, a sign and digits. -/
structure ExponentSpelling where
  letter : Char
  sign : Sign
  digits : List Char
  letter_eq : letter = 'e' ∨ letter = 'E'
  decimal : AreDecimal digits
  digits_ne_nil : digits ≠ []

namespace ExponentSpelling

def text (x : ExponentSpelling) : List Char :=
  x.letter :: (x.sign.text ++ x.digits)

def value (x : ExponentSpelling) : Int :=
  if x.sign.isMinus then -(digitsValue x.digits : Int) else digitsValue x.digits

end ExponentSpelling

/-- How a number is spelled. -/
structure Spelling where
  sign : Sign
  /-- The digits before the point. -/
  whole : List Char
  /-- The digits behind the point, if there is a point. -/
  fraction? : Option (List Char)
  exponent? : Option ExponentSpelling
  whole_decimal : AreDecimal whole
  fraction_decimal : ∀ fraction, fraction? = some fraction → AreDecimal fraction
  some_digit : whole ≠ [] ∨ ∃ fraction, fraction? = some fraction ∧ fraction ≠ []

namespace Spelling

/-- A point and digits behind it, or nothing. -/
def fractionText : Option (List Char) → List Char
  | none => []
  | some fraction => '.' :: fraction

/-- An exponent, or nothing. -/
def exponentText : Option ExponentSpelling → List Char
  | none => []
  | some x => x.text

def text (p : Spelling) : List Char :=
  p.sign.text ++ (p.whole ++ (fractionText p.fraction? ++ exponentText p.exponent?))

/-- The digits behind the point. -/
def fraction (p : Spelling) : List Char :=
  p.fraction?.getD []

/-- The exponent that is written; it is zero if none is. -/
def exponent (p : Spelling) : Int :=
  (p.exponent?.map ExponentSpelling.value).getD 0

/-- The exact value of what is spelled. -/
def value (p : Spelling) : ℚ :=
  signFactor p.sign.isMinus *
    (digitsValue (p.whole ++ p.fraction) * 10 ^ (p.exponent - p.fraction.length))

end Spelling

/-! ## Where the parts of a spelling end -/

/-- A text that does not go on with a digit. -/
def NoDigitHead (t : List Char) : Prop :=
  ∀ c ∈ t.head?, Text.isDecimalDigit c = false

section Digits
variable {s s' t t' : List Char}

theorem AreDecimal.takeDigits_append (hs : AreDecimal s) (ht : NoDigitHead t) :
    Numeral.takeDigits (s ++ t) = (s.filterMap Text.digitValue?, t) := by
  obtain ⟨htake, hdrop⟩ := Token.span_of_ends hs ht
  refine Prod.ext ?_ ?_
  · rw [Numeral.takeDigits_digits, htake]
  · rw [Numeral.takeDigits_rest, hdrop]

/-- Digits end where what follows them begins. -/
theorem AreDecimal.append_inj (hs : AreDecimal s) (ht : NoDigitHead t) (hs' : AreDecimal s')
    (ht' : NoDigitHead t') (h : s ++ t = s' ++ t') : s = s' ∧ t = t' := by
  obtain ⟨htake, hdrop⟩ := Token.span_of_ends hs ht
  obtain ⟨htake', hdrop'⟩ := Token.span_of_ends hs' ht'
  rw [h] at htake hdrop
  exact ⟨htake.symm.trans htake', hdrop.symm.trans hdrop'⟩

theorem AreDecimal.append (hs : AreDecimal s) (ht : AreDecimal t) : AreDecimal (s ++ t) := by
  intro c hc
  rcases List.mem_append.1 hc with hc | hc
  · exact hs c hc
  · exact ht c hc

theorem noDigitHead_nil : NoDigitHead [] := nofun

theorem noDigitHead_exponentText (x? : Option ExponentSpelling) :
    NoDigitHead (Spelling.exponentText x?) := by
  cases x? with
  | none => exact noDigitHead_nil
  | some x =>
    rintro c ⟨⟩
    rcases x.letter_eq with h | h <;> rw [h] <;> rfl

theorem noDigitHead_fractionText (fraction? : Option (List Char))
    (x? : Option ExponentSpelling) :
    NoDigitHead (Spelling.fractionText fraction? ++ Spelling.exponentText x?) := by
  cases fraction? with
  | none => exact noDigitHead_exponentText x?
  | some fraction =>
    rintro c ⟨⟩
    rfl

end Digits

/-- A text that does not begin with a sign. -/
def NoSignHead (t : List Char) : Prop :=
  ∀ c, t.head? = some c → c ≠ '-' ∧ c ≠ '+'

theorem not_sign_of_isDecimalDigit {c : Char} (h : Text.isDecimalDigit c = true) :
    c ≠ '-' ∧ c ≠ '+' := by
  constructor <;> rintro rfl <;> cases h

theorem AreDecimal.noSignHead {s : List Char} (hs : AreDecimal s) (hne : s ≠ []) (t : List Char) :
    NoSignHead (s ++ t) := by
  intro c hc
  rw [List.head?_append_of_ne_nil _ hne] at hc
  exact not_sign_of_isDecimalDigit (hs c (List.mem_of_head? hc))

/-- A text that starts with no sign has none taken off. -/
theorem NoSignHead.takeSign {s : List Char} (h : NoSignHead s) :
    Numeral.takeSign s = (false, s) := by
  cases s with
  | nil => rfl
  | cons c rest =>
    obtain ⟨hminus, hplus⟩ := h c rfl
    rw [Numeral.takeSign]
    · rintro s heq
      exact hminus (List.cons_eq_cons.1 heq).1
    · rintro s heq
      exact hplus (List.cons_eq_cons.1 heq).1

theorem Sign.takeSign_append (sign : Sign) {t : List Char} (ht : NoSignHead t) :
    Numeral.takeSign (sign.text ++ t) = (sign.isMinus, t) := by
  cases sign with
  | absent => exact ht.takeSign
  | plus => rfl
  | minus => rfl

/-- A sign ends where what follows it begins. -/
theorem Sign.append_inj {sign sign' : Sign} {t u : List Char} (ht : NoSignHead t)
    (hu : NoSignHead u) (h : sign.text ++ t = sign'.text ++ u) : sign = sign' ∧ t = u := by
  cases sign with
  | absent =>
    cases sign' with
    | absent => exact ⟨rfl, h⟩
    | plus => exact absurd rfl (ht '+' (congrArg List.head? h)).2
    | minus => exact absurd rfl (ht '-' (congrArg List.head? h)).1
  | plus =>
    cases sign' with
    | absent => exact absurd rfl (hu '+' (congrArg List.head? h.symm)).2
    | plus => exact ⟨rfl, (List.cons_eq_cons.1 h).2⟩
    | minus => cases h
  | minus =>
    cases sign' with
    | absent => exact absurd rfl (hu '-' (congrArg List.head? h.symm)).1
    | plus => cases h
    | minus => exact ⟨rfl, (List.cons_eq_cons.1 h).2⟩

/-! ## A text has one spelling at most -/

namespace ExponentSpelling

theorem noSignHead_digits (x : ExponentSpelling) : NoSignHead x.digits := by
  have h := x.decimal.noSignHead x.digits_ne_nil []
  rwa [List.append_nil] at h

theorem text_injective {x y : ExponentSpelling} (h : x.text = y.text) : x = y := by
  obtain ⟨hletter, hrest⟩ := List.cons_eq_cons.1 h
  obtain ⟨hsign, hdigits⟩ := Sign.append_inj x.noSignHead_digits y.noSignHead_digits hrest
  cases x
  cases y
  cases hletter
  cases hsign
  cases hdigits
  rfl

end ExponentSpelling

namespace Spelling

theorem exponentText_injective {x? y? : Option ExponentSpelling}
    (h : exponentText x? = exponentText y?) : x? = y? := by
  cases x? <;> cases y?
  · rfl
  · cases h
  · cases h
  · rw [ExponentSpelling.text_injective h]

/-- The letter of an exponent is no point. -/
theorem exponentText_ne_point (x? : Option ExponentSpelling) (t : List Char) :
    exponentText x? ≠ '.' :: t := by
  cases x? with
  | none => nofun
  | some x =>
    intro h
    have hletter : x.letter = '.' := (List.cons_eq_cons.1 h).1
    rcases x.letter_eq with he | he <;> rw [he] at hletter <;> cases hletter

theorem fractionText_append_inj {f? f?' : Option (List Char)} {x? x?' : Option ExponentSpelling}
    (hf : ∀ f, f? = some f → AreDecimal f) (hf' : ∀ f, f?' = some f → AreDecimal f)
    (h : fractionText f? ++ exponentText x? = fractionText f?' ++ exponentText x?') :
    f? = f?' ∧ x? = x?' := by
  cases f? with
  | none =>
    cases f?' with
    | none => exact ⟨rfl, exponentText_injective h⟩
    | some f' => exact absurd h (exponentText_ne_point x? _)
  | some f =>
    cases f?' with
    | none => exact absurd h.symm (exponentText_ne_point x?' _)
    | some f' =>
      obtain ⟨rfl, hexponent⟩ := (hf f rfl).append_inj (noDigitHead_exponentText x?) (hf' f' rfl)
        (noDigitHead_exponentText x?') (List.cons_eq_cons.1 h).2
      exact ⟨rfl, exponentText_injective hexponent⟩

/-- Behind the sign there is a digit or a point. -/
theorem noSignHead_unsigned (p : Spelling) :
    NoSignHead (p.whole ++ (fractionText p.fraction? ++ exponentText p.exponent?)) := by
  by_cases hwhole : p.whole = []
  · obtain ⟨f, hf, -⟩ := p.some_digit.resolve_left (not_not.2 hwhole)
    rw [hwhole, hf]
    rintro c ⟨⟩
    exact ⟨by decide, by decide⟩
  · exact p.whole_decimal.noSignHead hwhole _

theorem text_injective : Function.Injective text := by
  intro p q h
  obtain ⟨hsign, hunsigned⟩ := Sign.append_inj p.noSignHead_unsigned q.noSignHead_unsigned h
  obtain ⟨hwhole, hrest⟩ := p.whole_decimal.append_inj (noDigitHead_fractionText _ _)
    q.whole_decimal (noDigitHead_fractionText _ _) hunsigned
  obtain ⟨hfraction, hexponent⟩ :=
    fractionText_append_inj p.fraction_decimal q.fraction_decimal hrest
  cases p
  cases q
  cases hsign
  cases hwhole
  cases hfraction
  cases hexponent
  rfl

end Spelling

/-! ## What is spelled is taken apart -/

section Digits
variable {s : List Char}

theorem AreDecimal.filterMap_digitValue? (hs : AreDecimal s) :
    s.filterMap Text.digitValue? = s.map fun c => (Text.digitValue? c).getD 0 := by
  refine List.filterMap_eq_map_iff_forall_eq_some.2 fun c hc => ?_
  obtain ⟨d, hd⟩ := Option.isSome_iff_exists.1 (hs c hc)
  rw [hd, Option.getD_some]

theorem AreDecimal.length_filterMap (hs : AreDecimal s) :
    (s.filterMap Text.digitValue?).length = s.length := by
  rw [hs.filterMap_digitValue?, List.length_map]

theorem AreDecimal.ofDigits_filterMap (hs : AreDecimal s) :
    Numeral.ofDigits (s.filterMap Text.digitValue?) = digitsValue s := by
  rw [hs.filterMap_digitValue?, digitsValue, List.map_reverse, Nat.ofDigits_eq_foldr,
    List.foldr_reverse, Numeral.ofDigits]
  simp only [Nat.cast_id, Nat.add_comm]

theorem AreDecimal.filterMap_ne_nil (hs : AreDecimal s) (hne : s ≠ []) :
    s.filterMap Text.digitValue? ≠ [] := by
  rwa [hs.filterMap_digitValue?, Ne, List.map_eq_nil_iff]

end Digits

theorem ExponentSpelling.exponent?_text (x : ExponentSpelling) :
    Numeral.exponent? x.text = some x.value := by
  have hdigits := x.decimal.takeDigits_append noDigitHead_nil
  rw [List.append_nil] at hdigits
  obtain ⟨d, rest, hcons⟩ :=
    List.exists_cons_of_ne_nil (x.decimal.filterMap_ne_nil x.digits_ne_nil)
  have hvalue := x.decimal.ofDigits_filterMap
  rw [hcons] at hdigits hvalue
  rw [text, Numeral.exponent?, if_pos x.letter_eq, x.sign.takeSign_append x.noSignHead_digits]
  simp only [hdigits, hvalue, value]

namespace Spelling

theorem exponent?_exponentText (p : Spelling) :
    Numeral.exponent? (exponentText p.exponent?) = some p.exponent := by
  rw [exponent]
  cases p.exponent? with
  | none => rfl
  | some x => exact x.exponent?_text

theorem fraction_areDecimal (p : Spelling) : AreDecimal p.fraction := by
  rw [fraction]
  cases hf : p.fraction? with
  | none => exact List.forall_mem_nil _
  | some f => exact p.fraction_decimal f hf

theorem takeFraction_text (p : Spelling) :
    Numeral.takeFraction (fractionText p.fraction? ++ exponentText p.exponent?) =
      (p.fraction.filterMap Text.digitValue?, exponentText p.exponent?) := by
  rw [fraction]
  cases hf : p.fraction? with
  | none =>
    rw [fractionText, List.nil_append, Numeral.takeFraction]
    · rfl
    · exact fun t => exponentText_ne_point p.exponent? t
  | some f =>
    exact (p.fraction_decimal f hf).takeDigits_append (noDigitHead_exponentText p.exponent?)

/-- The numeral that is spelled. -/
def numeral (p : Spelling) : Numeral where
  negative := p.sign.isMinus
  whole := p.whole.filterMap Text.digitValue?
  fraction := p.fraction.filterMap Text.digitValue?
  exponent := p.exponent

theorem value_numeral (p : Spelling) : p.numeral.value = p.value := by
  have hdigits := (p.whole_decimal.append p.fraction_areDecimal).ofDigits_filterMap
  rw [List.filterMap_append] at hdigits
  simp only [Numeral.value, numeral, value, hdigits,
    p.fraction_areDecimal.length_filterMap]

end Spelling

/-- **What is spelled is accepted, with the parts that it is spelled with.** -/
theorem Numeral.parse?_text (p : Spelling) : parse? p.text = some p.numeral := by
  have hsign := p.sign.takeSign_append p.noSignHead_unsigned
  have hwhole := p.whole_decimal.takeDigits_append
    (noDigitHead_fractionText p.fraction? p.exponent?)
  have hdigit : ¬ (p.whole.filterMap Text.digitValue? = [] ∧
      p.fraction.filterMap Text.digitValue? = []) := by
    rintro ⟨hw, hf⟩
    rcases p.some_digit with hne | ⟨f, hsome, hne⟩
    · exact p.whole_decimal.filterMap_ne_nil hne hw
    · rw [Spelling.fraction, hsome, Option.getD_some] at hf
      exact (p.fraction_decimal f hsome).filterMap_ne_nil hne hf
  simp only [parse?, Spelling.text, hsign, hwhole, p.takeFraction_text, if_neg hdigit,
    p.exponent?_exponentText, Option.map_some, Spelling.numeral]

/-! ## What is taken apart is spelled -/

namespace Numeral

theorem takeSign_split (s : List Char) : ∃ sign : Sign, sign.text ++ (takeSign s).2 = s := by
  unfold takeSign
  split
  · exact ⟨.minus, rfl⟩
  · exact ⟨.plus, rfl⟩
  · exact ⟨.absent, rfl⟩

theorem takeDigits_split (s : List Char) :
    ∃ digits, AreDecimal digits ∧ digits ++ (takeDigits s).2 = s ∧
      (takeDigits s).1 = digits.filterMap Text.digitValue? := by
  refine ⟨s.takeWhile Text.isDecimalDigit, fun c hc => List.mem_takeWhile_imp hc, ?_, ?_⟩
  · rw [takeDigits_rest, List.takeWhile_append_dropWhile]
  · exact takeDigits_digits s

theorem takeFraction_split (s : List Char) :
    ∃ f?, (∀ f, f? = some f → AreDecimal f) ∧
      Spelling.fractionText f? ++ (takeFraction s).2 = s ∧
      (takeFraction s).1 = (f?.getD []).filterMap Text.digitValue? := by
  unfold takeFraction
  split
  next t =>
    obtain ⟨f, hf, hsplit, hvalues⟩ := takeDigits_split t
    refine ⟨some f, ?_, congrArg ('.' :: ·) hsplit, hvalues⟩
    rintro _ ⟨⟩
    exact hf
  next => exact ⟨none, nofun, rfl, rfl⟩

theorem exponent?_split {s : List Char} {e : Int} (h : exponent? s = some e) :
    ∃ x?, Spelling.exponentText x? = s := by
  cases s with
  | nil => exact ⟨none, rfl⟩
  | cons c rest =>
    by_cases hletter : c = 'e' ∨ c = 'E'
    · rw [exponent?, if_pos hletter] at h
      obtain ⟨sign, hsign⟩ := takeSign_split rest
      obtain ⟨digits, hdecimal, hsplit, hvalues⟩ := takeDigits_split (takeSign rest).2
      simp only at h
      split at h
      · cases h
      next ds hds htake =>
        rw [htake] at hsplit hvalues
        rw [List.append_nil] at hsplit
        have hne : digits ≠ [] := by
          rintro rfl
          exact hds hvalues
        have hrest : sign.text ++ digits = rest := by rw [hsplit, hsign]
        exact ⟨some ⟨c, sign, digits, hletter, hdecimal, hne⟩, congrArg (c :: ·) hrest⟩
      · cases h
    · rw [exponent?, if_neg hletter] at h
      cases h

/-- **What is accepted has a spelling.** -/
theorem exists_spelling {s : List Char} {n : Numeral} (h : parse? s = some n) :
    ∃ p : Spelling, p.text = s := by
  obtain ⟨sign, hsign⟩ := takeSign_split s
  obtain ⟨whole, hwhole, hsplit, hvalues⟩ := takeDigits_split (takeSign s).2
  obtain ⟨f?, hf, hfraction, hvalues'⟩ := takeFraction_split (takeDigits (takeSign s).2).2
  unfold parse? at h
  simp only at h
  split at h
  · cases h
  next hdigit =>
    obtain ⟨e, he, -⟩ := Option.map_eq_some_iff.1 h
    obtain ⟨x?, hexponent⟩ := exponent?_split he
    rw [hvalues, hvalues'] at hdigit
    refine ⟨⟨sign, whole, f?, x?, hwhole, hf, ?_⟩, ?_⟩
    · by_contra hnone
      obtain ⟨hnil, hnil'⟩ := not_or.1 hnone
      refine hdigit ⟨by rw [not_not.1 hnil]; rfl, ?_⟩
      cases f? with
      | none => rfl
      | some f =>
        have hempty : f = [] := by
          by_contra hne
          exact hnil' ⟨f, rfl, hne⟩
        rw [hempty]
        rfl
    · rw [Spelling.text, hexponent, hfraction, hsplit, hsign]

end Numeral

end SmallLisp.Number

namespace SmallLisp.Reader

open Number

/-- How an atom is read. -/
structure ReadsSpellings (text : List Char) : Prop where
  /-- It is a number if and only if it is spelled like one. -/
  number_iff : (∃ x, atom text = .num x) ↔ ∃ p : Spelling, p.text = text
  /-- Its parts are not open to doubt. -/
  spelling_unique : ∀ p q : Spelling, p.text = text → q.text = text → p = q
  /-- The number is the one that the exact value is rounded to, with the sign that is written. -/
  rounded : ∀ p : Spelling, p.text = text → ∀ x,
    atom text = .num x ↔ RoundsTo p.value x ∧ isNegative x = p.sign.isMinus
  /-- Else it is one of three literals or a symbol. -/
  otherwise : (¬ ∃ p : Spelling, p.text = text) → atom text =
    if text = "true".toList then .bool true
    else if text = "false".toList then .bool false
    else if text = "nil".toList then .nil
    else .sym (String.ofList text)

/-- **The atoms that are numbers are those spelled like numbers**, with their exact values rounded. -/
theorem atom_reads_spellings (text : List Char) : ReadsSpellings text := by
  have hspelled : ∀ p : Spelling, p.text = text → atom text = .num p.numeral.toFloat := by
    rintro p rfl
    rw [atom, Numeral.read?, Numeral.parse?_text, Option.map_some]
  have hother : (¬ ∃ p : Spelling, p.text = text) →
      atom text = (literal? text).getD (.sym (String.ofList text)) := by
    intro hno
    have hnone : Numeral.read? text = none := by
      rw [Numeral.read?, Option.map_eq_none_iff]
      exact Option.eq_none_iff_forall_ne_some.2 fun n hn => hno (Numeral.exists_spelling hn)
    rw [atom, hnone]
  refine ⟨⟨?_, ?_⟩, fun p q hp hq => Spelling.text_injective (hp.trans hq.symm), ?_, ?_⟩
  · rintro ⟨x, hx⟩
    by_contra hno
    rw [hother hno, literal?] at hx
    split_ifs at hx <;> cases hx
  · rintro ⟨p, hp⟩
    exact ⟨_, hspelled p hp⟩
  · intro p hp x
    obtain ⟨hrounds, hsign⟩ := p.numeral.roundsTo_toFloat
    rw [p.value_numeral] at hrounds
    rw [hspelled p hp]
    constructor
    · rintro ⟨⟩
      exact ⟨hrounds, hsign⟩
    · rintro ⟨hrounds', hsign'⟩
      rw [hrounds'.unique hrounds (hsign'.trans hsign.symm)]
  · intro hno
    rw [hother hno, literal?]
    split_ifs <;> rfl

example : [".", "+", "-", "1e", "e5", "1.2.3", "inf", "nan"].map (fun name => atom name.toList) =
    [".", "+", "-", "1e", "e5", "1.2.3", "inf", "nan"].map .sym := rfl

end SmallLisp.Reader
