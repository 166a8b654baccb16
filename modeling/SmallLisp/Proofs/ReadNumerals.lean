import SmallLisp.Proofs.NumberTokens

/-! # What plain numerals read as

A numeral in plain digits (`decimal`) is put together of digits before the point, digits behind it
and an exponent.  Its value is that of all its digits, scaled, and if a finite number has this
value, the numeral is read as this number (`Numeral.read?_decimal`): it is a number's spelling, and
its exact value needs no rounding.  A minus in front negates what is read.
-/
namespace SmallLisp.Number

/-! ## Digits -/

/-- Whether a text has no characters but the ten digits of core. -/
def AreDigits (s : List Char) : Prop :=
  ∀ c ∈ s, c.isDigit = true

section Digits

variable {s t : List Char}

theorem AreDigits.append (hs : AreDigits s) (ht : AreDigits t) : AreDigits (s ++ t) := by
  intro c hc
  rcases List.mem_append.1 hc with hc | hc
  · exact hs c hc
  · exact ht c hc

theorem areDigits_zeros (n : Nat) : AreDigits (List.replicate n '0') := by
  intro c hc
  rw [List.eq_of_mem_replicate hc]
  rfl

theorem areDigits_toDigits (n : Nat) : AreDigits (Nat.toDigits 10 n) := fun _ hc =>
  Nat.isDigit_of_mem_toDigits (by decide) (by decide) hc

theorem AreDigits.areDecimal (hs : AreDigits s) : AreDecimal s := fun c hc =>
  Text.isDecimalDigit_of_isDigit (hs c hc)

theorem AreDigits.digitsValue_eq (hs : AreDigits s) :
    digitsValue s = Nat.ofDigitChars 10 s 0 := by
  have hvalues : s.map (fun c => (Text.digitValue? c).getD 0) = s.map fun c => c.toNat - 48 := by
    refine List.map_congr_left fun c hc => ?_
    rw [Text.digitValue?_of_isDigit (hs c hc), Option.getD_some]
  rw [digitsValue, List.map_reverse, hvalues, Nat.ofDigits_eq_foldr, List.foldr_reverse,
    List.foldl_map, Nat.ofDigitChars_eq_foldl]
  simp only [Nat.cast_id, Nat.add_comm (_ - _)]
  rfl

end Digits

/-! ## Numerals in plain digits -/

/-- An exponent with a sign and at least some digits. -/
def signedExponent (negative : Bool) (digits : List Char) : List Char :=
  'e' :: (if negative then '-' else '+') :: digits

/-- A numeral without a sign: digits, a point with digits behind it, an exponent. -/
def decimal (whole fraction exponent : List Char) : List Char :=
  whole ++ ((if fraction = [] then [] else '.' :: fraction) ++ exponent)

/-- The value that a numeral in plain digits has. -/
def decimalValue (whole fraction : List Char) (e : Int) : ℚ :=
  Nat.ofDigitChars 10 (whole ++ fraction) 0 * 10 ^ (e - fraction.length)

namespace Numeral

theorem exponent?_signed (negative : Bool) {digits : List Char} (hd : AreDigits digits)
    (hn : digits ≠ []) :
    exponent? (signedExponent negative digits) =
      some (if negative then -(Nat.ofDigitChars 10 digits 0 : Int)
        else Nat.ofDigitChars 10 digits 0) := by
  have hspelled (sign : Sign) := ExponentSpelling.exponent?_text
    ⟨'e', sign, digits, .inl rfl, hd.areDecimal, hn⟩
  rw [← hd.digitsValue_eq]
  cases negative
  · exact hspelled .plus
  · exact hspelled .minus

/-- A numeral in plain digits is a spelling. -/
theorem exists_spelling_decimal {whole fraction exponent : List Char} {e : Int}
    (hw : AreDigits whole) (hne : whole ≠ []) (hf : AreDigits fraction)
    (he : exponent? exponent = some e) :
    ∃ p : Spelling, p.text = decimal whole fraction exponent ∧ p.sign = .absent ∧
      p.value = decimalValue whole fraction e := by
  obtain ⟨x?, rfl⟩ := exponent?_split he
  obtain ⟨f?, hdecimal, htext, hfraction⟩ : ∃ f? : Option (List Char),
      (∀ f, f? = some f → AreDecimal f) ∧
      Spelling.fractionText f? = (if fraction = [] then [] else '.' :: fraction) ∧
      f?.getD [] = fraction := by
    by_cases hnil : fraction = []
    · exact ⟨none, nofun, (if_pos hnil).symm, hnil.symm⟩
    · refine ⟨some fraction, ?_, (if_neg hnil).symm, rfl⟩
      rintro _ ⟨⟩
      exact hf.areDecimal
  obtain ⟨p, rfl, hwhole, rfl, hsign⟩ : ∃ p : Spelling, p.fraction? = f? ∧ p.whole = whole ∧
      p.exponent? = x? ∧ p.sign = .absent :=
    ⟨⟨.absent, whole, f?, x?, hw.areDecimal, hdecimal, .inl hne⟩, rfl, rfl, rfl, rfl⟩
  have hexponent : p.exponent = e := Option.some_inj.1 (p.exponent?_exponentText.symm.trans he)
  refine ⟨p, ?_, hsign, ?_⟩
  · rw [Spelling.text, htext, hsign, hwhole, decimal]
    rfl
  · have hdigits : p.fraction = fraction := hfraction
    rw [Spelling.value, hexponent, hdigits, hwhole, hsign, (hw.append hf).digitsValue_eq]
    exact one_mul _

/-- **A numeral in plain digits is read as the number that has its value.** -/
theorem read?_decimal {whole fraction exponent : List Char} {e exponent' : Int}
    {significand bits : Nat} (hw : AreDigits whole) (hne : whole ≠ []) (hf : AreDigits fraction)
    (he : exponent? exponent = some e) (hr : Represents significand exponent' bits)
    (hv : decimalValue whole fraction e = significand * 2 ^ exponent') :
    read? (decimal whole fraction exponent) = some (Float.ofBits (UInt64.ofNat bits)) := by
  obtain ⟨p, htext, hsign, hvalue⟩ := exists_spelling_decimal hw hne hf he
  have hunsigned : p.numeral.negative = false := by
    rw [Spelling.numeral, hsign]
    rfl
  have hexact : p.numeral.value = significand * 2 ^ exponent' := by
    rw [p.value_numeral, hvalue, hv]
  rw [← htext, read?, parse?_text, Option.map_some, toFloat_of_value hunsigned hr hexact]

/-- A minus in front of a numeral without a sign negates what is read. -/
theorem read?_minus {s : List Char} (h : NoSignHead s) :
    read? ('-' :: s) = (read? s).map (-·) := by
  have hsign : takeSign s = (false, s) := h.takeSign
  have hminus : takeSign ('-' :: s) = (true, s) := rfl
  simp only [read?, parse?, hsign, hminus]
  split
  · rfl
  · simp only [Option.map_map, Function.comp_def, toFloat, if_true, Bool.false_eq_true, if_false]

end Numeral

end SmallLisp.Number
