import SmallLisp.Number.Notation
import SmallLisp.Proofs.ReadNumerals

/-! # Numbers read back

Every finite number reads back from the text that it is shown as, but for the sign of zero, which
is not shown.

The digits that `layout` arranges denote the same value wherever the point is put
(`denotes_layout`), so `decimalText` denotes the value it is made for.  A text with few digits was
tried before it was chosen; if none is found, the exact value is written, which is the value of
the number and reads as the number.  Integers are written out as they are.
-/
namespace SmallLisp.Number

open Numeral

/-- A text is a numeral in plain digits, of a certain value. -/
def Denotes (s : List Char) (value : ℚ) : Prop :=
  ∃ (whole fraction exponent : List Char) (e : Int),
    s = decimal whole fraction exponent ∧ AreDigits whole ∧ whole ≠ [] ∧ AreDigits fraction ∧
      exponent? exponent = some e ∧ decimalValue whole fraction e = value

/-- What is denoted is read, if it is the value of a number. -/
theorem Denotes.read? {s : List Char} {significand bits : Nat} {exponent : Int}
    (h : Denotes s (significand * 2 ^ exponent)) (hr : Represents significand exponent bits) :
    read? s = some (Float.ofBits (UInt64.ofNat bits)) := by
  obtain ⟨whole, fraction, exponentText, e, rfl, hw, hne, hf, he, hv⟩ := h
  exact read?_decimal hw hne hf he hr hv

/-! ## Where the point is put -/

theorem exponent?_exponentText (e : Int) : exponent? (exponentText e) = some e := by
  have htext : exponentText e = signedExponent (decide (e < 0))
      (zeros (2 - (Nat.toDigits 10 e.natAbs).length) ++ Nat.toDigits 10 e.natAbs) := by
    simp only [exponentText, signedExponent, decide_eq_true_eq, List.cons_append]
  have hdigits : AreDigits
      (zeros (2 - (Nat.toDigits 10 e.natAbs).length) ++ Nat.toDigits 10 e.natAbs) :=
    (areDigits_zeros _).append (areDigits_toDigits _)
  have hvalue : Nat.ofDigitChars 10
      (zeros (2 - (Nat.toDigits 10 e.natAbs).length) ++ Nat.toDigits 10 e.natAbs) 0 = e.natAbs := by
    rw [Nat.ofDigitChars_append, zeros, Nat.ofDigitChars_replicate_zero, Nat.mul_zero,
      Nat.ofDigitChars_ten_toDigits]
  rw [htext, exponent?_signed _ hdigits (List.append_ne_nil_of_right_ne_nil _ Nat.toDigits_ne_nil),
    hvalue]
  by_cases hneg : e < 0
  · simp only [hneg, decide_true, if_true, Option.some.injEq]
    omega
  · simp only [hneg, decide_false, Bool.false_eq_true, if_false, Option.some.injEq]
    omega

section Layout

variable {d : Char} {rest : List Char}

/-- One digit, the others behind the point, and an exponent. -/
theorem denotes_scientific (hd : AreDigits (d :: rest)) (e : Int) :
    Denotes (decimal [d] rest (exponentText e))
      (Nat.ofDigitChars 10 (d :: rest) 0 * 10 ^ (e + 1 - ((d :: rest).length : Int))) := by
  obtain ⟨hfirst, hrest⟩ := List.forall_mem_cons.1 hd
  refine ⟨[d], rest, exponentText e, e, rfl, List.forall_mem_singleton.2 hfirst,
    List.cons_ne_nil _ _, hrest, exponent?_exponentText e, ?_⟩
  rw [decimalValue, List.singleton_append, List.length_cons]
  congr 2
  push_cast
  ring

/-- Zeros behind the point, then the digits. -/
theorem denotes_small (hd : AreDigits (d :: rest)) {e : Int} (he : e < 0) :
    Denotes ('0' :: '.' :: zeros (-e - 1).toNat ++ d :: rest)
      (Nat.ofDigitChars 10 (d :: rest) 0 * 10 ^ (e + 1 - ((d :: rest).length : Int))) := by
  refine ⟨['0'], zeros (-e - 1).toNat ++ d :: rest, [], 0, ?_, areDigits_zeros 1,
    List.cons_ne_nil _ _, (areDigits_zeros _).append hd, rfl, ?_⟩
  · simp [decimal]
  · rw [decimalValue, List.singleton_append, Nat.ofDigitChars_cons, Nat.ofDigitChars_append,
      zeros, Nat.ofDigitChars_replicate_zero, List.length_append, List.length_replicate]
    congr 2
    push_cast
    omega

/-- The digits, and zeros up to the point. -/
theorem denotes_padded (hd : AreDigits (d :: rest)) {e : Int} (he : ¬ e < 0)
    (hlong : (d :: rest).length ≤ e.toNat + 1) :
    Denotes (d :: rest ++ zeros (e.toNat + 1 - (d :: rest).length) ++ ['.', '0'])
      (Nat.ofDigitChars 10 (d :: rest) 0 * 10 ^ (e + 1 - ((d :: rest).length : Int))) := by
  refine ⟨d :: rest ++ zeros (e.toNat + 1 - (d :: rest).length), ['0'], [], 0, ?_,
    hd.append (areDigits_zeros _), List.cons_ne_nil _ _, areDigits_zeros 1, rfl, ?_⟩
  · simp [decimal]
  · rw [decimalValue, Nat.ofDigitChars_append, Nat.ofDigitChars_append, zeros,
      Nat.ofDigitChars_replicate_zero, Nat.ofDigitChars_cons, Nat.ofDigitChars_nil]
    have hexp : e + 1 - ((d :: rest).length : Int) =
        (e.toNat + 1 - (d :: rest).length : Nat) := by omega
    rw [hexp, zpow_natCast]
    simp only [List.length_singleton, Nat.sub_self, Nat.add_zero, Nat.cast_mul, Nat.cast_pow,
      Nat.cast_ofNat, Nat.cast_one, zero_sub, zpow_neg_one]
    field_simp

/-- The point among the digits. -/
theorem denotes_pointed (hd : AreDigits (d :: rest)) {e : Int} (he : ¬ e < 0)
    (hlong : ¬ (d :: rest).length ≤ e.toNat + 1) :
    Denotes ((d :: rest).take (e.toNat + 1) ++ '.' :: (d :: rest).drop (e.toNat + 1))
      (Nat.ofDigitChars 10 (d :: rest) 0 * 10 ^ (e + 1 - ((d :: rest).length : Int))) := by
  refine ⟨(d :: rest).take (e.toNat + 1), (d :: rest).drop (e.toNat + 1), [], 0, ?_,
    fun c hc => hd c (List.mem_of_mem_take hc), List.cons_ne_nil _ _,
    fun c hc => hd c (List.mem_of_mem_drop hc), rfl, ?_⟩
  · have hdrop : (d :: rest).drop (e.toNat + 1) ≠ [] := by
      rw [Ne, List.drop_eq_nil_iff]
      exact hlong
    rw [decimal, if_neg hdrop, List.append_nil]
  · rw [decimalValue, List.take_append_drop, List.length_drop]
    congr 2
    omega

end Layout

/-- Wherever the point is put, the digits denote the same value. -/
theorem denotes_layout {digits : List Char} (hd : AreDigits digits) (hne : digits ≠ [])
    (e : Int) :
    Denotes (layout digits e)
      (Nat.ofDigitChars 10 digits 0 * 10 ^ (e + 1 - (digits.length : Int))) := by
  obtain ⟨d, rest, rfl⟩ := List.exists_cons_of_ne_nil hne
  unfold layout
  by_cases hscientific : e < positionalExponents.1 ∨ positionalExponents.2 ≤ e
  · rw [if_pos hscientific]
    cases rest with
    | nil => exact denotes_scientific hd e
    | cons c cs => simpa [decimal] using denotes_scientific hd e
  · rw [if_neg hscientific]
    by_cases hsmall : e < 0
    · rw [if_pos hsmall]
      exact denotes_small hd hsmall
    · rw [if_neg hsmall]
      by_cases hlong : (d :: rest).length ≤ e.toNat + 1
      · simp only [hlong, if_true]
        exact denotes_padded hd hsmall hlong
      · simp only [hlong, if_false]
        exact denotes_pointed hd hsmall hlong

/-- Digits are some that do not end in a zero, and zeros. -/
theorem exists_zeros (s : List Char) :
    ∃ k, s = (s.reverse.dropWhile (· == '0')).reverse ++ zeros k := by
  refine ⟨(s.reverse.takeWhile (· == '0')).length, ?_⟩
  have hzeros : s.reverse.takeWhile (· == '0') =
      List.replicate (s.reverse.takeWhile (· == '0')).length '0' := by
    rw [List.eq_replicate_iff]
    exact ⟨rfl, fun c hc => by simpa using List.all_eq_true.1 List.all_takeWhile c hc⟩
  have hsplit := congrArg List.reverse
    (List.takeWhile_append_dropWhile (p := (· == '0')) (l := s.reverse))
  rw [List.reverse_append, List.reverse_reverse, hzeros, List.reverse_replicate] at hsplit
  rw [zeros]
  simpa using hsplit.symm

/-- **What is written denotes the value that it is written for.** -/
theorem denotes_decimalText {digits : Nat} (hd : 0 < digits) (e : Int) :
    Denotes (decimalText digits e) (digits * 10 ^ e) := by
  obtain ⟨k, hk⟩ := exists_zeros (Nat.toDigits 10 digits)
  have hvalue := Nat.ofDigitChars_ten_toDigits (n := digits)
  have hlength := congrArg List.length hk
  have htext : decimalText digits e =
      layout ((Nat.toDigits 10 digits).reverse.dropWhile (· == '0')).reverse
        (e + (Nat.toDigits 10 digits).length - 1) := rfl
  generalize hs : ((Nat.toDigits 10 digits).reverse.dropWhile (· == '0')).reverse = s at *
  rw [hk, Nat.ofDigitChars_append, zeros, Nat.ofDigitChars_replicate_zero] at hvalue
  rw [List.length_append, zeros, List.length_replicate] at hlength
  have hne : s ≠ [] := by
    rintro rfl
    rw [Nat.ofDigitChars_nil, Nat.mul_zero] at hvalue
    omega
  have hdigits : AreDigits s := fun c hc =>
    areDigits_toDigits digits c (hk ▸ List.mem_append_left _ hc)
  have h := denotes_layout hdigits hne (e + (Nat.toDigits 10 digits).length - 1)
  have hexp : e + ((Nat.toDigits 10 digits).length : Int) - 1 + 1 - s.length = k + e := by omega
  have hten : (10 : ℚ) ≠ 0 := by norm_num
  have hq : (digits : ℚ) * 10 ^ e =
      Nat.ofDigitChars 10 s 0 * 10 ^ ((k : Int) + e) := by
    rw [← hvalue, zpow_add₀ hten, zpow_natCast]
    push_cast
    ring
  rw [htext, hq, ← hexp]
  exact h

/-! ## The texts of numbers -/

/-- The text of a positive number is one that was tried, or else the exact value. -/
theorem shortestText_eq (x : Float) (n d : Nat) :
    (∃ digits e, shortestText x n d = decimalText digits e ∧
      readsBack x (decimalText digits e) = true) ∨
    shortestText x n d = exactText n (Nat.log2 d) := by
  unfold shortestText
  cases hfind : (List.range 17).findSome? fun i => (neighbours n d (i + 1)).find? (readsBack x) with
  | none => exact .inr rfl
  | some text =>
    left
    obtain ⟨i, _, hi⟩ := List.exists_of_findSome?_eq_some hfind
    have hback := List.find?_some hi
    have hmem := List.mem_of_find?_eq_some hi
    simp only [neighbours, List.mem_cons, List.not_mem_nil, or_false] at hmem
    rcases hmem with rfl | rfl
    · exact ⟨_, _, rfl, hback⟩
    · exact ⟨_, _, rfl, hback⟩

/-- A text that reads back is read as the number. -/
theorem read?_of_readsBack {x : Float} {s : List Char} (h : readsBack x s = true) :
    read? s = some x := by
  rw [readsBack, beq_iff_eq] at h
  obtain ⟨y, hy, hbits⟩ := Option.map_eq_some_iff.1 h
  rw [hy, Float.toBits_inj.1 hbits]

/-- A finite magnitude as a fraction has the value of the magnitude. -/
theorem fraction?_value {significand : Nat} {exponent : Int} {n d : Nat}
    (h : (Magnitude.finite significand exponent).fraction? = some (n, d)) :
    d = 2 ^ Nat.log2 d ∧ (n : ℚ) / d = significand * 2 ^ exponent := by
  simp only [Magnitude.fraction?, Option.some.injEq] at h
  by_cases he : 0 ≤ exponent
  · rw [if_pos he] at h
    cases h
    obtain ⟨k, rfl⟩ := Int.eq_ofNat_of_zero_le he
    refine ⟨rfl, ?_⟩
    simp
  · rw [if_neg he] at h
    cases h
    obtain ⟨k, hk⟩ := Int.eq_ofNat_of_zero_le (show 0 ≤ -exponent by omega)
    obtain rfl : exponent = -(k : Int) := by omega
    refine ⟨by simp [Nat.log2_two_pow], ?_⟩
    simp [div_eq_mul_inv]

/-- The exact value, written out, denotes the value. -/
theorem denotes_exactText {n d : Nat} (hn : 0 < n) (hd : d = 2 ^ Nat.log2 d) :
    Denotes (exactText n (Nat.log2 d)) ((n : ℚ) / d) := by
  have hdigits : 0 < n * 5 ^ Nat.log2 d := by positivity
  have h := denotes_decimalText hdigits (-(Nat.log2 d : Int))
  rw [exactText, Nat.pow_eq]
  convert h using 1
  generalize Nat.log2 d = p at hd
  subst hd
  rw [zpow_neg, zpow_natCast, show (10 : ℚ) = 2 * 5 by norm_num, mul_pow]
  push_cast
  field_simp

/-! ## Characters of numerals -/

/-- Whether a character stands in the text of a finite number. -/
def IsNumeralChar (c : Char) : Prop :=
  c.isDigit = true ∨ c = '.' ∨ c = 'e' ∨ c = '-' ∨ c = '+'

/-- A text as finite numbers without a sign have it. -/
structure Unsigned (s : List Char) : Prop where
  chars : ∀ c ∈ s, IsNumeralChar c
  head : ∀ c, s.head? = some c → c.isDigit = true

theorem Unsigned.of_areDigits {s : List Char} (h : AreDigits s) : Unsigned s :=
  ⟨fun c hc => .inl (h c hc), fun c hc => h c (List.mem_of_head? hc)⟩

theorem Unsigned.append {s t : List Char} (hs : Unsigned s) (hne : s ≠ [])
    (ht : ∀ c ∈ t, IsNumeralChar c) : Unsigned (s ++ t) := by
  refine ⟨fun c hc => ?_, fun c hc => ?_⟩
  · rcases List.mem_append.1 hc with hc | hc
    · exact hs.chars c hc
    · exact ht c hc
  · rw [List.head?_append_of_ne_nil _ hne] at hc
    exact hs.head c hc

theorem isNumeralChar_of_areDigits {s : List Char} (h : AreDigits s) :
    ∀ c ∈ s, IsNumeralChar c :=
  fun c hc => .inl (h c hc)

theorem isNumeralChar_point {s : List Char} (h : ∀ c ∈ s, IsNumeralChar c) :
    ∀ c ∈ '.' :: s, IsNumeralChar c :=
  List.forall_mem_cons.2 ⟨.inr (.inl rfl), h⟩

theorem isNumeralChar_exponentText (e : Int) : ∀ c ∈ exponentText e, IsNumeralChar c := by
  have hdigits : ∀ c ∈ zeros (2 - (Nat.toDigits 10 e.natAbs).length) ++ Nat.toDigits 10 e.natAbs,
      IsNumeralChar c :=
    isNumeralChar_of_areDigits ((areDigits_zeros _).append (areDigits_toDigits _))
  have hsign : IsNumeralChar (if e < 0 then '-' else '+') := by
    by_cases h : e < 0
    · rw [if_pos h]
      exact .inr (.inr (.inr (.inl rfl)))
    · rw [if_neg h]
      exact .inr (.inr (.inr (.inr rfl)))
  exact List.forall_mem_cons.2 ⟨.inr (.inr (.inl rfl)), List.forall_mem_cons.2 ⟨hsign, hdigits⟩⟩

theorem unsigned_layout {digits : List Char} (hd : AreDigits digits) (e : Int) :
    Unsigned (layout digits e) := by
  unfold layout
  split
  · rcases digits with _ | ⟨d, _ | ⟨d', rest⟩⟩
    · exact .of_areDigits nofun
    · exact (Unsigned.of_areDigits hd).append (List.cons_ne_nil _ _) (isNumeralChar_exponentText e)
    · obtain ⟨hfirst, hrest⟩ := List.forall_mem_cons.1 hd
      have hsingle : AreDigits [d] := List.forall_mem_singleton.2 hfirst
      refine (Unsigned.of_areDigits hsingle).append (List.cons_ne_nil _ _)
        (isNumeralChar_point ?_)
      intro c hc
      rcases List.mem_append.1 hc with hc | hc
      · exact .inl (hrest c hc)
      · exact isNumeralChar_exponentText e c hc
  split
  · exact (Unsigned.of_areDigits (areDigits_zeros 1)).append (List.cons_ne_nil _ _)
      (isNumeralChar_point (isNumeralChar_of_areDigits ((areDigits_zeros _).append hd)))
  · simp only
    split
    next hlong =>
      refine (Unsigned.of_areDigits (hd.append (areDigits_zeros _))).append ?_
        (isNumeralChar_point (isNumeralChar_of_areDigits (areDigits_zeros 1)))
      intro hnil
      obtain ⟨rfl, hzeros⟩ := List.append_eq_nil_iff.1 hnil
      cases hzeros
    next hlong =>
      refine (Unsigned.of_areDigits fun c hc => hd c (List.mem_of_mem_take hc)).append ?_
        (isNumeralChar_point (isNumeralChar_of_areDigits fun c hc => hd c (List.mem_of_mem_drop hc)))
      rw [Ne, List.take_eq_nil_iff]
      rintro (h | rfl)
      · cases h
      · exact hlong (Nat.zero_le _)

theorem unsigned_decimalText (digits : Nat) (e : Int) : Unsigned (decimalText digits e) := by
  refine unsigned_layout (fun c hc => areDigits_toDigits digits c ?_) _
  exact List.mem_reverse.1 ((List.dropWhile_sublist _).mem (List.mem_reverse.1 hc))

/-! ## Reading what is shown -/

/-- The number itself, but zero without its sign. -/
def unsignedZero (x : Float) : Float :=
  if x.toBits.toNat % 2 ^ 63 = 0 then Float.ofBits 0 else x

section Shown

variable {x : Float}

/-- A text for the magnitude, with the sign in front, is read as the number. -/
theorem read?_signed (hx : IsFinite x) {s : List Char} (hs : Unsigned s)
    (h : read? s = some (Float.ofBits (UInt64.ofNat (x.toBits.toNat % 2 ^ 63)))) :
    read? (if isNegative x then '-' :: s else s) = some x := by
  have hsigned := eq_signed hx
  by_cases hneg : isNegative x = true
  · rw [if_pos hneg] at hsigned ⊢
    have hhead : NoSignHead s := fun c hc =>
      not_sign_of_isDecimalDigit (Text.isDecimalDigit_of_isDigit (hs.head c hc))
    rw [read?_minus hhead, h, Option.map_some, hsigned]
  · rw [if_neg hneg] at hsigned ⊢
    rw [h, hsigned]

theorem magnitudeText_spec (hx : IsFinite x) (hz : x.toBits.toNat % 2 ^ 63 ≠ 0) :
    Unsigned (magnitudeText x) ∧
      read? (magnitudeText x) = some (Float.ofBits (UInt64.ofNat (x.toBits.toNat % 2 ^ 63))) := by
  obtain ⟨significand, exponent, hm, hr⟩ := exists_represents hx
  have hpos := hr.significand_pos hz
  have hmagnitude : magnitude x = .finite significand exponent := hm
  obtain ⟨⟨n, d⟩, hfraction⟩ : ∃ q, (Magnitude.finite significand exponent).fraction? = some q :=
    ⟨_, rfl⟩
  obtain ⟨hd, hvalue⟩ := fraction?_value hfraction
  unfold magnitudeText
  simp only [hmagnitude, hfraction, hpos.ne', if_false]
  rcases shortestText_eq (Float.ofBits (UInt64.ofNat (x.toBits.toNat % Nat.pow 2 63))) n d with
    ⟨digits, e, htext, hback⟩ | htext
  · rw [htext]
    exact ⟨unsigned_decimalText digits e, read?_of_readsBack hback⟩
  · rw [htext]
    refine ⟨unsigned_decimalText _ _, Denotes.read? ?_ hr⟩
    have hn : 0 < n := by
      rcases Nat.eq_zero_or_pos n with rfl | hn
      · rw [Nat.cast_zero, zero_div] at hvalue
        have : (0 : ℚ) < significand * 2 ^ exponent := by positivity
        linarith
      · exact hn
    rw [← hvalue]
    exact denotes_exactText hn hd

theorem isNumeralChar_signed {s : List Char} (hs : Unsigned s) (negative : Bool) :
    ∀ c ∈ (if negative then '-' :: s else s), IsNumeralChar c := by
  cases negative with
  | false => exact hs.chars
  | true => exact List.forall_mem_cons.2 ⟨.inr (.inr (.inr (.inl rfl))), hs.chars⟩

/-- A natural number in digits denotes itself. -/
theorem denotes_toDigits (k : Nat) : Denotes (Nat.toDigits 10 k) k := by
  refine ⟨Nat.toDigits 10 k, [], [], 0, ?_, areDigits_toDigits k, Nat.toDigits_ne_nil, nofun, rfl,
    ?_⟩
  · simp [decimal]
  · simp [decimalValue]

/-- A number that is an integer and not zero is a natural number with a sign. -/
theorem integer?_eq {significand : Nat} {exponent n : Int} (hpos : 0 < significand)
    (hm : magnitude x = .finite significand exponent) (h : integer? x = some n) :
    ∃ k : Nat, 0 < k ∧ n = (if isNegative x then -(k : Int) else k) ∧
      (k : ℚ) = significand * 2 ^ exponent := by
  obtain ⟨⟨a, d⟩, hfraction⟩ : ∃ q, (Magnitude.finite significand exponent).fraction? = some q :=
    ⟨_, rfl⟩
  obtain ⟨hd, hvalue⟩ := fraction?_value hfraction
  have hdpos : 0 < d := hd ▸ Nat.two_pow_pos _
  simp only [integer?, hm, hfraction] at h
  by_cases hdvd : a % d = 0
  · rw [if_pos hdvd] at h
    have hquotient : ((a / d : Nat) : ℚ) = a / d :=
      Nat.cast_div (Nat.dvd_of_mod_eq_zero hdvd) (Nat.cast_ne_zero.2 hdpos.ne')
    have hk : (0 : ℚ) < (a / d : Nat) := by
      rw [hquotient, hvalue]
      positivity
    exact ⟨a / d, by exact_mod_cast hk, (Option.some.inj h).symm, hquotient.trans hvalue⟩
  · rw [if_neg hdvd] at h
    cases h

/-- An integer with a sign is written with the sign in front of its digits. -/
theorem integerText_signed {k : Nat} (hk : 0 < k) (negative : Bool) :
    integerText (if negative then -(k : Int) else k) =
      if negative then '-' :: Nat.toDigits 10 k else Nat.toDigits 10 k := by
  cases negative with
  | true =>
    have hneg : -(k : Int) < 0 := by omega
    simp only [if_true, integerText, hneg, Int.natAbs_neg, Int.natAbs_natCast]
  | false =>
    have hpos : ¬ (k : Int) < 0 := by omega
    simp only [Bool.false_eq_true, if_false, integerText, hpos, Int.natAbs_natCast]

/-- The literal text of a finite number is that of its magnitude with the sign in front. -/
theorem literal_signed (hx : IsFinite x) :
    literal x = if isNegative x then '-' :: magnitudeText x else magnitudeText x := by
  obtain ⟨significand, exponent, hm, -⟩ := exists_represents hx
  have hmagnitude : magnitude x = .finite significand exponent := hm
  simp only [literal, hmagnitude]

/-- A number that is not zero is shown as some text for its magnitude, with the sign in front. -/
theorem display_signed (hx : IsFinite x) (hz : x.toBits.toNat % 2 ^ 63 ≠ 0) :
    ∃ s, display x = (if isNegative x then '-' :: s else s) ∧ Unsigned s ∧
      read? s = some (Float.ofBits (UInt64.ofNat (x.toBits.toNat % 2 ^ 63))) := by
  obtain ⟨significand, exponent, hm, hr⟩ := exists_represents hx
  have hpos := hr.significand_pos hz
  have hliteral : ∃ s, literal x = (if isNegative x then '-' :: s else s) ∧ Unsigned s ∧
      read? s = some (Float.ofBits (UInt64.ofNat (x.toBits.toNat % 2 ^ 63))) :=
    ⟨magnitudeText x, literal_signed hx, magnitudeText_spec hx hz⟩
  unfold display
  split
  next n hn =>
    by_cases hsmall : n.natAbs < integerLimit
    · rw [if_pos hsmall]
      obtain ⟨k, hk, rfl, hvalue⟩ := integer?_eq hpos hm hn
      refine ⟨Nat.toDigits 10 k, integerText_signed hk _, .of_areDigits (areDigits_toDigits k), ?_⟩
      have hdenotes := denotes_toDigits k
      rw [hvalue] at hdenotes
      exact hdenotes.read? hr
    · rw [if_neg hsmall]
      exact hliteral
  · exact hliteral

/-- **Finite numbers read back from what they are shown as**, but for the sign of zero. -/
theorem display_reads_back (hx : IsFinite x) :
    (∀ c ∈ display x, IsNumeralChar c) ∧ read? (display x) = some (unsignedZero x) := by
  by_cases hz : x.toBits.toNat % 2 ^ 63 = 0
  · rw [unsignedZero, if_pos hz]
    have hzero : display x = ['0'] := by
      rcases eq_zero_or hz with rfl | rfl
      · decide +kernel
      · decide +kernel
    rw [hzero]
    exact ⟨List.forall_mem_singleton.2 (.inl rfl), rfl⟩
  · rw [unsignedZero, if_neg hz]
    obtain ⟨s, hdisplay, hs, hread⟩ := display_signed hx hz
    rw [hdisplay]
    exact ⟨isNumeralChar_signed hs _, read?_signed hx hs hread⟩

end Shown

end SmallLisp.Number
