/-! # Blank characters

Blank characters separate expressions and are what trimming takes off a text.  The set is the
twenty-five white-space characters of Unicode together with the four information separators
U+001C to U+001F.  Zero-width characters such as U+200B and U+FEFF are not blank.
-/
namespace SmallLisp.Text

/-- Whether a character separates expressions. -/
def isBlank (c : Char) : Bool :=
  let n := c.toNat
  (0x09 ≤ n && n ≤ 0x0D) || (0x1C ≤ n && n ≤ 0x20) || n == 0x85 || n == 0xA0 || n == 0x1680 ||
    (0x2000 ≤ n && n ≤ 0x200A) || n == 0x2028 || n == 0x2029 || n == 0x202F || n == 0x205F ||
    n == 0x3000

/-- A text without the blank characters at its start. -/
def trimStart (s : List Char) : List Char :=
  s.dropWhile isBlank

/-- A text without the blank characters at its end. -/
def trimEnd (s : List Char) : List Char :=
  (s.reverse.dropWhile isBlank).reverse

/-- A text without the blank characters at either end. -/
def trim (s : List Char) : List Char :=
  trimEnd (trimStart s)

/-- Whether a text holds nothing but blank characters. -/
def isAllBlank (s : List Char) : Bool :=
  s.all isBlank

/-- Every character that core calls white space is blank. -/
theorem isBlank_of_isWhitespace {c : Char} (h : c.isWhitespace = true) : isBlank c = true := by
  simp only [Char.isWhitespace, Bool.or_eq_true, decide_eq_true_eq] at h
  rcases h with ((rfl | rfl) | rfl) | rfl <;> decide

theorem trimStart_eq_nil_iff {s : List Char} : trimStart s = [] ↔ isAllBlank s = true := by
  induction s with
  | nil => simp [trimStart, isAllBlank]
  | cons c s ih =>
    by_cases h : isBlank c = true <;> simp_all [trimStart, isAllBlank]

end SmallLisp.Text
