/-! # Reading bytes as text

Files hold UTF-8.  Decoding is strict: it stops at the first byte that does not continue a
well-formed sequence, and its fault tells the longest well-formed beginning of the bad sequence
and why it could not go on.  In a decoded text every line end becomes a single newline.
-/
namespace SmallLisp.Text

/-- Why a sequence of bytes is no character. -/
inductive DecodingFlaw where
  /-- The first byte starts no sequence. -/
  | invalidStart
  /-- A byte inside the sequence does not belong there. -/
  | invalidContinuation
  /-- The bytes end inside the sequence. -/
  | unexpectedEnd
  deriving DecidableEq, Repr

/-- A sequence that could not be decoded: its first byte, the position of that byte, the number of
bytes that belong together, and the flaw. -/
structure DecodingFault where
  byte : UInt8
  position : Nat
  count : Nat
  flaw : DecodingFlaw
  deriving DecidableEq, Repr

/-- The reason that is given for a flaw. -/
def DecodingFlaw.text : DecodingFlaw → String
  | invalidStart => "invalid start byte"
  | invalidContinuation => "invalid continuation byte"
  | unexpectedEnd => "unexpected end of data"

/-- The last two hexadecimal digits of a byte. -/
def byteDigits (b : UInt8) : String :=
  String.ofList [Nat.digitChar (b.toNat / 16), Nat.digitChar (b.toNat % 16)]

/-- What is told about a decoding fault. -/
def DecodingFault.message (f : DecodingFault) : String :=
  "'utf-8' codec can't decode " ++
    (if f.count = 1 then
      "byte 0x" ++ byteDigits f.byte ++ " in position " ++ toString f.position
    else
      "bytes in position " ++ toString f.position ++ "-" ++
        toString (f.position + f.count - 1)) ++
    ": " ++ f.flaw.text

/-- For the first byte of a sequence of several bytes: the payload of the byte, and for each byte
that follows the least and the greatest value it may have. -/
def sequenceStart? (b : Nat) : Option (Nat × List (Nat × Nat)) :=
  let any := (0x80, 0xBF)
  if 0xC2 ≤ b ∧ b ≤ 0xDF then some (b - 0xC0, [any])
  else if b = 0xE0 then some (0, [(0xA0, 0xBF), any])
  else if b = 0xED then some (0xD, [(0x80, 0x9F), any])
  else if 0xE1 ≤ b ∧ b ≤ 0xEF then some (b - 0xE0, [any, any])
  else if b = 0xF0 then some (0, [(0x90, 0xBF), any, any])
  else if 0xF1 ≤ b ∧ b ≤ 0xF3 then some (b - 0xF0, [any, any, any])
  else if b = 0xF4 then some (4, [(0x80, 0x8F), any, any])
  else none

/-- Reads the bytes that follow the first one of a sequence.  Gives the code point and what comes
after it, or the number of bytes that did fit and what is wrong with the next. -/
def continueSequence (payload : Nat) :
    List (Nat × Nat) → List UInt8 → Except (Nat × DecodingFlaw) (Nat × List UInt8)
  | [], rest => .ok (payload, rest)
  | _ :: _, [] => .error (0, .unexpectedEnd)
  | (least, greatest) :: bounds, b :: rest =>
    if least ≤ b.toNat ∧ b.toNat ≤ greatest then
      match continueSequence (payload * 64 + b.toNat % 64) bounds rest with
      | .ok result => .ok result
      | .error (n, flaw) => .error (n + 1, flaw)
    else .error (0, .invalidContinuation)

theorem continueSequence_length {payload : Nat} {bounds : List (Nat × Nat)}
    {bytes : List UInt8} {point : Nat} {rest : List UInt8}
    (h : continueSequence payload bounds bytes = .ok (point, rest)) :
    rest.length ≤ bytes.length := by
  fun_induction continueSequence payload bounds bytes with
  | case1 => simp_all
  | case2 => simp at h
  | case3 => simp_all; omega
  | case4 => simp at h
  | case5 => simp at h

/-- The characters of a row of bytes, the first of which is at `position`. -/
def decodeFrom (position : Nat) : List UInt8 → Except DecodingFault (List Char)
  | [] => .ok []
  | b :: rest =>
    if b.toNat < 0x80 then
      (decodeFrom (position + 1) rest).map (Char.ofNat b.toNat :: ·)
    else
      match sequenceStart? b.toNat with
      | none => .error ⟨b, position, 1, .invalidStart⟩
      | some (payload, bounds) =>
        match h : continueSequence payload bounds rest with
        | .error (fitting, flaw) => .error ⟨b, position, fitting + 1, flaw⟩
        | .ok (point, after) =>
          (decodeFrom (position + 1 + bounds.length) after).map (Char.ofNat point :: ·)
termination_by bytes => bytes.length
decreasing_by
  · simp
  · have := continueSequence_length h
    simp only [List.length_cons]
    omega

/-- A text whose line ends are all single newlines. -/
def normalizeNewlines : List Char → List Char
  | [] => []
  | '\r' :: '\n' :: rest => '\n' :: normalizeNewlines rest
  | '\r' :: rest => '\n' :: normalizeNewlines rest
  | c :: rest => c :: normalizeNewlines rest

/-- The text that a file's bytes hold. -/
def decode (bytes : List UInt8) : Except DecodingFault (List Char) :=
  (decodeFrom 0 bytes).map normalizeNewlines

theorem normalizeNewlines_no_return (s : List Char) : '\r' ∉ normalizeNewlines s := by
  fun_induction normalizeNewlines s with
  | case1 => simp
  | case2 rest ih => simpa using ih
  | case3 rest _ ih => simpa using ih
  | case4 c rest _ hc ih =>
    simp only [List.mem_cons, not_or]
    exact ⟨fun h => hc h.symm, ih⟩

end SmallLisp.Text
