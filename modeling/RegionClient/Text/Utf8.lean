/-!
# UTF-8

Bytes and the text they spell. `decodeFront` reads the longest well-formed front of a byte
sequence, `decode?` asks for all of it, and `decodeReplacing` puts one U+FFFD for every maximal
piece that no character starts with.
-/

namespace RegionClient

/-- A sequence of bytes. -/
abbrev Bytes := List UInt8

namespace Text.Utf8

/-- The bytes of one character. -/
def encodeChar (c : Char) : Bytes := String.utf8EncodeChar c

/-- The bytes of a text. -/
def encode (cs : List Char) : Bytes := cs.flatMap encodeChar

/-- What a first byte above ASCII announces: the number of bytes that follow, the bounds of the
first of them, and the bits that the first byte itself contributes. -/
structure Lead where
  tails : Nat
  low : Nat
  high : Nat
  bits : Nat
  deriving DecidableEq, Repr

/-- The announcement of a first byte, unless no character starts with it. -/
def lead? (b : UInt8) : Option Lead :=
  let n := b.toNat
  if 0xC2 ≤ n ∧ n ≤ 0xDF then some ⟨1, 0x80, 0xBF, n - 0xC0⟩
  else if n = 0xE0 then some ⟨2, 0xA0, 0xBF, 0⟩
  else if n = 0xED then some ⟨2, 0x80, 0x9F, 0xD⟩
  else if 0xE1 ≤ n ∧ n ≤ 0xEF then some ⟨2, 0x80, 0xBF, n - 0xE0⟩
  else if n = 0xF0 then some ⟨3, 0x90, 0xBF, 0⟩
  else if 0xF1 ≤ n ∧ n ≤ 0xF3 then some ⟨3, 0x80, 0xBF, n - 0xF0⟩
  else if n = 0xF4 then some ⟨3, 0x80, 0x8F, 4⟩
  else none

/-- Reads `count` continuation bytes, the first of them between `low` and `high`. The value is
absent if one of them is missing; the rest then starts at the first byte that does not fit. -/
def readTails : (count low high value : Nat) → Bytes → Option Nat × Bytes
  | 0, _, _, value, rest => (some value, rest)
  | _ + 1, _, _, _, [] => (none, [])
  | count + 1, low, high, value, b :: rest =>
    if low ≤ b.toNat ∧ b.toNat ≤ high then
      readTails count 0x80 0xBF (value * 64 + b.toNat % 64) rest
    else (none, b :: rest)

private theorem length_readTails_le (count low high value : Nat) (bytes : Bytes) :
    (readTails count low high value bytes).2.length ≤ bytes.length := by
  induction count generalizing low high value bytes with
  | zero => simp [readTails]
  | succ count ih =>
    cases bytes with
    | nil => simp [readTails]
    | cons b rest =>
      simp only [readTails]
      split
      · exact Nat.le_succ_of_le (ih _ _ _ _)
      · exact Nat.le_refl _

/-- The first character of `b :: rest`, absent if the bytes spell none, and the bytes after it or
after the maximal piece that spells none. -/
def readChar (b : UInt8) (rest : Bytes) : Option Char × Bytes :=
  if b.toNat < 0x80 then (some (Char.ofNat b.toNat), rest)
  else match lead? b with
    | none => (none, rest)
    | some l =>
      let r := readTails l.tails l.low l.high l.bits rest
      (r.1.map Char.ofNat, r.2)

/-- Reading a character leaves no more than the bytes after the first. -/
theorem length_readChar_le (b : UInt8) (rest : Bytes) :
    (readChar b rest).2.length ≤ rest.length := by
  simp only [readChar]
  split
  · exact Nat.le_refl _
  · split
    · exact Nat.le_refl _
    · exact length_readTails_le _ _ _ _ _

/-- The characters of the longest well-formed front, and the bytes after it. -/
def decodeFront : Bytes → List Char × Bytes
  | [] => ([], [])
  | b :: rest =>
    match h : readChar b rest with
    | (some c, next) =>
      have : next.length < (b :: rest).length := by
        have := length_readChar_le b rest
        simp only [h] at this
        simpa using Nat.lt_succ_of_le this
      let r := decodeFront next
      (c :: r.1, r.2)
    | (none, _) => ([], b :: rest)
  termination_by bytes => bytes.length
  decreasing_by exact this

/-- The text that all the bytes spell. -/
def decode? (bytes : Bytes) : Option (List Char) :=
  match decodeFront bytes with
  | (cs, []) => some cs
  | (_, _ :: _) => none

/-- The text with U+FFFD for every maximal piece that spells nothing. -/
def decodeReplacing : Bytes → List Char
  | [] => []
  | b :: rest =>
    match h : readChar b rest with
    | (c, next) =>
      have : next.length < (b :: rest).length := by
        have := length_readChar_le b rest
        simp only [h] at this
        simpa using Nat.lt_succ_of_le this
      c.getD '\uFFFD' :: decodeReplacing next
  termination_by bytes => bytes.length
  decreasing_by exact this

/-- The bytes of a string. -/
def ofString (s : String) : Bytes := encode s.toList

/-- The string with U+FFFD for every piece that spells nothing. -/
def toStringReplacing (bytes : Bytes) : String := String.ofList (decodeReplacing bytes)

end Text.Utf8

end RegionClient
