import RegionClient.Text.Utf8

/-!
# Deflate

The format in which bodies are compressed: blocks of bits, of which each is stored as it is, written
in the fixed codes, or written in codes that it begins with. A symbol is a byte, the end of the
block, or a copy of bytes that were read before. What does not follow the format has no content.
-/

namespace RegionClient.Http.Deflate

/-- The bits of bytes, the lowest of each byte first. -/
def bitsOf (bytes : Bytes) : List Bool :=
  bytes.flatMap fun b ↦ (List.range 8).map b.toNat.testBit

/-- The number that the first bits spell, the lowest first, and the bits after them. -/
def readNumber? : (count : Nat) → List Bool → Option (Nat × List Bool)
  | 0, bits => some (0, bits)
  | _ + 1, [] => none
  | count + 1, bit :: bits => (readNumber? count bits).map fun r ↦ (bit.toNat + 2 * r.1, r.2)

/-! ## Codes -/

/-- A prefix code: how many symbols are written in one bit, in two, and so on, and the symbols in
the order of what is written for them. -/
structure Code where
  counts : List Nat
  symbols : Array Nat
  deriving DecidableEq, Repr

namespace Code

/-- The code that writes each symbol in the given number of bits, at most 15; symbols with none are
not written. No bits may be left over, unless there is one symbol at most. -/
def ofLengths? (lengths : List Nat) : Option Code :=
  let sizes := (List.range 15).map (· + 1)
  let counts := sizes.map lengths.count
  let symbols := sizes.flatMap fun size ↦
    lengths.zipIdx.filterMap fun (length, symbol) ↦ if length = size then some symbol else none
  let used := counts.zipIdx.foldl (fun sum (count, i) ↦ sum + count * Nat.pow 2 (14 - i)) 0
  if used = Nat.pow 2 15 ∨ symbols.length ≤ 1 ∧ used ≤ Nat.pow 2 15 then
    some ⟨counts, symbols.toArray⟩
  else none

/-- Reads on behind bits that spell `code`: of the symbols with so many bits, the first is spelled
by `first` and has the place `place`. -/
def readFrom? (symbols : Array Nat) :
    (counts : List Nat) → (code first place : Nat) → List Bool → Option (Nat × List Bool)
  | count :: counts, code, first, place, bit :: bits =>
    let code := 2 * code + bit.toNat
    let first := 2 * first
    if code < first + count then symbols[place + (code - first)]?.map (·, bits)
    else readFrom? symbols counts code (first + count) (place + count) bits
  | _, _, _, _, _ => none

/-- The first symbol, and the bits after it. -/
def read? (c : Code) (bits : List Bool) : Option (Nat × List Bool) :=
  readFrom? c.symbols c.counts 0 0 0 bits

end Code

/-- The codes of a block, for bytes and lengths of copies, and for their distances. -/
structure Codes where
  symbols : Code
  distances : Code
  deriving DecidableEq, Repr

/-- The codes that need not be written. -/
def fixedCodes? : Option Codes := do
  let symbols ← Code.ofLengths? (List.replicate 144 8 ++ List.replicate 112 9 ++
    List.replicate 24 7 ++ List.replicate 8 8)
  let distances ← Code.ofLengths? (List.replicate 32 5)
  return ⟨symbols, distances⟩

/-- The order in which the lengths of the code for lengths are written. -/
def lengthOrder : List Nat := [16, 17, 18, 0, 8, 7, 9, 6, 10, 5, 11, 4, 12, 3, 13, 2, 14, 1, 15]

/-- A run of lengths: one length, the last once more, or zeros. -/
def readRun? (code : Code) (last : Option Nat) (bits : List Bool) :
    Option (List Nat × List Bool) := do
  let (symbol, bits) ← code.read? bits
  match symbol with
  | 16 =>
    let (n, bits) ← readNumber? 2 bits
    return (List.replicate (n + 3) (← last), bits)
  | 17 =>
    let (n, bits) ← readNumber? 3 bits
    return (List.replicate (n + 3) 0, bits)
  | 18 =>
    let (n, bits) ← readNumber? 7 bits
    return (List.replicate (n + 11) 0, bits)
  | length => return ([length], bits)

/-- As many lengths as are wanted, the last first; a run takes one step. -/
def readLengths? (code : Code) (wanted : Nat) :
    (steps : Nat) → (read : List Nat) → List Bool → Option (List Nat × List Bool)
  | 0, read, bits => if read.length = wanted then some (read, bits) else none
  | steps + 1, read, bits =>
    if read.length = wanted then some (read, bits)
    else (readRun? code read.head? bits).bind fun (run, bits) ↦
      readLengths? code wanted steps (run ++ read) bits

/-- The codes that a block begins with. -/
def readCodes? (bits : List Bool) : Option (Codes × List Bool) := do
  let (symbols, bits) ← readNumber? 5 bits
  let (distances, bits) ← readNumber? 5 bits
  let (count, bits) ← readNumber? 4 bits
  if 286 < symbols + 257 ∨ 30 < distances + 1 then failure
  let (sizes, bits) ← (List.range (count + 4)).foldlM (fun (sizes, bits) _ ↦
    (readNumber? 3 bits).map fun r ↦ (sizes ++ [r.1], r.2)) (([] : List Nat), bits)
  let code ← Code.ofLengths? ((List.range 19).map fun symbol ↦
    ((lengthOrder.zip sizes).lookup symbol).getD 0)
  let wanted := symbols + 257 + (distances + 1)
  let (lengths, bits) ← readLengths? code wanted wanted [] bits
  let lengths := lengths.reverse
  return (⟨← Code.ofLengths? (lengths.take (symbols + 257)),
    ← Code.ofLengths? (lengths.drop (symbols + 257))⟩, bits)

/-! ## Blocks -/

/-- A number in a range that begins at `start`: the first `group` ranges hold one number each, the
next `group` ranges too, and then the ranges of each group are twice as long as those before. -/
def readInRange? (group start range : Nat) (bits : List Bool) : Option (Nat × List Bool) :=
  if range < group then some (start + range, bits)
  else
    let extra := range / group - 1
    (readNumber? extra bits).map fun r ↦
      (start + (group + range % group) * Nat.pow 2 extra + r.1, r.2)

/-- The length of a copy, by its symbol; the last symbol means the greatest length. -/
def readLength? (symbol : Nat) (bits : List Bool) : Option (Nat × List Bool) :=
  if symbol < 285 then readInRange? 4 3 (symbol - 257) bits
  else if symbol = 285 then some (258, bits)
  else none

/-- The distance of a copy, by its symbol. -/
def readDistance? (symbol : Nat) (bits : List Bool) : Option (Nat × List Bool) :=
  if symbol < 30 then readInRange? 2 1 symbol bits else none

/-- Copies bytes from so far back; a copy may run over what it has written. -/
def copyBack (distance : Nat) : (length : Nat) → Array UInt8 → Array UInt8
  | 0, content => content
  | length + 1, content =>
    copyBack distance length (content.push (content.getD (content.size - distance) 0))

/-- The content with the symbols up to the end of the block, and the bits after it. -/
def readSymbols? (codes : Codes) :
    (steps : Nat) → Array UInt8 → List Bool → Option (Array UInt8 × List Bool)
  | 0, _, _ => none
  | steps + 1, content, bits => do
    let (symbol, bits) ← codes.symbols.read? bits
    if symbol < 256 then readSymbols? codes steps (content.push (.ofNat symbol)) bits
    else if symbol = 256 then some (content, bits)
    else
      let (length, bits) ← readLength? symbol bits
      let (symbol, bits) ← codes.distances.read? bits
      let (distance, bits) ← readDistance? symbol bits
      if distance ≤ content.size then
        readSymbols? codes steps (copyBack distance length content) bits
      else none

/-- The content with so many bytes, and the bits after them. -/
def readBytes? : (count : Nat) → Array UInt8 → List Bool → Option (Array UInt8 × List Bool)
  | 0, content, bits => some (content, bits)
  | count + 1, content, bits =>
    (readNumber? 8 bits).bind fun (n, bits) ↦ readBytes? count (content.push (.ofNat n)) bits

/-- The content with a stored block, which begins at a whole byte with its length. -/
def readStored? (content : Array UInt8) (bits : List Bool) :
    Option (Array UInt8 × List Bool) := do
  let bits := bits.drop (bits.length % 8)
  let (length, bits) ← readNumber? 16 bits
  let (check, bits) ← readNumber? 16 bits
  if check = 0xFFFF - length then readBytes? length content bits else none

/-- The content with the blocks up to the last one, and the bits after it. Each block takes bits, so
that there are no more steps than bits. -/
def readBlocks? : (steps : Nat) → Array UInt8 → List Bool → Option (Array UInt8 × List Bool)
  | 0, _, _ => none
  | steps + 1, content, bits => do
    let (last, bits) ← readNumber? 1 bits
    let (type, bits) ← readNumber? 2 bits
    let (content, bits) ← match type with
      | 0 => readStored? content bits
      | 1 => readSymbols? (← fixedCodes?) (bits.length + 1) content bits
      | 2 => do
        let (codes, bits) ← readCodes? bits
        readSymbols? codes (bits.length + 1) content bits
      | _ => none
    if last = 1 then some (content, bits) else readBlocks? steps content bits

/-- The content of compressed bytes, and the bytes after the last block. -/
def decode? (bytes : Bytes) : Option (Bytes × Bytes) :=
  let bits := bitsOf bytes
  (readBlocks? bits.length #[] bits).map fun (content, rest) ↦
    (content.toList, bytes.drop (bytes.length - rest.length / 8))

end RegionClient.Http.Deflate
