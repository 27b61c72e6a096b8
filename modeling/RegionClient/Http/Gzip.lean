import RegionClient.Http.Deflate

/-!
# Gzip

Reading compressed bodies: a header, compressed blocks, and behind them the checksum and the length,
which must agree with what was read. What stands behind that is left alone.
-/

namespace RegionClient.Http.Gzip

/-- The checksum register after one bit. -/
def crcBit (crc : UInt32) : UInt32 :=
  if crc &&& 1 = 1 then (crc >>> 1) ^^^ 0xEDB88320 else crc >>> 1

/-- The checksum register after one byte. -/
def crcByte (crc : UInt32) (b : UInt8) : UInt32 := Nat.repeat crcBit 8 (crc ^^^ b.toUInt32)

/-- The checksum of bytes. -/
def crc32 (bytes : Bytes) : UInt32 := bytes.foldl crcByte 0xFFFFFFFF ^^^ 0xFFFFFFFF

/-- The number that bytes spell, the lowest first. -/
def littleEndian (bytes : Bytes) : Nat := bytes.foldr (fun b n ↦ b.toNat + 256 * n) 0

/-- The bytes after a text that ends with a zero. -/
def skipText? (bytes : Bytes) : Option Bytes :=
  match bytes.dropWhile (· ≠ 0) with
  | _ :: rest => some rest
  | [] => none

/-- The bytes after a header. -/
def skipHeader? : Bytes → Option Bytes
  | 0x1F :: 0x8B :: 8 :: flags :: _ :: _ :: _ :: _ :: _ :: _ :: rest => do
    let has (bit : Nat) : Bool := flags.toNat / bit % 2 == 1
    let rest ← if has 4 then
        match rest with
        | a :: b :: rest =>
          let length := littleEndian [a, b]
          if length ≤ rest.length then some (rest.drop length) else none
        | _ => none
      else some rest
    let rest ← if has 8 then skipText? rest else some rest
    let rest ← if has 16 then skipText? rest else some rest
    if has 2 then
      match rest with
      | _ :: _ :: rest => some rest
      | _ => none
    else some rest
  | _ => none

/-- The content of a compressed body; an empty one has none. -/
def decode? (bytes : Bytes) : Option Bytes :=
  if bytes.isEmpty then some []
  else do
    let rest ← skipHeader? bytes
    let (content, rest) ← Deflate.decode? rest
    let checksum := littleEndian (rest.take 4)
    let length := littleEndian ((rest.drop 4).take 4)
    if 8 ≤ rest.length ∧ checksum = (crc32 content).toNat ∧
        length = content.length % Nat.pow 2 32 then
      some content
    else none

end RegionClient.Http.Gzip
