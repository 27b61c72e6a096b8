import RegionClient.Text.Hex
import RegionClient.Text.Utf8

/-!
# Percent escapes

Text in which some bytes are written as `%` and two upper-case digits. A set of escaped characters
speaks of ASCII; other characters are always escaped. Main statement: what was escaped is undone
by `decode`, if the set holds `%` (`decode_encode`).
-/

namespace RegionClient.Text.Percent

/-- The escape of one byte. -/
def escapeByte (b : UInt8) : List Char := ['%', Hex.upper (b.toNat / 16), Hex.upper (b.toNat % 16)]

/-- The escapes of all bytes of a character. -/
def escape (c : Char) : List Char := (Utf8.encodeChar c).flatMap escapeByte

/-- A character, escaped if it is in the set or outside ASCII. -/
def encodeChar (escaped : Char → Bool) (c : Char) : List Char :=
  if c.toNat < 0x80 ∧ escaped c = false then [c] else escape c

/-- A text with the characters of the set, and those outside ASCII, escaped. -/
def encode (escaped : Char → Bool) (cs : List Char) : List Char := cs.flatMap (encodeChar escaped)

/-- The bytes of a text with its escapes undone; what is no escape stays as it is. -/
def decode : List Char → Bytes
  | [] => []
  | '%' :: high :: low :: rest =>
    match Hex.value? high, Hex.value? low with
    | some h, some l => UInt8.ofNat (16 * h + l) :: decode rest
    | _, _ => Utf8.encodeChar '%' ++ decode (high :: low :: rest)
  | c :: rest => Utf8.encodeChar c ++ decode rest

/-- The escape of a byte is undone. -/
theorem decode_escapeByte (b : UInt8) (rest : List Char) :
    decode (escapeByte b ++ rest) = b :: decode rest := by
  have hb : b.toNat < 256 := b.toNat_lt_size
  have hhigh := Hex.value?_upper (n := b.toNat / 16) (by omega)
  have hlow := Hex.value?_upper (n := b.toNat % 16) (by omega)
  have hjoin : 16 * (b.toNat / 16) + b.toNat % 16 = b.toNat := by omega
  simp only [escapeByte, List.cons_append, List.nil_append, decode, hhigh, hlow, hjoin,
    UInt8.ofNat_toNat]

/-- The escapes of bytes are undone. -/
theorem decode_flatMap_escapeByte (bytes : Bytes) (rest : List Char) :
    decode (bytes.flatMap escapeByte ++ rest) = bytes ++ decode rest := by
  induction bytes with
  | nil => simp
  | cons b bytes ih => simp [List.flatMap_cons, List.append_assoc, decode_escapeByte, ih]

/-- A character other than `%` is its own bytes. -/
theorem decode_cons_of_ne {c : Char} (h : c ≠ '%') (rest : List Char) :
    decode (c :: rest) = Utf8.encodeChar c ++ decode rest := by
  rw [decode]
  exact fun _ _ _ e _ ↦ h e

/-- Escaping with a set that holds `%` is undone. -/
theorem decode_encode {escaped : Char → Bool} (h : escaped '%' = true) (cs : List Char) :
    decode (encode escaped cs) = Utf8.encode cs := by
  induction cs with
  | nil => rfl
  | cons c rest ih =>
    simp only [encode, List.flatMap_cons, Utf8.encode] at ih ⊢
    rw [encodeChar]
    split
    · next hc =>
      have hne : c ≠ '%' := by rintro rfl; simp [h] at hc
      rw [List.singleton_append, decode_cons_of_ne hne, ih]
    · rw [escape, decode_flatMap_escapeByte, ih]

end RegionClient.Text.Percent
