import RegionClient.Json.Error
import RegionClient.Text.Hex

/-!
# JSON strings

Reading what stands between two quotes, with its escapes undone, and skipping it unread. Bytes
that are no UTF-8 are found when the string is complete, and reported at the first of them.
-/

namespace RegionClient.Json

/-- The unit that four hexadecimal digits spell. -/
def readUnit (bytes : Bytes) : Except Fault (Nat × Bytes) :=
  match bytes with
  | a :: b :: c :: d :: rest =>
    let value? (x : UInt8) := Text.Hex.value? (Char.ofNat x.toNat)
    match value? a, value? b, value? c, value? d with
    | some a, some b, some c, some d => .ok (((a * 16 + b) * 16 + c) * 16 + d, rest)
    | _, _, _, _ => .error (.here .invalidEscape rest)
  | _ => .error (.here .unfinishedString [])

/-- Reads the second half of a surrogate pair whose first half is `high`. -/
def readLowSurrogate (high : Nat) (bytes : Bytes) : Except Fault (Char × Bytes) :=
  match bytes with
  | [] => .error (.here .unfinishedString [])
  | [b] => .error (.here (if b = 0x5C then .unfinishedString else .unpairedSurrogate) [])
  | b :: c :: rest =>
    if b ≠ 0x5C then .error (.here .unpairedSurrogate (c :: rest))
    else if c ≠ 0x75 then .error (.here .unpairedSurrogate rest)
    else
      match readUnit rest with
      | .error fault => .error fault
      | .ok (low, rest) =>
        if 0xDC00 ≤ low ∧ low < 0xE000 then
          .ok (Char.ofNat (0x10000 + 0x400 * (high - 0xD800) + (low - 0xDC00)), rest)
        else .error (.here .loneSurrogate rest)

/-- Reads the escape of a character by its units. -/
def readUnits (bytes : Bytes) : Except Fault (Char × Bytes) :=
  match readUnit bytes with
  | .error fault => .error fault
  | .ok (unit, rest) =>
    if 0xDC00 ≤ unit ∧ unit < 0xE000 then .error (.here .loneSurrogate rest)
    else if 0xD800 ≤ unit ∧ unit < 0xDC00 then readLowSurrogate unit rest
    else .ok (Char.ofNat unit, rest)

/-- The character that a one-letter escape stands for. -/
def shortEscape? (b : UInt8) : Option Char :=
  match b.toNat with
  | 0x22 => some '\x22'
  | 0x5C => some '\\'
  | 0x2F => some '/'
  | 0x62 => some '\x08'
  | 0x66 => some '\x0c'
  | 0x6E => some '\n'
  | 0x72 => some '\r'
  | 0x74 => some '\t'
  | _ => none

/-- Reads what follows a backslash. -/
def readEscape (bytes : Bytes) : Except Fault (Char × Bytes) :=
  match bytes with
  | [] => .error (.here .unfinishedString [])
  | b :: rest =>
    match shortEscape? b with
    | some c => .ok (c, rest)
    | none => if b = 0x75 then readUnits rest else .error (.here .invalidEscape rest)

private theorem length_of_readUnit {bytes rest : Bytes} {n : Nat}
    (h : readUnit bytes = .ok (n, rest)) :
    rest.length < bytes.length := by
  unfold readUnit at h
  split at h
  · simp only at h
    split at h
    · simp only [Except.ok.injEq, Prod.mk.injEq] at h
      obtain ⟨-, rfl⟩ := h
      simp only [List.length_cons]
      omega
    · simp at h
  · simp at h

private theorem length_of_readLowSurrogate {high : Nat} {bytes rest : Bytes} {c : Char}
    (h : readLowSurrogate high bytes = .ok (c, rest)) : rest.length < bytes.length := by
  unfold readLowSurrogate at h
  split at h
  · simp at h
  · simp at h
  · split at h
    · simp at h
    · split at h
      · simp at h
      · split at h
        · simp at h
        · next hunit =>
          have := length_of_readUnit hunit
          split at h
          · simp only [Except.ok.injEq, Prod.mk.injEq] at h
            obtain ⟨-, rfl⟩ := h
            simp only [List.length_cons]
            omega
          · simp at h

private theorem length_of_readEscape {bytes rest : Bytes} {c : Char}
    (h : readEscape bytes = .ok (c, rest)) : rest.length < bytes.length := by
  unfold readEscape at h
  split at h
  · simp at h
  · split at h
    · simp only [Except.ok.injEq, Prod.mk.injEq] at h
      obtain ⟨-, rfl⟩ := h
      simp
    · split at h
      · unfold readUnits at h
        split at h
        · simp at h
        · next hunit =>
          have := length_of_readUnit hunit
          split at h
          · simp at h
          · split at h
            · have := length_of_readLowSurrogate h
              simp only [List.length_cons]
              omega
            · simp only [Except.ok.injEq, Prod.mk.injEq] at h
              obtain ⟨-, rfl⟩ := h
              simp only [List.length_cons]
              omega
      · simp at h

/-- Reads to the closing quote. `broken` is the number of bytes left after the first byte that is
no UTF-8, once one was met. -/
def readContent (broken : Option Nat) : Bytes → Except Fault (List Char × Bytes)
  | [] => .error (.here .unfinishedString [])
  | b :: rest =>
    if b = 0x22 then
      match broken with
      | none => .ok ([], rest)
      | some left => .error ⟨.invalidCodePoint, left⟩
    else if b = 0x5C then
      match h : readEscape rest with
      | .error fault => .error fault
      | .ok (c, next) =>
        have : next.length < (b :: rest).length := by
          have := length_of_readEscape h
          simp only [List.length_cons]
          omega
        match readContent broken next with
        | .error fault => .error fault
        | .ok (cs, rest) => .ok (c :: cs, rest)
    else if b.toNat < 0x20 then .error (.here .controlCharacter rest)
    else
      match h : Text.Utf8.readChar b rest with
      | (c, next) =>
        have : next.length < (b :: rest).length := by
          have := Text.Utf8.length_readChar_le b rest
          simp only [h] at this
          simp only [List.length_cons]
          omega
        let broken := if c.isNone then broken.or (some rest.length) else broken
        match readContent broken next with
        | .error fault => .error fault
        | .ok (cs, rest) => .ok (c.getD '\uFFFD' :: cs, rest)
  termination_by bytes => bytes.length
  decreasing_by all_goals simp only [List.length_cons] at *; omega

/-- Reads a string after its opening quote. -/
def readString (bytes : Bytes) : Except Fault (String × Bytes) :=
  match readContent none bytes with
  | .error fault => .error fault
  | .ok (cs, rest) => .ok (String.ofList cs, rest)

/-- Skips a string after its opening quote: escapes are looked at only as far as their length
depends on it, and text in no encoding passes. -/
def skipString : Bytes → Except Fault Bytes
  | [] => .error (.here .unfinishedString [])
  | b :: rest =>
    if b = 0x22 then .ok rest
    else if b = 0x5C then
      match rest with
      | [] => .error (.here .unfinishedString [])
      | e :: rest =>
        if (shortEscape? e).isSome then skipString rest
        else if e = 0x75 then
          match rest with
          | _ :: _ :: _ :: _ :: rest' =>
            match readUnit rest with
            | .error fault => .error fault
            | .ok _ => skipString rest'
          | _ => .error (.here .unfinishedString [])
        else .error (.here .invalidEscape rest)
    else if b.toNat < 0x20 then .error (.here .controlCharacter (b :: rest))
    else skipString rest

end RegionClient.Json
