import RegionClient.Json.Reader

/-!
# Skipping JSON values

Passing over a value whose content does not matter. The structure is checked, but numbers may be
out of range, strings may hold anything, and nesting has no limit. The open lists and objects are
kept in a stack, so the walk is one loop over the document.
-/

namespace RegionClient.Json

/-- What an open bracket or brace will be closed by. -/
inductive Enclosure where
  | list
  | object
  deriving DecidableEq

/-- Skips an exponent after its mark. -/
def skipExponent (bytes : Bytes) : Except Fault Bytes :=
  let bytes := match bytes with
    | b :: rest => if b = 0x2B ∨ b = 0x2D then rest else b :: rest
    | [] => []
  match bytes with
  | [] => .error (.here .invalidNumber [])
  | b :: rest =>
    if (digit? b).isSome then .ok (dropDigits rest) else .error (.here .invalidNumber rest)

/-- Skips an exponent if there is one. -/
def skipOptionalExponent (bytes : Bytes) : Except Fault Bytes :=
  match bytes with
  | b :: rest => if isExponentMark b then skipExponent rest else .ok (b :: rest)
  | [] => .ok []

/-- Skips what may follow integer digits. -/
def skipFraction (bytes : Bytes) : Except Fault Bytes :=
  match bytes with
  | 0x2E :: rest =>
    if countDigits rest = 0 then .error (.next .invalidNumber rest)
    else skipOptionalExponent (dropDigits rest)
  | bytes => skipOptionalExponent bytes

/-- Skips a number after its minus sign, if it has one. -/
def skipNumber (bytes : Bytes) : Except Fault Bytes :=
  match bytes with
  | [] => .error (.here .invalidNumber [])
  | b :: rest =>
    match digit? b with
    | none => .error (.here .invalidNumber rest)
    | some 0 =>
      if 0 < countDigits rest then .error (.next .invalidNumber rest) else skipFraction rest
    | some _ => skipFraction (dropDigits rest)

/-- What the walk does next: look for a value, or look behind a value for a comma or an end. -/
inductive SkipState where
  | value
  | behind (afterValue : Bool)

/-- Skips the key and the colon in front of an object's next value. -/
def skipKey (bytes : Bytes) : Except Fault Bytes :=
  match skipSpace bytes with
  | [] => .error (.next .unfinishedObject [])
  | b :: rest =>
    if b ≠ 0x22 then .error (.next .keyNotString (b :: rest))
    else do readColon (← skipString rest)

/-- Skips a value inside the open enclosures, innermost first, until none is open. -/
def skipWalk : (steps : Nat) → List Enclosure → SkipState → Bytes → Except Fault Bytes
  | 0, _, _, bytes => .error (.here .unfinishedValue bytes)
  | steps + 1, stack, .value, bytes =>
    match skipSpace bytes with
    | [] => .error (.next .unfinishedValue [])
    | b :: rest =>
      let behind (rest : Except Fault Bytes) := do skipWalk steps stack (.behind true) (← rest)
      if b = 0x6E then behind (readWord wordNull rest)
      else if b = 0x74 then behind (readWord wordTrue rest)
      else if b = 0x66 then behind (readWord wordFalse rest)
      else if b = 0x2D then behind (skipNumber rest)
      else if (digit? b).isSome then behind (skipNumber (b :: rest))
      else if b = 0x22 then behind (skipString rest)
      else if b = 0x5B then skipWalk steps (.list :: stack) (.behind false) rest
      else if b = 0x7B then skipWalk steps (.object :: stack) (.behind false) rest
      else .error (.next .expectedValue (b :: rest))
  | _ + 1, [], .behind _, bytes => .ok bytes
  | steps + 1, enclosure :: stack, .behind afterValue, bytes =>
    let intoNext (rest : Bytes) : Except Fault Bytes := match enclosure with
      | .list => skipWalk steps (enclosure :: stack) .value rest
      | .object => do skipWalk steps (enclosure :: stack) .value (← skipKey rest)
    match skipSpace bytes, enclosure with
    | [], .list => .error (.next .unfinishedList [])
    | [], .object => .error (.next .unfinishedObject [])
    | b :: rest, enclosure =>
      if b = 0x2C ∧ afterValue then intoNext rest
      else if b = (match enclosure with | .list => 0x5D | .object => 0x7D) then
        skipWalk steps stack (.behind true) rest
      else if afterValue then
        .error (.next (match enclosure with
          | .list => .expectedCommaOrBracket
          | .object => .expectedCommaOrBrace) (b :: rest))
      else intoNext (b :: rest)

/-- Skips one value. -/
def skipValue (bytes : Bytes) : Except Fault Bytes :=
  skipWalk (2 * bytes.length + 2) [] .value bytes

end RegionClient.Json
