import RegionClient.Json.Numeral
import RegionClient.Json.Text

/-!
# Reading JSON values

`Value.parse` reads a whole document. Nesting is limited; the readers take the depth that is left
and a bound on their own calls, which `Value.parse` computes from the length of the document.
-/

namespace RegionClient.Json

/-- The blanks of the format. -/
def isSpace (b : UInt8) : Bool := b == 0x20 || b == 0x0A || b == 0x09 || b == 0x0D

/-- The bytes after the blanks at the front. -/
def skipSpace (bytes : Bytes) : Bytes := bytes.dropWhile isSpace

/-- Reads the letters of a word, one by one. -/
def readWord : (letters : List UInt8) → Bytes → Except Fault Bytes
  | [], rest => .ok rest
  | _ :: _, [] => .error (.here .unfinishedValue [])
  | letter :: letters, b :: rest =>
    if b = letter then readWord letters rest else .error (.here .expectedIdentifier rest)

/-- The letters after the first of `null`. -/
def wordNull : List UInt8 := [0x75, 0x6C, 0x6C]

/-- The letters after the first of `true`. -/
def wordTrue : List UInt8 := [0x72, 0x75, 0x65]

/-- The letters after the first of `false`. -/
def wordFalse : List UInt8 := [0x61, 0x6C, 0x73, 0x65]

/-- Looks for the next element of a list: the rest from its first byte on, or absent at the
closing bracket, which stays. -/
def nextElement (first : Bool) (bytes : Bytes) : Except Fault (Option Bytes) :=
  match skipSpace bytes with
  | [] => .error (.next .unfinishedList [])
  | b :: rest =>
    if b = 0x5D then .ok none
    else if first then .ok (some (b :: rest))
    else if b = 0x2C then
      match skipSpace rest with
      | [] => .error (.next .unfinishedValue [])
      | c :: rest =>
        if c = 0x5D then .error (.next .trailingComma (c :: rest)) else .ok (some (c :: rest))
    else .error (.next .expectedCommaOrBracket (b :: rest))

/-- Looks for the next key of an object: the rest after its opening quote, or absent at the
closing brace, which stays. -/
def nextKey (first : Bool) (bytes : Bytes) : Except Fault (Option Bytes) :=
  match skipSpace bytes with
  | [] => .error (.next .unfinishedObject [])
  | b :: rest =>
    if b = 0x7D then .ok none
    else if first then
      if b = 0x22 then .ok (some rest) else .error (.next .keyNotString (b :: rest))
    else if b = 0x2C then
      match skipSpace rest with
      | [] => .error (.next .unfinishedValue [])
      | c :: rest =>
        if c = 0x22 then .ok (some rest)
        else if c = 0x7D then .error (.next .trailingComma (c :: rest))
        else .error (.next .keyNotString (c :: rest))
    else .error (.next .expectedCommaOrBrace (b :: rest))

/-- Reads the colon between a key and its value. -/
def readColon (bytes : Bytes) : Except Fault Bytes :=
  match skipSpace bytes with
  | [] => .error (.next .unfinishedObject [])
  | b :: rest => if b = 0x3A then .ok rest else .error (.next .expectedColon (b :: rest))

/-- Closes a list whose elements were all read. -/
def closeList (bytes : Bytes) : Except Fault Bytes :=
  match skipSpace bytes with
  | [] => .error (.next .unfinishedList [])
  | b :: rest =>
    if b = 0x5D then .ok rest
    else if b = 0x2C then
      match skipSpace rest with
      | 0x5D :: rest => .error (.next .trailingComma (0x5D :: rest))
      | rest => .error (.next .trailingCharacters rest)
    else .error (.next .trailingCharacters (b :: rest))

/-- Closes an object whose entries were all read. -/
def closeObject (bytes : Bytes) : Except Fault Bytes :=
  match skipSpace bytes with
  | [] => .error (.next .unfinishedObject [])
  | b :: rest =>
    if b = 0x7D then .ok rest
    else if b = 0x2C then .error (.next .trailingComma (b :: rest))
    else .error (.next .trailingCharacters (b :: rest))

/-- The lists and objects that may be open at once are fewer than this. -/
def depthLimit : Nat := 128

mutual

/-- Reads one value. -/
def readValue : (steps depth : Nat) → Bytes → Except Fault (Value × Bytes)
  | 0, _, bytes => .error (.here .unfinishedValue bytes)
  | steps + 1, depth, bytes =>
    match skipSpace bytes with
    | [] => .error (.next .unfinishedValue [])
    | b :: rest =>
      if b = 0x6E then do return (.null, ← readWord wordNull rest)
      else if b = 0x74 then do return (.bool true, ← readWord wordTrue rest)
      else if b = 0x66 then do return (.bool false, ← readWord wordFalse rest)
      else if b = 0x2D then do
        let (n, rest) ← readNumber true rest
        return (.number n, rest)
      else if (digit? b).isSome then do
        let (n, rest) ← readNumber false (b :: rest)
        return (.number n, rest)
      else if b = 0x22 then do
        let (s, rest) ← readString rest
        return (.string s, rest)
      else if b = 0x5B then
        if depth ≤ 1 then .error (.next .tooDeep (b :: rest))
        else do
          let (items, rest) ← readElements steps (depth - 1) true rest
          return (.array items, ← closeList rest)
      else if b = 0x7B then
        if depth ≤ 1 then .error (.next .tooDeep (b :: rest))
        else do
          let (entries, rest) ← readEntries steps (depth - 1) true [] rest
          return (.object entries, ← closeObject rest)
      else .error (.next .expectedValue (b :: rest))

/-- Reads the elements of a list up to its closing bracket. -/
def readElements : (steps depth : Nat) → (first : Bool) → Bytes →
    Except Fault (List Value × Bytes)
  | 0, _, _, bytes => .error (.here .unfinishedList bytes)
  | steps + 1, depth, first, bytes => do
    match ← nextElement first bytes with
    | none => return ([], skipSpace bytes)
    | some bytes =>
      let (item, rest) ← readValue steps depth bytes
      let (items, rest) ← readElements steps depth false rest
      return (item :: items, rest)

/-- Reads the entries of an object up to its closing brace, on top of those read before. -/
def readEntries : (steps depth : Nat) → (first : Bool) → List (String × Value) → Bytes →
    Except Fault (List (String × Value) × Bytes)
  | 0, _, _, _, bytes => .error (.here .unfinishedObject bytes)
  | steps + 1, depth, first, entries, bytes => do
    match ← nextKey first bytes with
    | none => return (entries, skipSpace bytes)
    | some bytes =>
      let (key, rest) ← readString bytes
      let rest ← readColon rest
      let (value, rest) ← readValue steps depth rest
      readEntries steps depth false (insertEntry key value entries) rest

end

/-- Refuses anything but blanks after a document. -/
def finish (bytes : Bytes) : Except Fault Unit :=
  match skipSpace bytes with
  | [] => .ok ()
  | b :: rest => .error (.next .trailingCharacters (b :: rest))

/-- Reads a document with `reader` and places its faults. -/
def readDocument {α : Type} (reader : Bytes → Except Fault (α × Bytes)) (document : Bytes) :
    Except Error α :=
  let result : Except Fault α := do
    let (value, rest) ← reader document
    finish rest
    return value
  result.mapError (·.locate document)

/-- The value that a document describes. Models `from_slice` of `serde_json`. -/
def Value.parse (document : Bytes) : Except Error Value :=
  readDocument (readValue (2 * document.length + 2) depthLimit) document

end RegionClient.Json
