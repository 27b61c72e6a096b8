import RegionClient.Json.Printer
import RegionClient.Json.Skip

/-!
# Records in JSON

A record type is described by its `Shape`: a name, and fields in declaration order, each with a
name, a kind and perhaps a value for its absence. From a shape come a printer and two readers, one
of text and one of decoded values. A record is read from an object, where unknown keys are passed
over, or from a list of its fields in order.
-/

namespace RegionClient.Json

/-- What a field holds. -/
inductive Kind where
  | text
  | optionalText
  | texts
  | flag
  | natural (bits : Nat)
  deriving DecidableEq

/-- The wording of a kind in messages. -/
def Kind.describe : Kind → String
  | text | optionalText => "a string"
  | texts => "a sequence"
  | flag => "a boolean"
  | natural bits => "u" ++ toString bits

/-- What was read for a field. -/
inductive Datum where
  | text (s : String)
  | optionalText (s : Option String)
  | texts (items : List String)
  | flag (b : Bool)
  | natural (n : Nat)
  deriving DecidableEq

/-- A declared field. `fallback` stands for an absent field that need not be given; a field that
is not `printed` is read but never written. -/
structure Field where
  name : String
  kind : Kind
  fallback : Option Datum := none
  printed : Bool := true

/-- A declared record. -/
structure Shape where
  name : String
  fields : List Field

/-- The wording of a record in messages. -/
def Shape.describe (shape : Shape) : String := "struct " ++ shape.name

/-- The wording of a record of which fields were missing at the end of a list. -/
def Shape.describeLength (shape : Shape) : String :=
  shape.describe ++ " with " ++ toString shape.fields.length ++ " elements"

/-- A number as messages show it. -/
def Number.found : Number → Found
  | .integer n => .integer n.value
  | .float x => .float x

/-- The natural number below 2^bits that a number is. -/
def Number.toNatural (bits : Nat) (n : Number) : Except Cause Nat :=
  match n with
  | .integer i =>
    if 0 ≤ i.value ∧ i.value < Nat.pow 2 bits then .ok i.value.toNat
    else .error (.wrongValue n.found (Kind.natural bits).describe)
  | .float _ => .error (.wrongType n.found (Kind.natural bits).describe)

/-! ## Reading text -/

/-- The fault of a value, from its first byte on, where something else is expected. A word, number
or string is read in full, and may be faulty itself; a list or object is not entered. -/
def misplaced (expected : String) (b : UInt8) (rest : Bytes) : Fault :=
  let wrong (found : Found) (rest : Bytes) : Fault := .here (.wrongType found expected) rest
  let word (letters : List UInt8) (found : Found) : Fault := match readWord letters rest with
    | .ok rest => wrong found rest
    | .error fault => fault
  let number (result : Except Fault (Number × Bytes)) : Fault := match result with
    | .ok (n, rest) => wrong n.found rest
    | .error fault => fault
  if b = 0x6E then word wordNull .null
  else if b = 0x74 then word wordTrue (.bool true)
  else if b = 0x66 then word wordFalse (.bool false)
  else if b = 0x2D then number (readNumber true rest)
  else if (digit? b).isSome then number (readNumber false (b :: rest))
  else if b = 0x22 then match readString rest with
    | .ok (s, rest) => wrong (.string s) rest
    | .error fault => fault
  else if b = 0x5B then wrong .sequence (b :: rest)
  else if b = 0x7B then wrong .map (b :: rest)
  else .next .expectedValue (b :: rest)

/-- Reads a string. -/
def readText (bytes : Bytes) : Except Fault (String × Bytes) :=
  match skipSpace bytes with
  | [] => .error (.next .unfinishedValue [])
  | b :: rest => if b = 0x22 then readString rest else .error (misplaced "a string" b rest)

/-- Reads strings up to the closing bracket of their list. -/
def readTextElements : (steps : Nat) → (first : Bool) → Bytes →
    Except Fault (List String × Bytes)
  | 0, _, bytes => .error (.here .unfinishedList bytes)
  | steps + 1, first, bytes => do
    match ← nextElement first bytes with
    | none => return ([], skipSpace bytes)
    | some bytes =>
      let (item, rest) ← readText bytes
      let (items, rest) ← readTextElements steps false rest
      return (item :: items, rest)

/-- Reads a list of strings. -/
def readTexts (bytes : Bytes) : Except Fault (List String × Bytes) :=
  match skipSpace bytes with
  | [] => .error (.next .unfinishedValue [])
  | b :: rest =>
    if b = 0x5B then do
      let (items, rest) ← readTextElements (rest.length + 1) true rest
      return (items, ← closeList rest)
    else .error (misplaced "a sequence" b rest)

/-- Reads a natural number below 2^bits. -/
def readNatural (bits : Nat) (bytes : Bytes) : Except Fault (Nat × Bytes) :=
  let bounded (result : Except Fault (Number × Bytes)) : Except Fault (Nat × Bytes) := do
    let (n, rest) ← result
    match n.toNatural bits with
    | .ok n => return (n, rest)
    | .error cause => throw (.here cause rest)
  match skipSpace bytes with
  | [] => .error (.next .unfinishedValue [])
  | b :: rest =>
    if b = 0x2D then bounded (readNumber true rest)
    else if (digit? b).isSome then bounded (readNumber false (b :: rest))
    else .error (misplaced (Kind.natural bits).describe b rest)

/-- Reads `true` or `false`. -/
def readFlag (bytes : Bytes) : Except Fault (Bool × Bytes) :=
  match skipSpace bytes with
  | [] => .error (.next .unfinishedValue [])
  | b :: rest =>
    if b = 0x74 then do return (true, ← readWord wordTrue rest)
    else if b = 0x66 then do return (false, ← readWord wordFalse rest)
    else .error (misplaced "a boolean" b rest)

/-- Reads a value of the kind. -/
def readKind (kind : Kind) (bytes : Bytes) : Except Fault (Datum × Bytes) :=
  match kind with
  | .text => do
    let (s, rest) ← readText bytes
    return (.text s, rest)
  | .texts => do
    let (items, rest) ← readTexts bytes
    return (.texts items, rest)
  | .flag => do
    let (b, rest) ← readFlag bytes
    return (.flag b, rest)
  | .natural bits => do
    let (n, rest) ← readNatural bits bytes
    return (.natural n, rest)
  | .optionalText =>
    match skipSpace bytes with
    | 0x6E :: rest => do return (.optionalText none, ← readWord wordNull rest)
    | bytes => do
      let (s, rest) ← readText bytes
      return (.optionalText (some s), rest)

/-- Where the rest starts after an enclosure was given up and its end was looked for: behind the
end if it stands there, else at the first byte that is no blank. -/
def abandon (close : UInt8) (bytes : Bytes) : Bytes :=
  match skipSpace bytes with
  | [] => []
  | b :: rest => if b = close then rest else b :: rest

/-- What was read for the fields of a shape so far, by field name. -/
abbrev Gathered := List (String × Datum)

/-- The data of all fields in order, with fallbacks for absent ones. -/
def gather (fields : List Field) (found : Gathered) : Except Cause (List Datum) :=
  fields.mapM fun field ↦
    match found.lookup field.name with
    | some datum => .ok datum
    | none => match field.fallback with
      | some datum => .ok datum
      | none => .error (.missingField field.name)

/-- Reads the entries of a record's object up to its closing brace. -/
def readFields (fields : List Field) : (steps : Nat) → (first : Bool) → Gathered → Bytes →
    Except Fault (Gathered × Bytes)
  | 0, _, _, bytes => .error (.here .unfinishedObject bytes)
  | steps + 1, first, found, bytes => do
    match ← nextKey first bytes with
    | none => return (found, skipSpace bytes)
    | some bytes =>
      let (key, rest) ← readString bytes
      match fields.find? (·.name = key) with
      | none =>
        let rest ← skipValue (← readColon rest)
        readFields fields steps false found rest
      | some field =>
        if (found.lookup key).isSome then
          throw (.here (.duplicateField key) (abandon 0x7D rest))
        else
          let (datum, rest) ← readKind field.kind (← readColon rest)
          readFields fields steps false ((key, datum) :: found) rest

/-- Reads a record's fields from a list, `read` of them before. -/
def readListed (shape : Shape) : (fields : List Field) → (first : Bool) → (read : Nat) → Bytes →
    Except Fault (List Datum × Bytes)
  | [], _, _, bytes => .ok ([], bytes)
  | field :: fields, first, read, bytes => do
    match ← nextElement first bytes with
    | some bytes =>
      let (datum, rest) ← readKind field.kind bytes
      let (data, rest) ← readListed shape fields false (read + 1) rest
      return (datum :: data, rest)
    | none =>
      match field.fallback with
      | some datum =>
        let (data, rest) ← readListed shape fields first (read + 1) bytes
        return (datum :: data, rest)
      | none =>
        throw (.here (.wrongLength read shape.describeLength) (abandon 0x5D bytes))

/-- Reads a record. -/
def readRecord (shape : Shape) (bytes : Bytes) : Except Fault (List Datum × Bytes) :=
  match skipSpace bytes with
  | [] => .error (.next .unfinishedValue [])
  | b :: rest =>
    if b = 0x5B then do
      let (data, rest) ← readListed shape shape.fields true 0 rest
      return (data, ← closeList rest)
    else if b = 0x7B then do
      let (found, rest) ← readFields shape.fields (rest.length + 1) true [] rest
      match gather shape.fields found with
      | .ok data => return (data, ← closeObject rest)
      | .error cause => throw (.here cause (abandon 0x7D rest))
    else .error (misplaced shape.describe b rest)

/-- The data of the record that a document describes. -/
def Shape.parse (shape : Shape) (document : Bytes) : Except Error (List Datum) :=
  readDocument (readRecord shape) document

/-- The strings that a document lists. -/
def parseTexts (document : Bytes) : Except Error (List String) := readDocument readTexts document

/-! ## Reading decoded values -/

/-- A value as messages show it. -/
def Value.found : Value → Found
  | .null => .null
  | .bool b => .bool b
  | .number n => n.found
  | .string s => .string s
  | .array _ => .sequence
  | .object _ => .map

/-- The string a value is. -/
def Value.toTextOf (v : Value) : Except Cause String :=
  match v with
  | .string s => .ok s
  | v => .error (.wrongType v.found "a string")

/-- The datum of a kind that a value holds. -/
def Kind.ofValue (kind : Kind) (v : Value) : Except Cause Datum :=
  match kind, v with
  | .text, v => do return .text (← v.toTextOf)
  | .optionalText, .null => .ok (.optionalText none)
  | .optionalText, v => do return .optionalText (some (← v.toTextOf))
  | .texts, .array items => do return .texts (← items.mapM Value.toTextOf)
  | .flag, .bool b => .ok (.flag b)
  | .natural bits, .number n => do return .natural (← n.toNatural bits)
  | kind, v => .error (.wrongType v.found kind.describe)

/-- The data of the fields that a list gives in order, `read` of them before. -/
def Shape.ofItems (shape : Shape) : (fields : List Field) → (read : Nat) → List Value →
    Except Cause (List Datum × List Value)
  | [], _, items => .ok ([], items)
  | field :: fields, read, v :: items => do
    let datum ← field.kind.ofValue v
    let (data, rest) ← shape.ofItems fields (read + 1) items
    return (datum :: data, rest)
  | field :: fields, read, [] =>
    match field.fallback with
    | some datum => do
      let (data, rest) ← shape.ofItems fields (read + 1) []
      return (datum :: data, rest)
    | none => .error (.wrongLength read shape.describeLength)

/-- The data of the record that a decoded value describes. Entries are taken in key order. -/
def Shape.ofValue (shape : Shape) (v : Value) : Except Error (List Datum) :=
  let result : Except Cause (List Datum) := match v with
    | .array items => do
      let (data, rest) ← shape.ofItems shape.fields 0 items
      if rest.isEmpty then return data
      else throw (.wrongLength items.length "fewer elements in array")
    | .object entries => do
      let found ← entries.filterMapM fun (key, v) ↦
        match shape.fields.find? (·.name = key) with
        | none => pure none
        | some field => do return some (key, ← field.kind.ofValue v)
      gather shape.fields found
    | v => .error (.wrongType v.found shape.describe)
  result.mapError (⟨·, none⟩)

/-! ## Printing -/

/-- The compact text of a datum. -/
def Datum.print : Datum → List Char
  | .text s => printString s
  | .optionalText none => "null".toList
  | .optionalText (some s) => printString s
  | .texts items => '[' :: commaSeparated (items.map printString) ++ [']']
  | .flag b => (toString b).toList
  | .natural n => Text.Numeral.decimal n

/-- The compact text of a record: an object of the printed fields in declaration order. -/
def Shape.print (shape : Shape) (data : List Datum) : List Char :=
  let entries := (shape.fields.zip data).filterMap fun (field, datum) ↦
    if field.printed then some (printString field.name ++ ':' :: datum.print) else none
  '\x7b' :: commaSeparated entries ++ ['\x7d']

/-- The compact text of a list of strings. -/
def printTexts (items : List String) : List Char := (Datum.texts items).print

end RegionClient.Json
