import RegionClient.Number.Shortest
import RegionClient.Text.Quoted
import RegionClient.Text.Utf8

/-!
# Reading errors

Why a JSON document is refused, where, and the message that says so. A `Fault` places the cause by
the number of bytes left at that point; `Fault.locate` turns this into a line and a column.
-/

namespace RegionClient.Json

/-- What stands where something else was expected. -/
inductive Found where
  | null
  | bool (b : Bool)
  | integer (n : Int)
  | float (x : Binary64)
  | string (s : String)
  | sequence
  | map
  deriving DecidableEq

/-- The wording of what was found. -/
def Found.describe : Found → String
  | null => "null"
  | bool b => "boolean `" ++ toString b ++ "`"
  | integer n => "integer `" ++ String.ofList (Text.Numeral.signed n) ++ "`"
  | float x => "floating point `" ++ x.text ++ "`"
  | string s => "string " ++ Text.quote s
  | sequence => "sequence"
  | map => "map"

/-- Why a document is refused. The last group speaks of documents that are well formed but do
not describe the record that was asked for. -/
inductive Cause where
  | unfinishedValue
  | unfinishedString
  | unfinishedList
  | unfinishedObject
  | expectedValue
  | expectedIdentifier
  | expectedColon
  | expectedCommaOrBracket
  | expectedCommaOrBrace
  | keyNotString
  | trailingComma
  | trailingCharacters
  | invalidNumber
  | numberOutOfRange
  | invalidEscape
  | invalidCodePoint
  | controlCharacter
  | loneSurrogate
  | unpairedSurrogate
  | tooDeep
  | missingField (name : String)
  | duplicateField (name : String)
  | wrongType (found : Found) (expected : String)
  | wrongValue (found : Found) (expected : String)
  | wrongLength (length : Nat) (expected : String)
  deriving DecidableEq

/-- The wording of a cause. -/
def Cause.describe : Cause → String
  | unfinishedValue => "EOF while parsing a value"
  | unfinishedString => "EOF while parsing a string"
  | unfinishedList => "EOF while parsing a list"
  | unfinishedObject => "EOF while parsing an object"
  | expectedValue => "expected value"
  | expectedIdentifier => "expected ident"
  | expectedColon => "expected `:`"
  | expectedCommaOrBracket => "expected `,` or `]`"
  | expectedCommaOrBrace => "expected `,` or `\x7d`"
  | keyNotString => "key must be a string"
  | trailingComma => "trailing comma"
  | trailingCharacters => "trailing characters"
  | invalidNumber => "invalid number"
  | numberOutOfRange => "number out of range"
  | invalidEscape => "invalid escape"
  | invalidCodePoint => "invalid unicode code point"
  | controlCharacter => "control character (\\u0000-\\u001F) found while parsing a string"
  | loneSurrogate => "lone leading surrogate in hex escape"
  | unpairedSurrogate => "unexpected end of hex escape"
  | tooDeep => "recursion limit exceeded"
  | missingField name => "missing field `" ++ name ++ "`"
  | duplicateField name => "duplicate field `" ++ name ++ "`"
  | wrongType found expected => "invalid type: " ++ found.describe ++ ", expected " ++ expected
  | wrongValue found expected => "invalid value: " ++ found.describe ++ ", expected " ++ expected
  | wrongLength length expected =>
    "invalid length " ++ toString length ++ ", expected " ++ expected

/-- A line, and the number of its bytes up to the place in question. -/
structure Position where
  line : Nat
  column : Nat
  deriving DecidableEq, Repr

/-- The position after the given bytes. -/
def Position.after (bytes : Bytes) : Position :=
  bytes.foldl (fun p b ↦ if b = 0x0A then ⟨p.line + 1, 0⟩ else ⟨p.line, p.column + 1⟩) ⟨1, 0⟩

/-- A refusal, with its place if the document was read from text. -/
structure Error where
  cause : Cause
  position : Option Position
  deriving DecidableEq

/-- The message of a refusal. -/
def Error.message (e : Error) : String :=
  match e.position with
  | none => e.cause.describe
  | some p => e.cause.describe ++ " at line " ++ toString p.line ++ " column " ++ toString p.column

/-- A cause and the number of bytes left at its place. -/
structure Fault where
  cause : Cause
  left : Nat
  deriving DecidableEq

/-- A fault at the front of the rest. -/
def Fault.here (cause : Cause) (rest : Bytes) : Fault := ⟨cause, rest.length⟩

/-- A fault at the first byte of the rest, which counts as read; at the end there is none. -/
def Fault.next (cause : Cause) (rest : Bytes) : Fault := ⟨cause, rest.length - 1⟩

/-- The refusal of a document because of a fault in it. -/
def Fault.locate (document : Bytes) (fault : Fault) : Error :=
  ⟨fault.cause, some (Position.after (document.take (document.length - fault.left)))⟩

end RegionClient.Json
