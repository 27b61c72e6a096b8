import RegionClient.Json.Record

/-!
# Types kept as JSON records

A type with a record shape is read from documents and values and printed as text. The data of a
shape determine a value of the type; `ofData?` refuses only data of another shape, which the
readers of the shape never give.
-/

namespace RegionClient.Json

/-- A type whose values are records of one shape. -/
class Record (α : Type) where
  shape : Shape
  toData : α → List Datum
  ofData? : List Datum → Option α

namespace Record

variable {α : Type} [Record α]

/-- The value of read data. -/
def build (data : Except Error (List Datum)) : Except Error α := do
  let data ← data
  match ofData? data with
  | some a => return a
  | none => throw ⟨.wrongLength data.length (shape α).describe, none⟩

/-- The value that a document describes. -/
def parse (document : Bytes) : Except Error α := build ((shape α).parse document)

/-- The value that a decoded value describes. -/
def ofValue (v : Value) : Except Error α := build ((shape α).ofValue v)

/-- The compact text of a value. -/
def print (a : α) : List Char := (shape α).print (toData a)

/-- The compact text of a value. -/
def toText (a : α) : String := String.ofList (print a)

end Record

end RegionClient.Json
