import RegionClient.Json.Value
import RegionClient.Text.Numeral

/-!
# Schemas

Checks of the shape of decoded documents. A schema declares fields with types; `Schema.coerce`
keeps exactly the declared fields of an object, or reports the first offence with the path to it.
Elements of lists are visited in order, and entries of objects in key order.
-/

namespace RegionClient

/-- The types of fields. Models `FieldType`. -/
inductive FieldType where
  | text
  | integer
  | number
  | flag
  | any
  | list (element : FieldType)
  | map (element : FieldType)
  deriving DecidableEq, Repr

/-- The wording of a type. Models `FieldType.fmt`. -/
def FieldType.describe : FieldType → String
  | text => "string"
  | integer => "int"
  | number => "number"
  | flag => "bool"
  | any => "any"
  | list element => "list of " ++ element.describe
  | map element => "map of " ++ element.describe

/-- Why a document does not fit a schema. Models `SchemaError`. -/
inductive SchemaError where
  | notAnObject (got : String)
  | missing (field : String)
  | mismatch (path expected got : String)
  deriving DecidableEq, Repr

namespace SchemaError

/-- The wording of a misfit. -/
def describe : SchemaError → String
  | notAnObject got => "expected object, got " ++ got
  | missing field => field ++ ": expected value, got nothing"
  | mismatch path expected got => path ++ ": expected " ++ expected ++ ", got " ++ got

/-- The misfit of a value of the wrong type. Models `SchemaError.mismatch`. -/
def ofMismatch (path : String) (expected : FieldType) (v : Json.Value) : SchemaError :=
  mismatch path expected.describe v.typeName

end SchemaError

open Json (Value)

/-- The path of a list's element. -/
def elementPath (path : String) (index : Nat) : String :=
  path ++ "[" ++ String.ofList (Text.Numeral.decimal index) ++ "]"

/-- The path of an object's entry. -/
def entryPath (path key : String) : String := path ++ "." ++ key

/-- Checks the elements of a list, the first of which has the given index. -/
def checkElements (check : String → Value → Except SchemaError Unit) (path : String) :
    (index : Nat) → List Value → Except SchemaError Unit
  | _, [] => .ok ()
  | index, item :: rest => do
    check (elementPath path index) item
    checkElements check path (index + 1) rest

/-- Checks the entries of an object. -/
def checkEntries (check : String → Value → Except SchemaError Unit) (path : String) :
    List (String × Value) → Except SchemaError Unit
  | [] => .ok ()
  | (key, item) :: rest => do
    check (entryPath path key) item
    checkEntries check path rest

/-- Checks that a value has a type. Models `FieldType.check`. -/
def FieldType.check : FieldType → (path : String) → Value → Except SchemaError Unit
  | .any, _, _ => .ok ()
  | .text, _, .string _ => .ok ()
  | .flag, _, .bool _ => .ok ()
  | .number, _, .number _ => .ok ()
  | .integer, _, .number (.integer _) => .ok ()
  | .list element, path, .array items => checkElements element.check path 0 items
  | .map element, path, .object entries => checkEntries element.check path entries
  | expected, path, v => .error (.ofMismatch path expected v)

/-- A declared field. -/
structure SchemaField where
  name : String
  type : FieldType
  required : Bool := true
  deriving DecidableEq, Repr

/-- Fields in declaration order. Models `Schema`. -/
structure Schema where
  fields : List SchemaField := []
  deriving DecidableEq, Repr

/-- What is kept of a document: the entries of declared fields. Models `Coerced`. -/
structure Coerced where
  entries : List (String × Value) := []

namespace Coerced

/-- The value of a field. Models `Coerced.get`. -/
def get? (c : Coerced) (name : String) : Option Value := Json.lookupEntry name c.entries

/-- The text of a field. Models `Coerced.string`. -/
def text? (c : Coerced) (name : String) : Option String :=
  match c.get? name with
  | some (.string s) => some s
  | _ => none

/-- The texts among the elements of a field. Models `Coerced.string_list`. -/
def texts? (c : Coerced) (name : String) : Option (List String) :=
  match c.get? name with
  | some (.array items) => some (items.filterMap Json.Value.text?)
  | _ => none

end Coerced

/-- Whether the field need not be checked, since it is optional and says nothing. -/
def SchemaField.isWaived (field : SchemaField) (found : Option Value) : Bool :=
  match found with
  | none | some .null => !field.required
  | some _ => false

/-- The entries with that of a field, if the document has it and it fits. -/
def SchemaField.coerce (field : SchemaField) (document : List (String × Value))
    (kept : List (String × Value)) : Except SchemaError (List (String × Value)) :=
  let found := Json.lookupEntry field.name document
  if field.isWaived found then .ok kept
  else match found with
    | none => .error (.missing field.name)
    | some v => do
      field.type.check field.name v
      return Json.insertEntry field.name v kept

/-- The declared part of a document. Models `Schema.coerce`. -/
def Schema.coerce (schema : Schema) (v : Value) : Except SchemaError Coerced :=
  match v with
  | .object document => do
    let kept ← schema.fields.foldlM (fun kept field ↦ field.coerce document kept) []
    return ⟨kept⟩
  | v => .error (.notAnObject v.typeName)

end RegionClient
