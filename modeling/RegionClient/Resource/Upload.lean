import RegionClient.Failure.Error

/-!
# Uploads

A file to be uploaded, with its content in memory or to be read from a source. A source yields
its data in pieces; no more is read than was announced.
-/

namespace RegionClient

/-- Where content is read from: pieces of data, and perhaps a failure behind them. -/
structure Source where
  pieces : List Bytes := []
  failure : Option String := none
  deriving DecidableEq, Repr

namespace Source

/-- The bytes cut into pieces of the given size, at most `count` of them. -/
def cut (size : Nat) : (count : Nat) → Bytes → List Bytes
  | 0, _ => []
  | count + 1, bytes =>
    if bytes.isEmpty then [] else bytes.take size :: cut size count (bytes.drop size)

/-- The source that yields bytes in pieces of the given size, which is at least one. -/
def ofBytes (size : Nat) (bytes : Bytes) (failure : Option String) : Source :=
  ⟨cut (max size 1) bytes.length bytes, failure⟩

/-- Reads at most `limit` bytes from pieces; behind them comes the failure, if there is one. -/
def readPieces (failure : Option String) : (limit : Nat) → List Bytes → Except String Bytes
  | 0, _ => .ok []
  | _ + 1, [] => match failure with
    | none => .ok []
    | some e => .error e
  | limit + 1, piece :: pieces => do
    let taken := piece.take (limit + 1)
    return taken ++ (← readPieces failure (limit + 1 - taken.length) pieces)

/-- Reads at most `limit` bytes. -/
def read (s : Source) (limit : Nat) : Except String Bytes := readPieces s.failure limit s.pieces

end Source

/-- What to upload. The length announces how much is read from a source. Models `AddFileArgs`. -/
structure Upload where
  filename : String
  content : Option Bytes := none
  source : Option Source := none
  length : UInt64 := 0
  deriving DecidableEq, Repr

namespace Upload

/-- What an upload shows of itself; content is shown by its size. -/
def describe (u : Upload) : String :=
  let content := match u.content with
    | none => "None"
    | some bytes => "Some(" ++ toString bytes.length ++ ")"
  "AddFileArgs \x7b filename: " ++ Text.quote u.filename ++ ", content: " ++ content ++
    ", reader: " ++ toString u.source.isSome ++ ", length: " ++ toString u.length ++ " \x7d"

/-- Checks that the name is one of a file, and that there is exactly one content. Models
`AddFileArgs.validate`. -/
def validate (u : Upload) : Except Error Unit :=
  if u.filename.toList.contains '/' then
    .error (.notValid ("paths in Filename " ++ Text.quote u.filename))
  else if u.filename.isEmpty then .error (.notValid "missing Filename")
  else match u.content, u.source with
    | none, none => .error (.notValid "missing Content or Reader")
    | none, some _ => if u.length = 0 then .error (.notValid "missing Length") else .ok ()
    | some _, some _ => .error (.notValid "specifying Content and Reader")
    | some _, none =>
      if u.length = 0 then .ok () else .error (.notValid "specifying Length and Content")

/-- The bytes to upload. -/
def bytes (u : Upload) : Except Error Bytes :=
  match u.content, u.source with
  | some content, _ => .ok content
  | none, some source => (source.read u.length.toNat).mapError (.io "cannot read file content")
  | none, none => .error (.notValid "missing Content or Reader")

/-- The bytes of a valid upload. Models `AddFileArgs.into_upload`. -/
def take (u : Upload) : Except Error Bytes := do
  u.validate
  u.bytes

end Upload

end RegionClient
