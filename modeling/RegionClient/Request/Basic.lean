import RegionClient.Request.Params

/-!
# Requests

What a caller asks of the controller: a path below the API root, an operation there, parameters,
and perhaps a file. Nothing here speaks of the wire.
-/

namespace RegionClient

/-- The methods of calls. -/
inductive Method where
  | get
  | post
  | delete
  deriving DecidableEq, Repr

/-- The name of a method. -/
def Method.name : Method → String
  | get => "GET"
  | post => "POST"
  | delete => "DELETE"

/-- A named file that travels with a request. Models `FilePayload`. -/
structure FilePart where
  name : String
  content : Bytes
  deriving DecidableEq, Repr

/-- The path with a slash at its end; one that ends in a slash stays as it is. Models
`ensure_trailing_slash`. -/
def ensureTrailingSlash (path : String) : String :=
  if path.toList.getLast? = some '/' then path else path ++ "/"

/-- A request to the controller. Models `RequestDescriptor`. -/
structure Request where
  path : String := ""
  op : Option String := none
  params : Params := {}
  file : Option FilePart := none
  deriving DecidableEq, Repr

namespace Request

/-- The field name under which files are uploaded. Models `FILE_FIELD`. -/
def fileField : String := "file"

/-- The request for a path, which gets its slash. Models `RequestDescriptor.new`. -/
def ofPath (path : String) : Request := { path := ensureTrailingSlash path }

/-- The request with an operation; an empty name means none. Models `RequestDescriptor.with_op`. -/
def withOp (r : Request) (op : String) : Request :=
  if op.isEmpty then r else { r with op := some op }

/-- The operation as a parameter. -/
def opPairs (r : Request) : List (String × String) :=
  match r.op with
  | none => []
  | some op => [("op", op)]

/-- The pairs of the query: the parameters, and the operation behind them. Models
`RequestDescriptor.query_pairs`. -/
def queryPairs (r : Request) : List (String × String) := r.params.toList ++ r.opPairs

end Request

end RegionClient
