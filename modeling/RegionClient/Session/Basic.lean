import RegionClient.Json.Reader
import RegionClient.Session.Run

/-!
# Sessions

A session holds a channel to one version of a controller's API. Its primitives make exactly one
call each, under a number of its own, and log its beginning and its end. Nothing is retried.
-/

namespace RegionClient

/-- A session with a controller. Models `Controller`. -/
structure Session (σ : Type) where
  channel : Channel σ
  baseUrl : String
  version : Version
  capabilities : Capabilities := .empty

namespace Session

variable {σ : Type}

/-- What a session shows of itself. -/
def describe (s : Session σ) : String :=
  "Controller \x7b base_url: " ++ Text.quote s.baseUrl ++ ", api_version: " ++
    s.version.describe ++ ", capabilities: " ++ s.capabilities.describe ++ ", .. \x7d"

/-- Makes a call. Models what `get_json`, `post_raw` and `delete` of `Controller` share. -/
def call (s : Session σ) (method : Method) (request : Request) :
    Action σ (Except CallError Bytes) := do
  let number ← Action.takeNumber
  Action.log (.started method number s.baseUrl request)
  let outcome ← Action.carry s.channel number method request
  Action.log (.ended method number outcome)
  return outcome.mapError fun e ↦ .ofRequest method request (.transport e)

/-- The value of a response body. Models `decode`. -/
def decode (method : Method) (request : Request) (body : Bytes) : Except CallError Json.Value :=
  (Json.Value.parse body).mapError fun e ↦ .ofRequest method request (.ofJsonError e)

/-- Makes a call and decodes the response. Models `Controller.get_json`, and `Controller.post`
behind `post_raw`. -/
def callJson (s : Session σ) (method : Method) (request : Request) :
    Action σ (Except CallError Json.Value) := do
  let outcome ← s.call method request
  return outcome.bind (decode method request)

/-- Gets the document at a path. Models `Controller.get`. -/
def get (s : Session σ) (path : String) : Action σ (Except CallError Json.Value) :=
  s.callJson .get (.ofPath path)

/-- Gets the document at a path, with parameters. Models `Controller.get_query`. -/
def getQuery (s : Session σ) (path : String) (params : Params) :
    Action σ (Except CallError Json.Value) :=
  s.callJson .get { Request.ofPath path with params }

/-- Gets the result of an operation. Models `Controller.get_op`. -/
def getOp (s : Session σ) (path op : String) : Action σ (Except CallError Json.Value) :=
  s.callJson .get ((Request.ofPath path).withOp op)

/-- Posts parameters to an operation. Models `Controller.post`. -/
def post (s : Session σ) (path op : String) (params : Params) :
    Action σ (Except CallError Json.Value) :=
  s.callJson .post { (Request.ofPath path).withOp op with params }

/-- Posts parameters and a file to an operation; the response need not be JSON. Models
`Controller.post_file`. -/
def postFile (s : Session σ) (path op : String) (params : Params) (content : Bytes) :
    Action σ (Except CallError Bytes) :=
  s.call .post
    { (Request.ofPath path).withOp op with params, file := some ⟨Request.fileField, content⟩ }

/-- Deletes what is at a path. Models `Controller.delete`. -/
def delete (s : Session σ) (path : String) : Action σ (Except CallError Unit) := do
  let outcome ← s.call .delete (.ofPath path)
  return outcome.map fun _ ↦ ()

end Session

end RegionClient
