import RegionClient.Http.ApiRoot
import RegionClient.Http.Multipart
import RegionClient.Request.Credentials
import RegionClient.Settings.Client
import RegionClient.Text.Base64

/-!
# Requests on the wire

How a request to the controller is written: its URL with the query, its headers and its body.
-/

namespace RegionClient.Http

/-- The body of a request. -/
inductive Payload where
  | empty
  | form (params : Params)
  | multipart (boundary : String) (params : Params) (file : FilePart)
  deriving DecidableEq, Repr

namespace Payload

/-- The bytes of a body. -/
def bytes : Payload → Bytes
  | empty => []
  | form params => Text.Utf8.ofString params.encode
  | multipart boundary params file => Multipart.body boundary params file

/-- The header that names the type of a body. -/
def contentType : Payload → List (String × String)
  | empty => []
  | form _ => [("content-type", "application/x-www-form-urlencoded")]
  | multipart boundary _ _ => [("content-type", "multipart/form-data; boundary=" ++ boundary)]

/-- Whether a body can be sent only once. -/
def isSpent : Payload → Bool
  | multipart .. => true
  | _ => false

end Payload

/-- A request as it is handed to the connection to a server. The URL is whole, though only its
target is sent. The headers are those that are set for the request: `host` and `content-length`,
which the connection adds as the URL and the body have them, are not among them. -/
structure WireRequest where
  method : Method
  url : Url
  headers : List (String × String)
  payload : Payload := .empty
  deriving DecidableEq, Repr

namespace WireRequest

/-- What a request line names. -/
def target (r : WireRequest) : String := r.url.target

/-- The values of a header, in order. -/
def headerValues (r : WireRequest) (name : String) : List String :=
  r.headers.filterMap fun h ↦ if h.1 = name then some h.2 else none

end WireRequest

/-- What no two requests share. -/
structure Fresh where
  stamp : Stamp
  boundary : String
  deriving DecidableEq, Repr

/-- What a message about a URL says. -/
def aboutUrl (what : String) (url : Url) : String := what ++ " for url (" ++ url.toText ++ ")"

/-- The text that percent escapes spell, if it is UTF-8. -/
def unescape? (s : String) : Option String :=
  (Text.Utf8.decode? (Text.Percent.decode s.toList)).map String.ofList

/-- User and password of a URL, and the URL without them. A user that is not UTF-8 stays. -/
def takeUser (url : Url) : Option (String × Option String) × Url :=
  match url.authority with
  | none => (none, url)
  | some authority =>
    let password := if authority.password.isEmpty then none else unescape? authority.password
    match unescape? authority.username with
    | none => (none, url)
    | some user =>
      if user.isEmpty ∧ password.isNone then (none, url)
      else (some (user, password), url.withoutUser)

/-- The authorization by user and password. -/
def basicAuthorization (user : String) (password : Option String) : String :=
  "Basic " ++ String.ofList
    (Text.Base64.encode (Text.Utf8.ofString (user ++ ":" ++ password.getD "")))

/-- Whether requests can be sent to a URL: it names the right protocol, and its host fits into a
request. -/
def isSendable (url : Url) : Bool :=
  (url.scheme == "http" || url.scheme == "https") &&
    match url.host? with
    | some (.domain name) => !name.toList.any "\x22\x60\x7b\x7d".toList.contains
    | _ => true

/-- The pairs that a request adds to the query, unless it leaves the query alone. -/
def addedPairs? (method : Method) (request : Request) : Option (List (String × String)) :=
  match method with
  | .get => some request.queryPairs
  | .post => if request.op.isSome then some request.opPairs else none
  | .delete => none

/-- The body of a request. -/
def payload (fresh : Fresh) (method : Method) (request : Request) : Payload :=
  match method, request.file with
  | .post, none => .form request.params
  | .post, some file => .multipart fresh.boundary request.params file
  | _, _ => .empty

/-- The headers of a request. Models `HttpTransport.sign`, with the headers that `reqwest` sets. -/
def headers (settings : ClientSettings) (user : Option (String × Option String))
    (authorization : String) (payload : Payload) : List (String × String) :=
  (user.toList.map fun (name, password) ↦ ("authorization", basicAuthorization name password)) ++
    payload.contentType ++
    [("authorization", authorization), ("accept", "application/json")] ++
    (if settings.compression then [("accept-encoding", "gzip")] else []) ++
    [("user-agent", ClientSettings.userAgent)]

/-- The first wire request of a request to the controller. Models how `get`, `post` and `delete` of
`HttpTransport` build it. -/
def compose (root : Url) (credentials : Credentials) (settings : ClientSettings) (fresh : Fresh)
    (method : Method) (request : Request) : Except TransportError WireRequest := do
  let url ← locate root request.path
  if url.host?.isNone then throw (.http (aboutUrl "builder error" url))
  let (user, url) := takeUser url
  let url := match addedPairs? method request with
    | none => url
    | some pairs => url.appendQuery pairs
  if !isSendable url then throw (.http (aboutUrl "builder error" url))
  let payload := payload fresh method request
  let authorization := credentials.authorization fresh.stamp
  return ⟨method, url, headers settings user authorization payload, payload⟩

end RegionClient.Http
