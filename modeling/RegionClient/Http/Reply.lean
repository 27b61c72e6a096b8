import RegionClient.Failure.Transport
import RegionClient.Http.Gzip
import RegionClient.Http.MediaType
import RegionClient.Text.Blank

/-!
# Replies

What a server answers, and what a caller makes of it: the bytes of the body if the request was
fulfilled, and otherwise a failure with the status and the text of the body.
-/

namespace RegionClient.Http

/-- How much of a body arrives. -/
inductive Delivery where
  | complete
  | cutShort
  | stalled
  deriving DecidableEq, Repr

/-- An answer with a status. -/
structure Reply where
  status : Status := ⟨200⟩
  headers : List (String × String) := []
  body : Bytes := []
  delivery : Delivery := .complete
  deriving DecidableEq, Repr

namespace Reply

/-- The first value of a header; the case of its name does not matter. -/
def header? (r : Reply) (name : String) : Option String :=
  let lower (s : String) := s.toList.map Char.toLower
  (r.headers.find? fun h ↦ lower h.1 = lower name).map (·.2)

/-- Whether a reply with this status has no body, whatever follows its headers. -/
def isBodiless (r : Reply) : Bool :=
  r.status.code < 200 || r.status.code == 204 || r.status.code == 304

/-- Whether the body is compressed. -/
def isCompressed (r : Reply) : Bool := r.header? "content-encoding" == some "gzip"

/-- The wording of a body that cannot be read. -/
def unreadable : String := "error decoding response body"

/-- The content of the body; `compression` says whether compressed bodies are undone. -/
def content (compression : Bool) (r : Reply) : Except TransportError Bytes :=
  if r.isBodiless then .ok []
  else match r.delivery with
    | .cutShort => .error (.http unreadable)
    | .stalled => .error (.timeout unreadable)
    | .complete =>
      if compression ∧ r.isCompressed then
        match Gzip.decode? r.body with
        | some content => .ok content
        | none => .error (.http unreadable)
      else .ok r.body

/-- The text of a body, in the charset that its type names. -/
def text (r : Reply) (content : Bytes) : String :=
  let label := ((r.header? "content-type").bind MediaType.charset?).getD "utf-8"
  String.ofList ((Text.Charset.ofLabel label).decode content)

/-- What a caller makes of a reply. Models `read_body`. -/
def result (compression : Bool) (r : Reply) : Except TransportError Bytes :=
  if r.status.isSuccess then r.content compression
  else match r.content compression with
    | .ok content => .error (.server r.status (r.text content))
    | .error _ => .error (.server r.status "Unknown error")

end Reply

end RegionClient.Http
