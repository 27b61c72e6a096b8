import RegionClient.Failure.Call
import RegionClient.Schema

/-!
# Errors

The failures that callers see. Every error has one of seven kinds; most keep the failed call that
they come from.
-/

namespace RegionClient

/-- The kinds of errors. Models `ErrorKind`. -/
inductive ErrorKind where
  | notValid
  | permissionDenied
  | noMatch
  | badRequest
  | cannotComplete
  | unsupportedVersion
  | unexpected
  deriving DecidableEq, Repr

namespace ErrorKind

/-- All kinds. -/
def all : List ErrorKind :=
  [notValid, permissionDenied, noMatch, badRequest, cannotComplete, unsupportedVersion, unexpected]

/-- The code of a kind. Models `ErrorKind.code`. -/
def code : ErrorKind → String
  | notValid => "NOT_VALID"
  | permissionDenied => "PERMISSION_DENIED"
  | noMatch => "NO_MATCH"
  | badRequest => "BAD_REQUEST"
  | cannotComplete => "CANNOT_COMPLETE"
  | unsupportedVersion => "UNSUPPORTED_VERSION"
  | unexpected => "UNEXPECTED"

/-- The wording of a kind. -/
def describe : ErrorKind → String
  | notValid => "not valid"
  | permissionDenied => "permission denied"
  | noMatch => "no match"
  | badRequest => "bad request"
  | cannotComplete => "cannot complete"
  | unsupportedVersion => "unsupported version"
  | unexpected => "unexpected"

end ErrorKind

/-- The failure of an operation. The calls are those that failed; a context says what was being
done. Models `Error`. -/
inductive Error where
  | notValid (message : String)
  | permissionDenied (message : String) (call : Option CallError)
  | noMatch (message : String) (call : Option CallError)
  | badRequest (message : String) (call : Option CallError)
  | cannotComplete (message : String) (call : Option CallError)
  | unsupportedVersion (message : String)
  | deserialization (context : String) (source : SchemaError)
  | unexpected (message : String) (call : Option CallError)
  | transport (context : String) (source : TransportError)
  | io (context : String) (source : String)
  deriving DecidableEq, Repr

namespace Error

/-- The error of a failed call that has no better explanation. Models `Error.unexpected`. -/
def ofUnexpected (call : CallError) : Error := unexpected call.describe (some call)

/-- The error of a kind for a failed call; its message is what the server said, if it answered.
Models `Error.from_call`. -/
def ofCall (kind : ErrorKind) (call : CallError) : Error :=
  let message := call.body?.getD call.describe
  match kind with
  | .notValid => notValid message
  | .permissionDenied => permissionDenied message (some call)
  | .noMatch => noMatch message (some call)
  | .badRequest => badRequest message (some call)
  | .cannotComplete => cannotComplete message (some call)
  | .unsupportedVersion => unsupportedVersion message
  | .unexpected => ofUnexpected call

/-- The error of a text that is no URL. Models `Error.from`. -/
def ofUrlError (e : Url.ParseError) : Error := notValid ("invalid URL: " ++ e.message)

/-- The kind of an error. Models `Error.kind`. -/
def kind : Error → ErrorKind
  | notValid _ => .notValid
  | permissionDenied .. => .permissionDenied
  | noMatch .. => .noMatch
  | badRequest .. => .badRequest
  | cannotComplete .. => .cannotComplete
  | unsupportedVersion _ => .unsupportedVersion
  | deserialization .. | unexpected .. | transport .. | io .. => .unexpected

/-- The code of an error: that of its kind, except for responses of the wrong shape. Models
`Error.error_code`. -/
def code : Error → String
  | deserialization .. => "DESERIALIZATION"
  | e => e.kind.code

/-- The failed call that an error comes from. Models `Error.call`. -/
def call? : Error → Option CallError
  | permissionDenied _ call | noMatch _ call | badRequest _ call | cannotComplete _ call
  | unexpected _ call => call
  | _ => none

/-- The wording of what an error comes from. -/
def source? : Error → Option String
  | deserialization _ source => some source.describe
  | transport _ source => some source.describe
  | io _ source => some source
  | e => e.call?.map CallError.describe

/-- What an error says behind the wording of its kind. -/
def detail : Error → String
  | notValid message | unsupportedVersion message => message
  | permissionDenied message _ | noMatch message _ | badRequest message _
  | cannotComplete message _ | unexpected message _ => message
  | deserialization context source => context ++ ": " ++ source.describe
  | transport context source => context ++ ": " ++ source.describe
  | io context source => context ++ ": " ++ source

/-- The wording of an error. -/
def describe : Error → String
  | deserialization context source =>
    "failed to deserialize " ++ (deserialization context source).detail
  | e => e.kind.describe ++ ": " ++ e.detail

end Error

end RegionClient
