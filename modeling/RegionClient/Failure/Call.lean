import RegionClient.Failure.Transport
import RegionClient.Json.Error
import RegionClient.Request.Basic

/-!
# Failed calls

A failure together with the call that met it, so that the call need not be repeated to find out
what failed.
-/

namespace RegionClient

/-- Why a call failed: the exchange did, or the response is not the JSON it should be. Models
`CallFailure`. -/
inductive CallFailure where
  | transport (e : TransportError)
  | decode (message : String)
  deriving DecidableEq, Repr

namespace CallFailure

/-- The wording of a call's failure. -/
def describe : CallFailure → String
  | transport e => e.describe
  | decode message => "invalid JSON response: " ++ message

/-- The failure of a response that is not JSON. Models `CallFailure.from`. -/
def ofJsonError (e : Json.Error) : CallFailure := decode e.message

/-- The status with which the server refused. -/
def status? : CallFailure → Option Status
  | transport e => e.status?
  | decode _ => none

/-- What the server said when it refused. -/
def body? : CallFailure → Option String
  | transport e => e.body?
  | decode _ => none

end CallFailure

/-- A failed call, with the name of its method. Models `CallError`. -/
structure CallError where
  method : String
  path : String
  op : Option String := none
  failure : CallFailure
  deriving DecidableEq, Repr

namespace CallError

/-- The failure of the call that makes a request. Models `call_error`. -/
def ofRequest (method : Method) (request : Request) (failure : CallFailure) : CallError :=
  ⟨method.name, request.path, request.op, failure⟩

/-- The path, and the operation behind a question mark. Models `target`. -/
def target (e : CallError) : String :=
  match e.op with
  | none => e.path
  | some op => e.path ++ "?op=" ++ op

/-- The wording of a failed call. -/
def describe (e : CallError) : String :=
  e.method ++ " " ++ e.target ++ ": " ++ e.failure.describe

/-- The status with which the server refused. -/
def status? (e : CallError) : Option Status := e.failure.status?

/-- What the server said when it refused. -/
def body? (e : CallError) : Option String := e.failure.body?

end CallError

end RegionClient
