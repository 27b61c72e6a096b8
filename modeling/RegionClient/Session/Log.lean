import RegionClient.Capabilities
import RegionClient.Failure.Error
import RegionClient.Version

/-!
# Log events

What a session reports about itself: each request and its end under the request's number, and the
course of a negotiation.
-/

namespace RegionClient

/-- The severity of an event. -/
inductive LogLevel where
  | trace
  | debug
  | info
  | warn
  deriving DecidableEq, Repr

/-- The name of a severity. -/
def LogLevel.name : LogLevel → String
  | trace => "TRACE"
  | debug => "DEBUG"
  | info => "INFO"
  | warn => "WARN"

/-- An event. -/
inductive LogEvent where
  | verificationDisabled
  | getStarted (number : UInt64) (baseUrl : String) (request : Request)
  | postStarted (number : UInt64) (baseUrl : String) (request : Request)
  | deleteStarted (number : UInt64) (baseUrl : String) (request : Request)
  | responded (number : UInt64) (body : Bytes)
  | completed (number : UInt64)
  | failed (number : UInt64) (error : TransportError)
  | connected (baseUrl : String) (version : Version) (capabilities : Capabilities)
  | passedOver (baseUrl candidate : String) (error : Error)

namespace LogEvent

/-- The number of a request in lower-case hexadecimal digits. -/
def printNumber (number : UInt64) : String :=
  String.ofList (Text.Numeral.hexadecimal number.toNat)

/-- The event that begins a request. -/
def started (method : Method) (number : UInt64) (baseUrl : String) (request : Request) :
    LogEvent :=
  match method with
  | .get => getStarted number baseUrl request
  | .post => postStarted number baseUrl request
  | .delete => deleteStarted number baseUrl request

/-- The event that ends a request. -/
def ended (method : Method) (number : UInt64) (outcome : Except TransportError Bytes) : LogEvent :=
  match outcome with
  | .error error => failed number error
  | .ok body => if method = .delete then completed number else responded number body

/-- The severity of an event. -/
def level : LogEvent → LogLevel
  | verificationDisabled => .warn
  | connected .. => .info
  | passedOver .. => .debug
  | _ => .trace

/-- The message of an event. -/
def message : LogEvent → String
  | verificationDisabled => "TLS verification disabled for MAAS client"
  | getStarted .. => "GET request"
  | postStarted .. => "POST request"
  | deleteStarted .. => "DELETE request"
  | responded .. => "response"
  | completed _ => "response complete"
  | failed .. => "response error"
  | connected .. => "connected to MAAS controller"
  | passedOver .. => "API version not served, trying next"

/-- The named texts of an event. -/
def fields : LogEvent → List (String × String)
  | verificationDisabled => []
  | getStarted number baseUrl request => [
    ("request", printNumber number), ("base_url", baseUrl), ("path", request.path),
    ("op", Text.quoteOption request.op), ("query", request.params.encode)]
  | postStarted number baseUrl request => [
    ("request", printNumber number), ("base_url", baseUrl), ("path", request.path),
    ("op", Text.quoteOption request.op), ("params", request.params.encode),
    ("file", toString request.file.isSome)]
  | deleteStarted number baseUrl request => [
    ("request", printNumber number), ("base_url", baseUrl), ("path", request.path)]
  | responded number body => [
    ("request", printNumber number), ("body", Text.Utf8.toStringReplacing body)]
  | completed number => [("request", printNumber number)]
  | failed number error => [("request", printNumber number), ("error", error.describe)]
  | connected baseUrl version capabilities => [
    ("base_url", baseUrl), ("version", version.toText),
    ("capabilities", toString capabilities.size)]
  | passedOver baseUrl candidate error => [
    ("base_url", baseUrl), ("version", candidate), ("error", error.describe)]

end LogEvent

end RegionClient
