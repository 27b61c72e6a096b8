import RegionClient.Failure.Status
import RegionClient.Url.Host

/-!
# Transport failures

What goes wrong with a single exchange, or with setting one up: the server refuses, or no answer
is to be had.
-/

namespace RegionClient

/-- Why an exchange failed. Only a refusal by the server has a status and a body. Models
`TransportError`. -/
inductive TransportError where
  | server (status : Status) (body : String)
  | invalidCredentials (message : String)
  | invalidEndpoint (message : String)
  | timeout (message : String)
  | connection (message : String)
  | http (message : String)
  deriving DecidableEq, Repr

namespace TransportError

/-- The wording of a transport failure. -/
def describe : TransportError → String
  | server status body => "server responded " ++ status.describe ++ ": " ++ body
  | invalidCredentials message => "invalid credentials: " ++ message
  | invalidEndpoint message => "invalid endpoint: " ++ message
  | timeout message => "request timed out: " ++ message
  | connection message => "connection failed: " ++ message
  | http message => "HTTP request failed: " ++ message

/-- The status with which the server refused. Models `TransportError.status`. -/
def status? : TransportError → Option Status
  | server status _ => some status
  | _ => none

/-- What the server said when it refused. Models `TransportError.body`. -/
def body? : TransportError → Option String
  | server _ body => some body
  | _ => none

/-- The failure of an endpoint that is no URL. Models `TransportError.from`. -/
def ofUrlError (e : Url.ParseError) : TransportError := invalidEndpoint e.message

end TransportError

end RegionClient
