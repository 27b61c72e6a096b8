import RegionClient.Failure.OperationClass
import RegionClient.Session.Basic
import RegionClient.Settings.Controller

/-!
# Negotiation

Finding a version that a controller serves. The candidates are tried in order. A candidate whose
version document cannot be read is passed over; everything else that goes wrong ends the
negotiation.
-/

namespace RegionClient

/-- What comes of trying a candidate. Models `Attempt`. -/
inductive Attempt (σ : Type) where
  | accepted (session : Session σ)
  | passedOver (error : Error)
  | aborted (error : Error)

namespace Session

variable {σ : Type}

/-- The shape of a version document. -/
def versionSchema : Schema := ⟨[{ name := "capabilities", type := .list .text }]⟩

/-- The capabilities that a version document lists. -/
def capabilitiesOf (document : Json.Value) : Except Error Capabilities :=
  match versionSchema.coerce document with
  | .ok coerced => .ok (.ofList ((coerced.texts? "capabilities").getD []))
  | .error e => .error (.deserialization "version response" e)

/-- Reads the version document. Models `Controller.read_api_version`. -/
def readCapabilities (s : Session σ) : Action σ (Except Error Capabilities) := do
  match ← s.get "version" with
  | .ok document => return capabilitiesOf document
  | .error call => return .error (.ofUnexpected call)

/-- Asks who the key belongs to. Models `Controller.check_creds`. -/
def checkCredentials (s : Session σ) : Action σ (Except Error Unit) := do
  match ← s.getOp "users" "whoami" with
  | .ok _ => return .ok ()
  | .error call => return .error (OperationClass.credentialCheck.translate call)

/-- The error that ends a negotiation when no channel can be opened. -/
def openingError (version : Version) : TransportError → Error
  | .invalidCredentials message => .notValid message
  | e => .transport ("connecting to API " ++ version.toText) e

/-- Tries the session of a channel that was opened. -/
def tryChannel (channel : Channel σ) (baseUrl : String) (version : Version) :
    Action σ (Attempt σ) := do
  let session : Session σ := { channel, baseUrl, version }
  match ← session.readCapabilities with
  | .error e => return .passedOver e
  | .ok capabilities =>
    let session := { session with capabilities }
    match ← session.checkCredentials with
    | .ok () => return .accepted session
    | .error e => return .aborted e

/-- Tries a candidate. Models `Negotiator.attempt`. -/
def attempt (connector : Connector σ) (args : ControllerArgs) (candidate : String) :
    Action σ (Attempt σ) := do
  match Version.parse candidate with
  | .error e => return .aborted e
  | .ok version =>
    match ← Action.openChannel connector args.baseUrl args.apiKey version with
    | .error e => return .aborted (openingError version e)
    | .ok channel => tryChannel channel args.baseUrl version

/-- The error when no candidate is served. -/
def unsupported (baseUrl : String) (versions : List String) : Error :=
  .unsupportedVersion ("controller at " ++ baseUrl ++ " does not support any of [" ++
    ", ".intercalate versions ++ "]")

/-- Tries candidates until one is accepted or the negotiation ends. -/
def tryAll (connector : Connector σ) (args : ControllerArgs) (versions : List String) :
    (candidates : List String) → Action σ (Except Error (Session σ))
  | [] => return .error (unsupported args.baseUrl versions)
  | candidate :: rest => do
    match ← attempt connector args candidate with
    | .accepted session =>
      Action.log (.connected args.baseUrl session.version session.capabilities)
      return .ok session
    | .passedOver e =>
      Action.log (.passedOver args.baseUrl candidate e)
      tryAll connector args versions rest
    | .aborted e => return .error e

/-- Negotiates a session. Models `Negotiator.negotiate`. -/
def negotiate (connector : Connector σ) (versions : List String) (args : ControllerArgs) :
    Action σ (Except Error (Session σ)) :=
  tryAll connector args versions versions

/-- The session for the arguments, by the settings and the versions that are meant if none are
given; `connector` makes channels with settings. Models `Controller.new`. -/
def ofArgs (connector : ClientSettings → Connector σ) (args : ControllerArgs) :
    Action σ (Except Error (Session σ)) :=
  negotiate (connector {}) Version.supported args

/-- The session that a configuration describes; `connector` makes channels with its settings. Models
`Controller.from_config`. -/
def ofConfig (connector : ClientSettings → Connector σ) (config : ControllerConfig) :
    Action σ (Except Error (Session σ)) :=
  match config.toArgs with
  | .error e => return .error e.toError
  | .ok args => negotiate (connector config.clientSettings) config.supportedVersions args

end Session

/-- What a negotiator for the given versions shows of itself. -/
def describeNegotiator (versions : List String) : String :=
  "Negotiator \x7b versions: " ++ Text.quoteList "[" "]" versions ++ ", .. \x7d"

end RegionClient
