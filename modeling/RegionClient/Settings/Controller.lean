import RegionClient.Request.Credentials
import RegionClient.Settings.Client
import RegionClient.Url.Parse
import RegionClient.Version

/-!
# Controller configuration

Where a controller is and how to talk to it, as kept in a configuration file. The key is read
from the file but never written. A configuration may be changed to something invalid; it is
checked when the arguments of a session are taken from it.
-/

namespace RegionClient

/-- What a session needs to begin. Models `ControllerArgs`. -/
structure ControllerArgs where
  baseUrl : String
  apiKey : String
  deriving DecidableEq

/-- The arguments without the key. -/
def ControllerArgs.describe (a : ControllerArgs) : String :=
  "ControllerArgs \x7b base_url: " ++ Text.quote a.baseUrl ++ ", api_key: " ++ redacted ++ " \x7d"

/-- A configuration. Models `ControllerConfig`. -/
structure ControllerConfig where
  baseUrl : String
  apiKey : Option String := none
  supportedVersions : List String := Version.supported
  requestTimeout : UInt64 := 30
  tlsVerify : Bool := true
  deriving DecidableEq

/-- A change of a configuration. The base URL stays. -/
inductive ConfigChange where
  | apiKey (key : String)
  | supportedVersions (versions : List String)
  | requestTimeout (seconds : UInt64)
  | tlsVerify (verify : Bool)
  deriving DecidableEq, Repr

/-- What is wrong with a field of a configuration. -/
inductive ConfigIssue where
  | url (baseUrl : String)
  | noVersions
  | timeoutRange (seconds : UInt64)
  deriving DecidableEq, Repr

namespace ConfigIssue

/-- The field at fault. -/
def field : ConfigIssue → String
  | url _ => "base_url"
  | noVersions => "supported_versions"
  | timeoutRange _ => "request_timeout_secs"

/-- The rule that is broken. -/
def code : ConfigIssue → String
  | url _ => "url"
  | noVersions => "length"
  | timeoutRange _ => "range"

/-- The bounds of the rule and the value of the field. -/
def params : ConfigIssue → List (String × Json.Value)
  | url baseUrl => [("value", .string baseUrl)]
  | noVersions => [("min", .ofNat 1), ("value", .array [])]
  | timeoutRange seconds =>
    [("max", .ofNat 300), ("min", .ofNat 1), ("value", .ofNat seconds.toNat)]

/-- A bound or value as messages show it. -/
def describeParam : String × Json.Value → String
  | (name, .string s) => Text.quote name ++ ": String(" ++ Text.quote s ++ ")"
  | (name, .array _) => Text.quote name ++ ": Array []"
  | (name, v) => Text.quote name ++ ": Number(" ++ v.toText ++ ")"

/-- The wording of an issue. -/
def describe (i : ConfigIssue) : String :=
  i.field ++ ": Validation error: " ++ i.code ++ " [\x7b" ++
    ", ".intercalate (i.params.map describeParam) ++ "\x7d]"

end ConfigIssue

/-- Why no arguments can be taken from a configuration. -/
inductive ConfigError where
  | issues (list : List ConfigIssue)
  | missingKey
  deriving DecidableEq, Repr

/-- The error that callers see. -/
def ConfigError.toError : ConfigError → Error
  | issues list => .notValid ("\n".intercalate (list.map ConfigIssue.describe))
  | missingKey => .notValid "missing API key"

namespace ControllerConfig

/-- The timeouts that are allowed, in seconds. -/
def allowsTimeout (seconds : UInt64) : Bool := 1 ≤ seconds && seconds ≤ 300

/-- Everything that is wrong with a configuration, in the order of its fields. -/
def issues (c : ControllerConfig) : List ConfigIssue :=
  (match Url.parse c.baseUrl with
    | .ok _ => []
    | .error _ => [.url c.baseUrl]) ++
  (if c.supportedVersions.isEmpty then [.noVersions] else []) ++
  (if allowsTimeout c.requestTimeout then [] else [.timeoutRange c.requestTimeout])

/-- Whether nothing is wrong with a configuration, and otherwise what. Models
`ControllerConfig.validate`. -/
def validate (c : ControllerConfig) : Except ConfigError Unit :=
  if c.issues.isEmpty then .ok () else .error (.issues c.issues)

/-- The configuration for a base URL. Models `ControllerConfig.new`. -/
def ofBaseUrl (baseUrl : String) : Except ConfigError ControllerConfig := do
  let config : ControllerConfig := { baseUrl }
  config.validate
  return config

/-- The configuration after a change, which is not looked at. Models `with_api_key`,
`with_supported_versions`, `with_timeout` and `with_tls_verify` of `ControllerConfig`. -/
def change (c : ControllerConfig) : ConfigChange → ControllerConfig
  | .apiKey key => { c with apiKey := some key }
  | .supportedVersions versions => { c with supportedVersions := versions }
  | .requestTimeout seconds => { c with requestTimeout := seconds }
  | .tlsVerify verify => { c with tlsVerify := verify }

/-- The configuration after changes, one by one. -/
def changeAll (c : ControllerConfig) (changes : List ConfigChange) : ControllerConfig :=
  changes.foldl change c

/-- The arguments for a session. Models `ControllerConfig.to_args`. -/
def toArgs (c : ControllerConfig) : Except ConfigError ControllerArgs := do
  c.validate
  match c.apiKey with
  | some apiKey => return ⟨c.baseUrl, apiKey⟩
  | none => throw .missingKey

/-- The settings of the clients that a session makes. Models `ControllerConfig.client_config`. -/
def clientSettings (c : ControllerConfig) : ClientSettings :=
  { timeout := 1000 * c.requestTimeout.toNat, tlsVerify := c.tlsVerify }

instance : Json.Record ControllerConfig where
  shape := ⟨"ControllerConfig", [
    { name := "base_url", kind := .text },
    { name := "api_key", kind := .optionalText, fallback := some (.optionalText none),
      printed := false },
    { name := "supported_versions", kind := .texts, fallback := some (.texts Version.supported) },
    { name := "request_timeout_secs", kind := .natural 64, fallback := some (.natural 30) },
    { name := "tls_verify", kind := .flag, fallback := some (.flag true) }]⟩
  toData c := [.text c.baseUrl, .optionalText c.apiKey, .texts c.supportedVersions,
    .natural c.requestTimeout.toNat, .flag c.tlsVerify]
  ofData?
    | [.text baseUrl, .optionalText apiKey, .texts versions, .natural timeout, .flag tlsVerify] =>
      some ⟨baseUrl, apiKey, versions, .ofNat timeout, tlsVerify⟩
    | _ => none

end ControllerConfig

end RegionClient
