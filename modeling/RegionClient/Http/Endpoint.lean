import RegionClient.Http.Network
import RegionClient.Session.Run

/-!
# Endpoints

Signed exchanges with the API of one version over a network, as channels of a session.
-/

namespace RegionClient.Http

/-- What signed exchanges with one API need. Models `HttpTransport`. -/
structure Endpoint where
  root : Url
  credentials : Credentials
  settings : ClientSettings

/-- What the settings of a client are worth a warning about. Models
`ClientConfig.build_http_client`. -/
def warnings (settings : ClientSettings) : List LogEvent :=
  if settings.tlsVerify then [] else [.verificationDisabled]

namespace Endpoint

/-- The endpoint of a version; the key is looked at before the URL. Models `HttpTransport.new`. -/
def make (settings : ClientSettings) (baseUrl apiKey : String) (version : Version) :
    Except TransportError Endpoint := do
  let credentials ← Credentials.parse apiKey
  let root ← apiRoot baseUrl version
  return ⟨root, credentials, settings⟩

/-- Exchanges one request for the bytes of its response. Models `get`, `post` and `delete` of
`HttpTransport`. -/
def exchange (e : Endpoint) : Channel Network := fun method request n ↦
  let (fresh, n) := n.takeFresh
  match compose e.root e.credentials e.settings fresh method request with
  | .error error => (.error error, n)
  | .ok r =>
    let (outcome, n) := send r n
    (outcome.bind (Reply.result e.settings.compression), n)

end Endpoint

/-- Opens channels over a network. Models `HttpConnector.connect`. -/
def connector (settings : ClientSettings) : Connector Network := fun baseUrl apiKey version n ↦
  match Endpoint.make settings baseUrl apiKey version with
  | .error e => ({ channel := .error e }, n)
  | .ok endpoint => ({ channel := .ok endpoint.exchange, log := warnings settings }, n)

end RegionClient.Http
