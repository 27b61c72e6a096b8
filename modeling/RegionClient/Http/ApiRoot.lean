import RegionClient.Url.Segments
import RegionClient.Version

/-!
# The API root

Where the API of a version is: below the controller's base URL, at `api/<version>/`; and where a
path is below that.
-/

namespace RegionClient.Http

/-- The root of the API of one version. Models `api_url`. -/
def apiRoot (baseUrl : String) (version : Version) : Except TransportError Url :=
  match Url.parse (ensureTrailingSlash baseUrl ++ "api/" ++ version.toText ++ "/") with
  | .ok url => .ok url
  | .error e =>
    .error (.invalidEndpoint ("invalid MAAS base URL `" ++ baseUrl ++ "`: " ++ e.message))

/-- The segments of a path; one slash at its front does not count. -/
def pathSegments (path : String) : List (List Char) :=
  Text.splitOn '/' (match path.toList with
    | '/' :: rest => rest
    | cs => cs)

/-- The URL of a path below the root. Models `HttpTransport.build_url`. -/
def locate (root : Url) (path : String) : Except TransportError Url :=
  match root.appendSegments? (pathSegments path) with
  | some url => .ok url
  | none => .error (.invalidEndpoint
      ("MAAS URL `" ++ root.toText ++ "` cannot take path `" ++ path ++ "`"))

end RegionClient.Http
