import RegionClient.Url.Host

/-!
# URLs

The parts of a URL, all already escaped, and its text. The path of most URLs is a list of segments
behind slashes; that of URLs such as `mailto:x` is plain text, and takes no segments.
-/

namespace RegionClient

namespace Url

/-- The path of a URL. -/
inductive Path where
  | rootless (text : String)
  | segments (list : List String)
  deriving DecidableEq, Repr

/-- What stands behind the two slashes. An absent host is an empty one. -/
structure Authority where
  username : String := ""
  password : String := ""
  host : Option Host := none
  port : Option Nat := none
  deriving DecidableEq, Repr

end Url

/-- A parsed URL. -/
structure Url where
  scheme : String
  authority : Option Url.Authority
  path : Url.Path
  query : Option String := none
  fragment : Option String := none
  deriving DecidableEq, Repr

namespace Url

/-- The port that the scheme implies. -/
def defaultPort? (scheme : String) : Option Nat :=
  if scheme = "http" ∨ scheme = "ws" then some 80
  else if scheme = "https" ∨ scheme = "wss" then some 443
  else if scheme = "ftp" then some 21
  else none

/-- The schemes whose URLs always have a host and whose backslashes are slashes, and `file`. -/
def isSpecial (scheme : String) : Bool := (defaultPort? scheme).isSome || scheme == "file"

/-- Text after a mark, or nothing. -/
def printAfter (mark : Char) : Option String → List Char
  | none => []
  | some s => mark :: s.toList

/-- The text of user and password, up to the at sign. -/
def Authority.printUser (a : Authority) : List Char :=
  if a.username.isEmpty ∧ a.password.isEmpty then []
  else a.username.toList ++
    (if a.password.isEmpty then [] else ':' :: a.password.toList) ++ ['@']

/-- The text of host and port. -/
def Authority.printHost (a : Authority) : List Char :=
  (a.host.map Host.print).getD [] ++
    printAfter ':' (a.port.map fun p ↦ String.ofList (Text.Numeral.decimal p))

/-- The text of a path. -/
def Path.print : Path → List Char
  | rootless text => text.toList
  | segments list => list.flatMap fun s ↦ '/' :: s.toList

/-- The text between the scheme and the query. Without an authority, a path that begins with two
slashes has `/.` before it. -/
def printHierarchy (u : Url) : List Char :=
  match u.authority, u.path with
  | some a, path => ['/', '/'] ++ a.printUser ++ a.printHost ++ path.print
  | none, .segments ("" :: s :: rest) => ['/', '.'] ++ (Path.segments ("" :: s :: rest)).print
  | none, path => path.print

/-- The text of a URL. -/
def print (u : Url) : List Char :=
  u.scheme.toList ++ ':' :: u.printHierarchy ++ printAfter '?' u.query ++
    printAfter '#' u.fragment

/-- The text of a URL. -/
def toText (u : Url) : String := String.ofList u.print

/-- The host, unless it is empty. -/
def host? (u : Url) : Option Host := u.authority.bind (·.host)

/-- The port, as given or implied. -/
def port? (u : Url) : Option Nat :=
  ((u.authority.bind (·.port)).or (defaultPort? u.scheme))

/-- The path and the query, as a request names them. -/
def target (u : Url) : String := String.ofList (u.path.print ++ printAfter '?' u.query)

/-- The URL without user and password. -/
def withoutUser (u : Url) : Url :=
  { u with authority := u.authority.map fun a ↦ { a with username := "", password := "" } }

end Url

end RegionClient
