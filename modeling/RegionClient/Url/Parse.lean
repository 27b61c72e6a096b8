import RegionClient.Text.Blank
import RegionClient.Url.Basic

/-!
# Parsing URLs

`Url.parse` reads an absolute URL and `Url.resolve` a reference that may be relative to another
URL. Surrounding blanks and control characters do not count, and tabs and line ends are dropped
wherever they stand. The parts are escaped on the way, each with its own set of characters.
-/

namespace RegionClient.Url

/-! ## Escaped characters -/

/-- Control characters are escaped everywhere. -/
def isControl (c : Char) : Bool := c.toNat < 0x20 || c.toNat == 0x7F

/-- The set of fragments. -/
def escapedInFragment (c : Char) : Bool := isControl c || " \x22<>`".toList.contains c

/-- The set of queries; special schemes escape the apostrophe too. -/
def escapedInQuery (special : Bool) (c : Char) : Bool :=
  isControl c || " \x22#<>".toList.contains c || (special && c == '\x27')

/-- The set of paths. -/
def escapedInPath (c : Char) : Bool := escapedInFragment c || "#?\x7b\x7d".toList.contains c

/-- The set of user names and passwords. -/
def escapedInUser (c : Char) : Bool := escapedInPath c || "/:;=@[\\]^|".toList.contains c

/-- The set of single path segments; special schemes escape the backslash too. -/
def escapedInSegment (special : Bool) (c : Char) : Bool :=
  escapedInPath c || c == '/' || c == '%' || (special && c == '\\')

/-! ## Paths -/

/-- A letter with a colon or a bar behind it. -/
def isDriveLetter (cs : List Char) : Bool :=
  match cs with
  | [a, b] => a.isAlpha && (b == ':' || b == '|')
  | _ => false

/-- The spellings of a segment that stays where it is. -/
def isSingleDot (cs : List Char) : Bool := cs = ['.'] || cs.map Char.toLower = "%2e".toList

/-- The spellings of a segment that goes up. -/
def isDoubleDot (cs : List Char) : Bool :=
  ["..", ".%2e", "%2e.", "%2e%2e"].any fun s ↦ cs.map Char.toLower = s.toList

/-- The segments without the last one; a drive letter stays. -/
def shorten (done : List String) : List String :=
  match done.getLast? with
  | some last => if isDriveLetter last.toList then done else done.dropLast
  | none => []

/-- Puts an escaped segment behind others. Dots move in the path, and leave an empty segment if
they come last; in a `file` path a drive letter at the front has a colon and stands alone. -/
def placeSegment (isFile last : Bool) (done : List String) (segment : List Char) : List String :=
  let ended (done : List String) := if last then done ++ [""] else done
  if isDoubleDot segment then ended (shorten done)
  else if isSingleDot segment then ended done
  else if isFile ∧ done.isEmpty then
    match segment with
    | [a, b] => if isDriveLetter [a, b] then [String.ofList [a, ':']] else [String.ofList [a, b]]
    | a :: ':' :: c :: rest =>
      if a.isAlpha then [String.ofList [a, ':'], String.ofList (c :: rest)]
      else [String.ofList segment]
    | segment => [String.ofList segment]
  else done ++ [String.ofList segment]

/-- Places unescaped segments one after the other. -/
def placeSegments (isFile : Bool) (done : List String) : List (List Char) → List String
  | [] => done
  | segment :: rest =>
    let placed := placeSegment isFile rest.isEmpty done (Text.Percent.encode escapedInPath segment)
    placeSegments isFile placed rest

/-- The text up to a query or a fragment, and the rest. -/
def cutPath (cs : List Char) : List Char × List Char := cs.span fun c ↦ c ≠ '?' ∧ c ≠ '#'

/-- The segments of a path text behind its first slash. -/
def pathSegments (special : Bool) (cs : List Char) : List (List Char) :=
  Text.splitOn '/' (if special then cs.map fun c ↦ if c = '\\' then '/' else c else cs)

/-! ## Parts -/

/-- The query and the fragment of the text behind a path. -/
def readSuffix (special : Bool) (cs : List Char) : Option String × Option String :=
  let fragment (cs : List Char) := String.ofList (Text.Percent.encode escapedInFragment cs)
  let query (cs : List Char) := String.ofList (Text.Percent.encode (escapedInQuery special) cs)
  match cs with
  | '?' :: rest =>
    let r := Text.splitFirst '#' rest
    (some (query r.1), r.2.map fragment)
  | '#' :: rest => (none, some (fragment rest))
  | _ => (none, none)

/-- Whether the path, query or fragment begins. -/
def endsAuthority (special : Bool) (c : Char) : Bool :=
  c == '/' || c == '?' || c == '#' || (special && c == '\\')

/-- User and password, and the text behind the last at sign of the authority. -/
def readUser (special : Bool) (cs : List Char) :
    Except ParseError (String × String × List Char) :=
  let (authority, rest) := cs.span (!endsAuthority special ·)
  if authority.contains '@' then
    let behind := (authority.reverse.takeWhile (· ≠ '@')).reverse
    let user := authority.take (authority.length - behind.length - 1)
    if user.isEmpty then
      if behind.isEmpty ∧ !rest.isEmpty then .error .emptyHost else .ok ("", "", behind ++ rest)
    else
      let escape (cs : List Char) := String.ofList (Text.Percent.encode escapedInUser cs)
      let r := Text.splitFirst ':' user
      .ok (escape r.1, escape (r.2.getD []), behind ++ rest)
  else .ok ("", "", cs)

/-- The text of the host and the text behind it. A colon inside brackets belongs to the host. -/
def cutHost (special : Bool) : (bracketed : Bool) → List Char → List Char × List Char
  | _, [] => ([], [])
  | bracketed, c :: rest =>
    if (c == ':' && !bracketed) || endsAuthority special c then ([], c :: rest)
    else
      let bracketed := if c = '[' then true else if c = ']' then false else bracketed
      let r := cutHost special bracketed rest
      (c :: r.1, r.2)

/-- The port in front of the path, and the text behind it. -/
def readPort : (value : Nat) → (any : Bool) → List Char →
    Except ParseError (Option Nat × List Char)
  | value, any, [] => .ok (if any then some value else none, [])
  | value, any, c :: rest =>
    if c.isDigit then
      let value := value * 10 + (c.toNat - 0x30)
      if 65535 < value then .error .invalidPort else readPort value true rest
    else if c = '/' ∨ c = '\\' ∨ c = '?' ∨ c = '#' then
      .ok (if any then some value else none, c :: rest)
    else .error .invalidPort

/-- The URL whose authority starts here. -/
def readAuthority (scheme : String) (cs : List Char) : Except ParseError Url := do
  let special := isSpecial scheme
  let (username, password, cs) ← readUser special cs
  let (hostText, cs) := cutHost special false cs
  let host ← if special then
      if hostText.isEmpty then .error .emptyHost else some <$> parseHost hostText
    else if hostText.isEmpty then .ok none
    else some <$> parseHostVerbatim hostText
  if host.isNone ∧ (cs.head? = some ':' ∨ username ≠ "" ∨ password ≠ "") then
    throw .emptyHost
  let (port, cs) ← match cs with
    | ':' :: rest => readPort 0 false rest
    | cs => .ok (none, cs)
  let port := if port = defaultPort? scheme then none else port
  let (pathText, suffix) := cutPath cs
  let path := match pathText with
    | [] => if special then [""] else []
    | c :: rest =>
      placeSegments false []
        (pathSegments special (if c = '/' ∨ (special ∧ c = '\\') then rest else c :: rest))
  let (query, fragment) := readSuffix special suffix
  return ⟨scheme, some ⟨username, password, host, port⟩, .segments path, query, fragment⟩

/-- The `file` URL with this text behind its scheme. -/
def readFile (cs : List Char) : Except ParseError Url := do
  let isSlash (c : Char) : Bool := c == '/' || c == '\\'
  let finish (host : Option Host) (cs : List Char) : Url :=
    let (pathText, suffix) := cutPath cs
    let pathText := match pathText with
      | c :: rest => if isSlash c then rest else c :: rest
      | [] => []
    let path := placeSegments true [] (pathSegments true pathText)
    let (query, fragment) := readSuffix true suffix
    let host := if (path.head?.map (isDriveLetter ·.toList)).getD false then none else host
    ⟨"file", some { host }, .segments path, query, fragment⟩
  match cs with
  | a :: b :: rest =>
    if isSlash a ∧ isSlash b then
      let (hostText, behind) := rest.span (!endsAuthority true ·)
      if hostText.isEmpty then return finish none behind
      else if isDriveLetter hostText then return finish none rest
      else
        match ← parseHost hostText with
        | .domain "localhost" => return finish none behind
        | host => return finish (some host) behind
    else return finish none (a :: b :: rest)
  | cs => return finish none cs

/-- The scheme in lower case and the text behind its colon, if the text begins with one. -/
def readScheme (cs : List Char) : Option (String × List Char) :=
  let isSchemeChar (c : Char) : Bool := c.isAlphanum || c == '+' || c == '-' || c == '.'
  match cs.span isSchemeChar with
  | (first :: name, ':' :: rest) =>
    if first.isAlpha then some (String.ofList ((first :: name).map Char.toLower), rest) else none
  | _ => none

/-- The URL of a scheme with this text behind it. -/
def readAfterScheme (scheme : String) (cs : List Char) : Except ParseError Url :=
  if scheme = "file" then readFile cs
  else if isSpecial scheme then
    readAuthority scheme (cs.dropWhile fun c ↦ c = '/' ∨ c = '\\')
  else
    match cs with
    | '/' :: '/' :: rest => readAuthority scheme rest
    | '/' :: rest =>
      let (pathText, suffix) := cutPath rest
      let path := placeSegments false [] (pathSegments false pathText)
      let (query, fragment) := readSuffix false suffix
      .ok ⟨scheme, none, .segments path, query, fragment⟩
    | cs =>
      let (pathText, suffix) := cutPath cs
      let (query, fragment) := readSuffix false suffix
      .ok ⟨scheme, none, .rootless (String.ofList (Text.Percent.encode isControl pathText)),
        query, fragment⟩

/-- The characters of a text that count. -/
def significant (s : String) : List Char :=
  (Text.strip (fun c ↦ c.toNat ≤ 0x20) s.toList).filter fun c ↦ c ≠ '\t' ∧ c ≠ '\n' ∧ c ≠ '\r'

/-- The absolute URL that a text spells. Models `Url.parse` of `url`. -/
def parse (s : String) : Except ParseError Url :=
  match readScheme (significant s) with
  | some (scheme, rest) => readAfterScheme scheme rest
  | none => .error .relativeWithoutBase

/-! ## References -/

/-- The segments of a path, none for plain text. -/
def Path.toList : Path → List String
  | .rootless _ => []
  | .segments list => list

/-- The URL that a reference without a scheme means in the place of `base`, for schemes whose URLs
have a host. -/
def resolveRelative (base : Url) (cs : List Char) : Except ParseError Url :=
  let special := isSpecial base.scheme
  let isSlash (c : Char) : Bool := c == '/' || (special && c == '\\')
  let withPath (done : List String) (cs : List Char) : Url :=
    let (pathText, suffix) := cutPath cs
    let path := placeSegments (base.scheme == "file") done (pathSegments special pathText)
    let (query, fragment) := readSuffix special suffix
    { base with path := .segments path, query, fragment }
  match cs with
  | [] => .ok { base with fragment := none }
  | '?' :: _ =>
    let (query, fragment) := readSuffix special cs
    .ok { base with query, fragment }
  | '#' :: _ => .ok { base with fragment := (readSuffix special cs).2 }
  | '/' :: '/' :: rest => readAuthority base.scheme rest
  | c :: rest =>
    if isSlash c then
      if (rest.head?.map isSlash).getD false then
        readAuthority base.scheme (rest.dropWhile isSlash)
      else .ok (withPath [] rest)
    else .ok (withPath base.path.toList.dropLast (c :: rest))

/-- The URL that a reference means in the place of `base`. Models `Url.join` of `url`. -/
def resolve (base : Url) (reference : String) : Except ParseError Url :=
  let cs := significant reference
  match readScheme cs with
  | some (scheme, rest) =>
    let slashes := rest.takeWhile fun c ↦ c = '/' ∨ c = '\\'
    if scheme = base.scheme ∧ isSpecial scheme ∧ slashes.length < 2 then resolveRelative base rest
    else readAfterScheme scheme rest
  | none =>
    match base.path, cs with
    | .rootless _, '#' :: _ => resolveRelative base cs
    | .rootless _, _ => .error .relativeToRootless
    | .segments _, _ => resolveRelative base cs

end RegionClient.Url
