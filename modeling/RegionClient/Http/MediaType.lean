import RegionClient.Text.Charset

/-!
# Media types

The charset that the type of a body names.
-/

namespace RegionClient.Http.MediaType

/-- The characters of names and unquoted values. -/
def isToken (c : Char) : Bool := c.isAlphanum || "!#$%&*+-.^_|~\x27\x60".toList.contains c

/-- A token and the text after it. -/
def readToken? (cs : List Char) : Option (List Char × List Char) :=
  match cs.span isToken with
  | ([], _) => none
  | r => some r

/-- A value, perhaps between quotes, and the text after it. -/
def readParamValue? (cs : List Char) : Option (List Char × List Char) :=
  match cs with
  | '\x22' :: rest =>
    match rest.span (· ≠ '\x22') with
    | (value, _ :: rest) => some (value, rest)
    | (_, []) => none
  | cs => readToken? cs

/-- The parameters behind a type, at most `count` of them. -/
def readParams? : (count : Nat) → List Char → Option (List (List Char × List Char))
  | 0, _ => none
  | count + 1, cs =>
    match cs.dropWhile (· = ' ') with
    | [] => some []
    | ';' :: rest =>
      match rest.dropWhile (· = ' ') with
      | [] => some []
      | rest => do
        let (name, rest) ← readToken? rest
        match rest with
        | '=' :: rest =>
          let (value, rest) ← readParamValue? rest
          return (name, value) :: (← readParams? count rest)
        | _ => none
    | _ => none

/-- The charset that a media type names; there is none in a text that is no media type. -/
def charset? (s : String) : Option String := do
  let (_, rest) ← readToken? s.toList
  let rest ← match rest with
    | '/' :: rest => some rest
    | _ => none
  let (_, rest) ← readToken? rest
  let params ← readParams? (rest.length + 1) rest
  let (_, value) ← params.find? fun p ↦ p.1.map Char.toLower = "charset".toList
  return String.ofList value

end RegionClient.Http.MediaType
