import RegionClient.Text.Numeral
import RegionClient.Text.Percent
import RegionClient.Text.Split
import RegionClient.Url.Punycode

/-!
# Hosts

The host of a URL: a domain name in lower case, or an address of 32 or 128 bits. A name whose last
label is a number is an address of 32 bits, in any of the old numeric spellings.
-/

namespace RegionClient.Url

/-- Why a text is no URL. -/
inductive ParseError where
  | emptyHost
  | invalidDomain
  | invalidDomainCharacter
  | invalidPort
  | invalidIpv4
  | invalidIpv6
  | relativeWithoutBase
  | relativeToRootless
  deriving DecidableEq, Repr

/-- The wording of a parse error. -/
def ParseError.message : ParseError → String
  | emptyHost => "empty host"
  | invalidDomain => "invalid international domain name"
  | invalidDomainCharacter => "invalid domain character"
  | invalidPort => "invalid port number"
  | invalidIpv4 => "invalid IPv4 address"
  | invalidIpv6 => "invalid IPv6 address"
  | relativeWithoutBase => "relative URL without a base"
  | relativeToRootless => "relative URL with a cannot-be-a-base base"

/-- Where a URL points. -/
inductive Host where
  | domain (name : String)
  | ipv4 (address : Nat)
  | ipv6 (pieces : List Nat)
  deriving DecidableEq, Repr

/-! ## Addresses of 32 bits -/

/-- A number in base 8, 10 or 16 after its mark, if it is one; no digits spell zero. -/
def ipv4Number? (cs : List Char) : Option Nat :=
  let digits (base : Nat) (ds : List Char) : Option Nat :=
    ds.foldlM (fun n c ↦ (Text.Hex.value? c).bind fun d ↦
      if d < base then some (n * base + d) else none) 0
  match cs with
  | [] => none
  | '0' :: 'x' :: rest => digits 16 rest
  | '0' :: 'X' :: rest => digits 16 rest
  | '0' :: c :: rest => digits 8 (c :: rest)
  | cs => digits 10 cs

/-- Whether the last label, not counting an empty one at the end, is a number. -/
def endsInNumber (cs : List Char) : Bool :=
  let isNumber (label : List Char) : Bool :=
    (label ≠ [] ∧ label.all Char.isDigit) || (ipv4Number? label).isSome
  match (Text.splitOn '.' cs).reverse with
  | [] => false
  | [] :: label :: _ => isNumber label
  | label :: _ => isNumber label

/-- The address that up to four numbers spell: each but the last is one byte, the last fills what
is left. -/
def parseIpv4 (cs : List Char) : Except ParseError Nat :=
  let parts := Text.splitOn '.' cs
  let parts := if parts.getLast? = some [] then parts.dropLast else parts
  match parts.mapM ipv4Number? with
  | none => .error .invalidIpv4
  | some numbers =>
    match numbers.reverse with
    | [] => .error .invalidIpv4
    | last :: earlier =>
      if 3 < earlier.length ∨ Nat.pow 2 (8 * (4 - earlier.length)) ≤ last ∨
          earlier.any (255 < ·) then
        .error .invalidIpv4
      else
        .ok (last + earlier.reverse.zipIdx.foldl
          (fun sum (n, i) ↦ sum + n * Nat.pow 2 (8 * (3 - i))) 0)

/-- The four bytes of an address, with dots between them. -/
def printIpv4 (address : Nat) : List Char :=
  Text.join '.' ([Nat.pow 2 24, Nat.pow 2 16, Nat.pow 2 8, 1].map fun unit ↦
    Text.Numeral.decimal (address / unit % 256))

/-! ## Addresses of 128 bits -/

/-- The value of one to four hexadecimal digits. -/
def ipv6Piece? (cs : List Char) : Option Nat :=
  if cs.isEmpty ∨ 4 < cs.length then none
  else cs.foldlM (fun n c ↦ (Text.Hex.value? c).map (n * 16 + ·)) 0

/-- The two pieces that four decimal bytes without leading zeros spell. -/
def ipv6Tail? (cs : List Char) : Option (List Nat) :=
  let byte? (ds : List Char) : Option Nat :=
    if ds.isEmpty ∨ (1 < ds.length ∧ ds.head? = some '0') then none
    else ((Text.Numeral.read? ds).filter (· ≤ 255))
  match (Text.splitOn '.' cs).mapM byte? with
  | some [a, b, c, d] => some [a * 256 + b, c * 256 + d]
  | _ => none

/-- The pieces between single colons; only where `tail` allows it, the last may be four bytes. -/
def ipv6Pieces? (tail : Bool) (cs : List Char) : Option (List Nat) :=
  if cs.isEmpty then some []
  else
    match (Text.splitOn ':' cs).reverse with
    | [] => none
    | last :: earlier => do
      let pieces ← earlier.reverse.mapM ipv6Piece?
      match ipv6Piece? last with
      | some piece => return pieces ++ [piece]
      | none => if tail then return pieces ++ (← ipv6Tail? last) else none

/-- The text before and after the first double colon. -/
def splitCompressed : List Char → Option (List Char × List Char)
  | [] => none
  | [_] => none
  | a :: b :: rest =>
    if a = ':' ∧ b = ':' then some ([], rest)
    else (splitCompressed (b :: rest)).map fun r ↦ (a :: r.1, r.2)

/-- The eight pieces of an address; a double colon stands for the missing ones, at least one. -/
def parseIpv6 (cs : List Char) : Except ParseError (List Nat) :=
  match splitCompressed cs with
  | none =>
    match ipv6Pieces? true cs with
    | some pieces => if pieces.length = 8 then .ok pieces else .error .invalidIpv6
    | none => .error .invalidIpv6
  | some (left, right) =>
    match ipv6Pieces? false left, ipv6Pieces? true right with
    | some before, some behind =>
      if before.length + behind.length ≤ 7 then
        .ok (before ++ List.replicate (8 - before.length - behind.length) 0 ++ behind)
      else .error .invalidIpv6
    | _, _ => .error .invalidIpv6

/-- The lengths of the runs of zeros that start at each place. -/
def zeroRuns : List Nat → List Nat
  | [] => []
  | n :: rest =>
    let runs := zeroRuns rest
    (if n = 0 then runs.headD 0 + 1 else 0) :: runs

/-- The pieces in hexadecimal with the first longest run of two or more zeros left out. -/
def printIpv6 (pieces : List Nat) : List Char :=
  let runs := zeroRuns pieces
  let longest := runs.foldl max 0
  let print (ps : List Nat) := Text.join ':' (ps.map Text.Numeral.hexadecimal)
  if longest < 2 then print pieces
  else
    let start := runs.findIdx (· == longest)
    print (pieces.take start) ++ [':', ':'] ++ print (pieces.drop (start + longest))

/-! ## Domains -/

/-- The characters that no domain may hold. -/
def isForbiddenInDomain (c : Char) : Bool :=
  c.toNat ≤ 0x20 || c.toNat == 0x7F || "%#/:<>?@[\\]^|".toList.contains c

/-- The characters that no host of an unknown scheme may hold. -/
def isForbiddenInHost (c : Char) : Bool :=
  ['\x00', '\t', '\n', '\r'].contains c || " #/:<>?@[\\]^|".toList.contains c

/-- Whether a label in the compact form spells characters outside ASCII, none of them a control
character. -/
def isWellEncoded (label : List Char) : Bool :=
  match label with
  | 'x' :: 'n' :: '-' :: '-' :: rest =>
    match Punycode.decode? rest with
    | some codes => codes.any (0x80 ≤ ·) && codes.all fun n ↦ n < 0x80 || 0xA0 ≤ n
    | none => false
  | _ => true

/-- The host of a special scheme: an address in brackets, or a domain with its escapes undone. A
domain with characters outside ASCII has a compact form, which takes the tables of Unicode to find;
here it is refused, so that of such domains only the compact form is a host. Models `Host.parse` of
`url`. -/
def parseHost (cs : List Char) : Except ParseError Host :=
  match cs with
  | '[' :: rest =>
    if rest.getLast? = some ']' then Host.ipv6 <$> parseIpv6 rest.dropLast
    else .error .invalidIpv6
  | cs =>
    match Text.Utf8.decode? (Text.Percent.decode cs) with
    | none => .error .invalidDomain
    | some decoded =>
      let domain := decoded.map Char.toLower
      if domain.any (fun c ↦ isForbiddenInDomain c || 0x80 ≤ c.toNat) then .error .invalidDomain
      else if (Text.splitOn '.' domain).any (!isWellEncoded ·) then .error .invalidDomain
      else if domain.isEmpty then .error .emptyHost
      else if endsInNumber domain then Host.ipv4 <$> parseIpv4 domain
      else .ok (.domain (String.ofList domain))

/-- The host of any other scheme: an address in brackets, or text kept as it is. -/
def parseHostVerbatim (cs : List Char) : Except ParseError Host :=
  match cs with
  | '[' :: rest =>
    if rest.getLast? = some ']' then Host.ipv6 <$> parseIpv6 rest.dropLast
    else .error .invalidIpv6
  | cs =>
    if cs.any isForbiddenInHost then .error .invalidDomainCharacter
    else
      let isControl (c : Char) : Bool := c.toNat < 0x20 || c.toNat == 0x7F
      .ok (.domain (String.ofList (Text.Percent.encode isControl cs)))

/-- The text of a host. -/
def Host.print : Host → List Char
  | domain name => name.toList
  | ipv4 address => printIpv4 address
  | ipv6 pieces => '[' :: printIpv6 pieces ++ [']']

end RegionClient.Url
