import RegionClient.Text.Percent
import RegionClient.Text.Split

/-!
# Form encoding

Pairs of a name and a value as one line of text: `&` between pairs, `=` inside a pair, a plus sign
for each space, and an escape for every other character outside a small alphabet.
-/

namespace RegionClient.Text.Form

/-- The characters that stand for themselves. -/
def isPlain (c : Char) : Bool :=
  c.isAlphanum || c == '*' || c == '-' || c == '.' || c == '_'

/-- One character as form encoding writes it. -/
def encodeChar (c : Char) : List Char :=
  if c = ' ' then ['+'] else if isPlain c then [c] else Percent.escape c

/-- A name or a value as form encoding writes it. Models `form_urlencoded.byte_serialize`. -/
def encodeText (cs : List Char) : List Char := cs.flatMap encodeChar

/-- One pair. -/
def encodePair (p : String × String) : List Char :=
  encodeText p.1.toList ++ '=' :: encodeText p.2.toList

/-- The pairs in order. Models `form_urlencoded.Serializer`. -/
def encode (pairs : List (String × String)) : List Char := join '&' (pairs.map encodePair)

/-- The text that a name or a value spells: plus signs are spaces, escapes are undone, and bytes
that spell nothing are U+FFFD. -/
def decodeText (cs : List Char) : String :=
  Utf8.toStringReplacing (Percent.decode (cs.map fun c ↦ if c = '+' then ' ' else c))

/-- The pair that a piece spells; without `=` the value is empty. -/
def decodePair (piece : List Char) : String × String :=
  let r := splitFirst '=' piece
  (decodeText r.1, decodeText (r.2.getD []))

/-- The pairs that a text spells; empty pieces are none. Models `form_urlencoded.parse`. -/
def decode (cs : List Char) : List (String × String) :=
  ((splitOn '&' cs).filter (· ≠ [])).map decodePair

end RegionClient.Text.Form
