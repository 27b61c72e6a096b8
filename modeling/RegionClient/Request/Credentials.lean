import RegionClient.Failure.Transport
import RegionClient.Text.Form
import RegionClient.Text.Quoted

/-!
# Credentials

The API key and the authorization made from it: a plaintext signature with an empty consumer
secret, between fields that are form-encoded so that no key can end one.
-/

namespace RegionClient

/-- An API key, in its three parts. Models `Credentials`. -/
structure Credentials where
  consumerKey : String
  tokenKey : String
  tokenSecret : String
  deriving DecidableEq

/-- What no two authorizations share. -/
structure Stamp where
  nonce : String
  timestamp : String
  deriving DecidableEq, Repr

/-- How a secret is shown. -/
def redacted : String := "SecretBox<str>([REDACTED])"

namespace Credentials

/-- The credentials that a key with two colons spells. Models `Credentials.parse`. -/
def parse (apiKey : String) : Except TransportError Credentials :=
  match Text.splitOn ':' apiKey.toList with
  | [consumer, token, secret] =>
    .ok ⟨String.ofList consumer, String.ofList token, String.ofList secret⟩
  | parts => .error (.invalidCredentials
      ("API key must have 3 parts separated by ':', got " ++ toString parts.length))

/-- The fields of an authorization. -/
def fields (c : Credentials) (stamp : Stamp) : List (String × String) := [
    ("realm", ""),
    ("oauth_consumer_key", c.consumerKey),
    ("oauth_token", c.tokenKey),
    ("oauth_signature_method", "PLAINTEXT"),
    ("oauth_signature", "&" ++ c.tokenSecret),
    ("oauth_nonce", stamp.nonce),
    ("oauth_timestamp", stamp.timestamp),
    ("oauth_version", "1.0")]

/-- One field, its value form-encoded between quotes. -/
def printField (field : String × String) : List Char :=
  field.1.toList ++ ['=', '\x22'] ++ Text.Form.encodeText field.2.toList ++ ['\x22']

/-- The authorization of one request. Models `Credentials.authorization_header`. -/
def authorization (c : Credentials) (stamp : Stamp) : String :=
  String.ofList ("OAuth ".toList ++ [',', ' '].intercalate ((c.fields stamp).map printField))

/-- The credentials without the secret. -/
def describe (c : Credentials) : String :=
  "Credentials \x7b consumer_key: " ++ Text.quote c.consumerKey ++ ", token_key: " ++
    Text.quote c.tokenKey ++ ", token_secret: " ++ redacted ++ " \x7d"

end Credentials

end RegionClient
