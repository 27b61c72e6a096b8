import RegionClient.Http.Reply
import RegionClient.Http.Wire

/-!
# The network

A network in which one server listens, or none, and answers from a script. Connections succeed where
it listens, over `https` too: certificates are not looked at. Redirects are followed up to a limit.
Every wire request that reaches the server is recorded with its answer.
-/

namespace RegionClient.Http

/-- What happens to a request that reaches the server. -/
inductive Answer where
  | reply (r : Reply)
  | dropped
  | stalled
  deriving DecidableEq, Repr

/-- Where a server listens, for requests of one scheme. -/
structure Listener where
  scheme : String
  host : Url.Host
  port : Nat
  deriving DecidableEq, Repr

/-- A request that reached the server, and what became of it. -/
structure Served where
  request : WireRequest
  answer : Answer
  deriving DecidableEq, Repr

/-- A network, the answers to come, and its history. -/
structure Network where
  listener : Option Listener
  answers : List Answer
  fresh : Nat → Fresh
  used : Nat := 0
  history : List Served := []

/-- The answer of a server whose script has run out. -/
def exhausted : Answer :=
  .reply { status := ⟨599⟩, body := Text.Utf8.ofString "no scripted response" }

namespace Network

/-- Whether the server is at a URL. -/
def reaches (n : Network) (url : Url) : Bool :=
  match n.listener with
  | none => false
  | some l => url.scheme == l.scheme && url.host? == some l.host && url.port? == some l.port

/-- The next answer of the server. -/
def nextAnswer (n : Network) : Answer := n.answers.headD exhausted

/-- Sends one wire request; nobody answers where nobody listens. -/
def deliver (n : Network) (r : WireRequest) : Option Answer × Network :=
  if n.reaches r.url then
    let answer := n.nextAnswer
    (some answer, { n with answers := n.answers.tail, history := n.history ++ [⟨r, answer⟩] })
  else (none, n)

/-- Takes fresh values for a request. -/
def takeFresh (n : Network) : Fresh × Network := (n.fresh n.used, { n with used := n.used + 1 })

end Network

/-- The request that a redirect asks for, by the policy that `reqwest` has where a client sets none:
the statuses 301 and 302 turn a POST into a GET and leave a DELETE as it is, and 303 turns every
request into a GET; others keep method and body, if the body can be sent again. A location that is
no URL asks for nothing. All headers are sent along. Versions of the policy differ in what they take
out: the type of a body that is dropped, which is kept here, and the authorization on the way to
another server, which the one that listens here never sees. -/
def WireRequest.redirected? (r : WireRequest) (reply : Reply) : Option WireRequest := do
  let asGet : WireRequest := { r with method := .get, payload := .empty }
  let next ← match reply.status.code with
    | 301 | 302 => if r.method = .post then some asGet else some r
    | 303 => some asGet
    | 307 | 308 => some r
    | _ => none
  if next.payload.isSpent then failure
  let location ← reply.header? "location"
  match r.url.resolve location with
  | .ok url => return { next with url := { url with fragment := none } }
  | .error _ => failure

/-- The number of redirects that are followed. -/
def redirectLimit : Nat := 10

/-- Sends a request and follows at most `left` redirects. Failures to connect speak of `first`. -/
def follow (first : Url) : (left : Nat) → WireRequest → Network →
    Except TransportError Reply × Network
  | left, r, n =>
    let unsent := aboutUrl "error sending request" first
    match n.deliver r with
    | (none, n) => (.error (.connection unsent), n)
    | (some .dropped, n) => (.error (.http unsent), n)
    | (some .stalled, n) => (.error (.timeout unsent), n)
    | (some (.reply reply), n) =>
      match r.redirected? reply with
      | none => (.ok reply, n)
      | some next =>
        match left with
        | 0 => (.error (.http (aboutUrl "error following redirect" r.url)), n)
        | left + 1 =>
          if isSendable next.url then follow first left next n
          else (.error (.http (aboutUrl "builder error" next.url)), n)

/-- Sends a request with its redirects. Models `RequestBuilder.send` of `reqwest`. -/
def send (r : WireRequest) (n : Network) : Except TransportError Reply × Network :=
  follow r.url redirectLimit r n

end RegionClient.Http
