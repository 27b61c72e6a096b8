import RegionClient.Http.Endpoint
import RegionClient.Proofs.Http.Redirects

/-!
# What an exchange sends

How a request to the controller stands on the wire, and what an exchange that succeeds leaves
behind. Main statements: the request that is composed carries the one that was asked for
(`carries_of_compose_post`, `carries_of_compose_delete`), it is the first that reaches the server
(`Endpoint.Begins.compose_eq`), and an exchange succeeds only if the server fulfilled the last
request of a chain of redirects that begins with it (`exists_leads_of_exchange`).
-/

namespace RegionClient

namespace Url

/-- The query that names an operation behind what a URL asks for already. -/
def queryOf (query : Option String) (op : String) : List Char :=
  let before := match query with
    | none => []
    | some query => if query.isEmpty then [] else query.toList ++ ['&']
  before ++ ("op=".toList ++ Text.Form.encodeText op.toList)

/-- The target that names an operation at a URL. -/
def targetOf (url : Url) : Option String → String
  | none => url.target
  | some op => String.ofList (url.path.print ++ '?' :: queryOf url.query op)

private theorem encode_op (op : String) :
    Text.Form.encode [("op", op)] = "op=".toList ++ Text.Form.encodeText op.toList := by
  have hname : Text.Form.encodeText "op".toList = ['o', 'p'] := by decide
  have hmark : "op=".toList = ['o', 'p', '='] := by decide
  rw [hmark, Text.Form.encode, List.map_cons, List.map_nil, Text.join, Text.Form.encodePair, hname]
  rfl

private theorem query_appendQuery_op (url : Url) (op : String) :
    (url.appendQuery [("op", op)]).query = some (String.ofList (queryOf url.query op)) := by
  have hnonempty : ∀ cs : List Char,
      (cs ++ ("op=".toList ++ Text.Form.encodeText op.toList)).isEmpty = false := by
    intro cs
    simp
  have hadded := hnonempty []
  rw [List.nil_append] at hadded
  unfold appendQuery queryOf
  rw [encode_op]
  cases url.query with
  | none =>
    dsimp only
    rw [hadded]
    rfl
  | some query =>
    dsimp only
    cases query.isEmpty with
    | true =>
      rw [if_pos rfl, if_pos rfl, hadded]
      rfl
    | false =>
      rw [if_neg Bool.false_ne_true, if_neg Bool.false_ne_true, List.append_cons, hnonempty]
      rfl

private theorem target_appendQuery_op (url : Url) (op : String) :
    (url.appendQuery [("op", op)]).target = url.targetOf (some op) := by
  rw [target, query_appendQuery_op, targetOf, printAfter, String.toList_ofList]
  rfl

end Url

/-- A result that shows a value is that value. -/
theorem ok_of_toOption {ε α : Type} {x : Except ε α} {a : α} (h : x.toOption = some a) :
    x = .ok a := by
  cases x with
  | error e => cases h
  | ok b => exact congrArg Except.ok (Option.some.inj h)

/-- Requests can be made below a root: it has segments and a host, and its protocol is known. -/
structure Url.TakesRequests (root : Url) : Prop where
  segments : ∃ segments, root.path = .segments segments
  host : root.host?.isSome = true
  sendable : Http.isSendable root = true

namespace Http

/-- A body holds parameters, and a file if there is one. -/
inductive Payload.Holds : Payload → Params → Option FilePart → Prop
  | form (params : Params) : Holds (.form params) params none
  | multipart (boundary : String) (params : Params) (file : FilePart) :
      Holds (.multipart boundary params file) params (some file)

/-- A wire request carries a request to an API: it has its method, names its path and its operation
as the target and, if it is a POST, holds its parameters and its file. -/
structure Carries (root : Url) (method : Method) (request : Request) (r : WireRequest) : Prop where
  method_eq : r.method = method
  target_eq : ∃ url, locate root request.path = .ok url ∧ r.target = url.targetOf request.op
  holds : method = .post → r.payload.Holds request.params request.file

/-! ## Composing -/

/-- What is taken from a URL is told by its authority, and so is whether the URL is left as it is
or without user. -/
theorem exists_takeUser (url : Url) : ∃ user,
    (∀ url', url'.authority = url.authority → takeUser url' = (user, url')) ∨
      ∀ url', url'.authority = url.authority → takeUser url' = (user, url'.withoutUser) := by
  unfold takeUser
  cases url.authority with
  | none => exact ⟨none, .inl fun url' h ↦ by rw [h]⟩
  | some authority =>
    cases huser : unescape? authority.username with
    | none => exact ⟨none, .inl fun url' h ↦ by simp only [h, huser]⟩
    | some user =>
      obtain ⟨password, hpassword⟩ : ∃ password, password =
          if authority.password.isEmpty then none else unescape? authority.password := ⟨_, rfl⟩
      by_cases hnone : user.isEmpty = true ∧ password.isNone = true
      · exact ⟨none, .inl fun url' h ↦ by simp only [h, huser, ← hpassword, if_pos hnone]⟩
      · exact ⟨some (user, password), .inr fun url' h ↦ by
          simp only [h, huser, ← hpassword, if_neg hnone]⟩

/-- Taking the user from a URL leaves it as it is, or without user. -/
theorem takeUser_snd (url : Url) :
    (takeUser url).2 = url ∨ (takeUser url).2 = url.withoutUser := by
  obtain ⟨user, h | h⟩ := exists_takeUser url
  · exact .inl (congrArg Prod.snd (h url rfl))
  · exact .inr (congrArg Prod.snd (h url rfl))

private theorem targetOf_takeUser (url : Url) (op : Option String) :
    (takeUser url).2.targetOf op = url.targetOf op := by
  rcases takeUser_snd url with h | h
  · rw [h]
  · rw [h]
    cases op <;> rfl

/-- The URL that a request goes to, made of the URL of its path. -/
def sentTo (method : Method) (request : Request) (url : Url) : Url :=
  match addedPairs? method request with
  | none => (takeUser url).2
  | some pairs => (takeUser url).2.appendQuery pairs

/-- A request goes to the path of its URL. -/
theorem path_sentTo (method : Method) (request : Request) (url : Url) :
    (sentTo method request url).path = url.path := by
  have hpath : (takeUser url).2.path = url.path := by
    rcases takeUser_snd url with h | h <;> rw [h]
    rfl
  unfold sentTo
  cases addedPairs? method request with
  | none => exact hpath
  | some pairs => exact hpath

private theorem takeUser_place (url : Url) :
    (takeUser url).2.scheme = url.scheme ∧ (takeUser url).2.host? = url.host? ∧
      (takeUser url).2.port? = url.port? := by
  rcases takeUser_snd url with h | h
  · rw [h]
    exact ⟨rfl, rfl, rfl⟩
  · rw [h]
    unfold Url.host? Url.port? Url.withoutUser
    cases url.authority <;> exact ⟨rfl, rfl, rfl⟩

/-- A request goes to the scheme, the host and the port of its URL. -/
theorem sentTo_place (method : Method) (request : Request) (url : Url) :
    (sentTo method request url).scheme = url.scheme ∧
      (sentTo method request url).host? = url.host? ∧
      (sentTo method request url).port? = url.port? := by
  unfold sentTo
  cases addedPairs? method request with
  | none => exact takeUser_place url
  | some pairs => exact takeUser_place url

/-- Requests are sent to the schemes of the web only. -/
theorem isSpecial_of_isSendable {url : Url} (h : isSendable url = true) :
    Url.isSpecial url.scheme = true ∧ url.scheme ≠ "file" := by
  have hscheme : url.scheme = "http" ∨ url.scheme = "https" := by
    simpa using (Bool.and_eq_true_iff.mp h).1
  rcases hscheme with h | h <;> rw [h] <;> decide

private theorem isSendable_sentTo (method : Method) (request : Request) (url : Url) :
    isSendable (sentTo method request url) = isSendable url := by
  obtain ⟨hscheme, hhost, -⟩ := sentTo_place method request url
  rw [isSendable, isSendable, hscheme, hhost]

private theorem reaches_sentTo (n : Network) (method : Method) (request : Request) (url : Url) :
    n.reaches (sentTo method request url) = n.reaches url := by
  obtain ⟨hscheme, hhost, hport⟩ := sentTo_place method request url
  rw [Network.reaches, Network.reaches, hscheme, hhost, hport]

/-- A request is composed in three steps, each of which can fail. -/
theorem compose_eq (root : Url) (credentials : Credentials) (settings : ClientSettings)
    (fresh : Fresh) (method : Method) (request : Request) :
    compose root credentials settings fresh method request =
      (locate root request.path).bind fun url ↦
        if url.host?.isNone then .error (.http (aboutUrl "builder error" url))
        else if !isSendable (sentTo method request url) then
          .error (.http (aboutUrl "builder error" (sentTo method request url)))
        else .ok ⟨method, sentTo method request url,
          headers settings (takeUser url).1 (credentials.authorization fresh.stamp)
            (payload fresh method request), payload fresh method request⟩ := by
  unfold compose sentTo
  cases locate root request.path with
  | error e => rfl
  | ok url =>
    dsimp only [bind, Except.bind]
    split
    · rfl
    · cases addedPairs? method request with
      | none =>
        dsimp only
        split <;> rfl
      | some pairs =>
        dsimp only
        split <;> rfl

/-- A request is composed if its path has a URL with a host that requests can be sent to. -/
theorem compose_eq_ok_iff {root : Url} {credentials : Credentials} {settings : ClientSettings}
    {fresh : Fresh} {method : Method} {request : Request} {r : WireRequest} :
    compose root credentials settings fresh method request = .ok r ↔
      ∃ url, locate root request.path = .ok url ∧ url.host?.isSome = true ∧
        isSendable url = true ∧
        r = ⟨method, sentTo method request url,
          headers settings (takeUser url).1 (credentials.authorization fresh.stamp)
            (payload fresh method request), payload fresh method request⟩ := by
  rw [compose_eq]
  constructor
  · intro h
    cases hlocate : locate root request.path with
    | error e =>
      rw [hlocate] at h
      cases h
    | ok url =>
      rw [hlocate, Except.bind] at h
      split at h
      · cases h
      · next hhost =>
        split at h
        · cases h
        · next hsendable =>
          refine ⟨url, rfl, ?_, ?_, (Except.ok.inj h).symm⟩
          · simpa [Option.isSome_iff_ne_none] using hhost
          · simpa [isSendable_sentTo] using hsendable
  · rintro ⟨url, hlocate, hhost, hsendable, rfl⟩
    rw [hlocate, Except.bind, isSendable_sentTo, hsendable, if_neg]
    · rfl
    · simpa [Option.isSome_iff_ne_none] using hhost

/-- A path has a URL below every root with segments; only its path is its own. -/
theorem locate_eq_ok {root url : Url} {path : String} (h : locate root path = .ok url) :
    (∃ segments, root.path = .segments segments) ∧ url = { root with path := url.path } := by
  unfold locate Url.appendSegments? at h
  cases hpath : root.path with
  | rootless text =>
    rw [hpath] at h
    cases h
  | segments segments =>
    rw [hpath] at h
    rw [← Except.ok.inj h]
    exact ⟨⟨segments, rfl⟩, rfl⟩

/-- Below a root with segments, every path has a URL. -/
theorem exists_locate {root : Url} {segments : List String} (h : root.path = .segments segments)
    (path : String) : ∃ url, locate root path = .ok url := by
  unfold locate Url.appendSegments?
  rw [h]
  exact ⟨_, rfl⟩

/-- Below a root of the web with segments, the segments of a path are appended to those. -/
theorem locate_segments {root : Url} {segments : List String}
    (hpath : root.path = .segments segments) (hscheme : (root.scheme == "file") = false)
    (path : String) :
    locate root path = .ok { root with
      path := .segments ((pathSegments path).foldl
        (Url.appendSegment (Url.isSpecial root.scheme) false) (Url.dropEmptyLast segments)) } := by
  unfold locate Url.appendSegments?
  rw [hpath]
  dsimp only
  rw [hscheme]

/-- Requests can be composed below a root just if it takes requests. -/
theorem exists_compose_iff (root : Url) (credentials : Credentials) (settings : ClientSettings)
    (fresh : Fresh) (method : Method) (request : Request) :
    (∃ r, compose root credentials settings fresh method request = .ok r) ↔
      root.TakesRequests := by
  constructor
  · rintro ⟨r, h⟩
    obtain ⟨url, hlocate, hhost, hsendable, -⟩ := compose_eq_ok_iff.mp h
    obtain ⟨hsegments, hurl⟩ := locate_eq_ok hlocate
    rw [hurl] at hhost hsendable
    exact ⟨hsegments, hhost, hsendable⟩
  · rintro ⟨⟨segments, hpath⟩, hhost, hsendable⟩
    obtain ⟨url, hlocate⟩ := exists_locate hpath request.path
    obtain ⟨-, hurl⟩ := locate_eq_ok hlocate
    refine ⟨_, compose_eq_ok_iff.mpr ⟨url, hlocate, ?_, ?_, rfl⟩⟩
    · rw [hurl]
      exact hhost
    · rw [hurl]
      exact hsendable

/-- A composed request is of the method, has the body, and goes to the URL of the path. -/
theorem of_compose {root : Url} {credentials : Credentials} {settings : ClientSettings}
    {fresh : Fresh} {method : Method} {request : Request} {r : WireRequest}
    (h : compose root credentials settings fresh method request = .ok r) :
    ∃ url, locate root request.path = .ok url ∧ r.method = method ∧
      r.payload = payload fresh method request ∧ r.url = sentTo method request url := by
  obtain ⟨url, hlocate, -, -, rfl⟩ := compose_eq_ok_iff.mp h
  exact ⟨url, hlocate, rfl, rfl, rfl⟩

private theorem holds_payload_post (fresh : Fresh) (request : Request) :
    (payload fresh .post request).Holds request.params request.file := by
  obtain ⟨path, op, params, file⟩ := request
  cases file with
  | none => exact .form params
  | some file => exact .multipart fresh.boundary params file

/-- A POST that is composed carries its request. -/
theorem carries_of_compose_post {root : Url} {credentials : Credentials}
    {settings : ClientSettings} {fresh : Fresh} {request : Request} {op : String} {r : WireRequest}
    (hop : request.op = some op)
    (h : compose root credentials settings fresh .post request = .ok r) :
    Carries root .post request r := by
  obtain ⟨url, hlocate, hmethod, hpayload, hurl⟩ := of_compose h
  have hpairs : addedPairs? .post request = some [("op", op)] := by
    rw [addedPairs?, Request.opPairs, hop]
    rfl
  rw [sentTo, hpairs] at hurl
  refine ⟨hmethod, ⟨url, hlocate, ?_⟩, fun _ ↦ ?_⟩
  · rw [WireRequest.target, hurl, Url.target_appendQuery_op, targetOf_takeUser, hop]
  · rw [hpayload]
    exact holds_payload_post fresh request

/-- A DELETE that is composed carries its request. -/
theorem carries_of_compose_delete {root : Url} {credentials : Credentials}
    {settings : ClientSettings} {fresh : Fresh} {request : Request} {r : WireRequest}
    (hop : request.op = none)
    (h : compose root credentials settings fresh .delete request = .ok r) :
    Carries root .delete request r := by
  obtain ⟨url, hlocate, hmethod, -, hurl⟩ := of_compose h
  refine ⟨hmethod, ⟨url, hlocate, ?_⟩, nofun⟩
  rw [WireRequest.target, hurl, hop]
  exact targetOf_takeUser url none

/-! ## Exchanging -/

/-- A reply brings bytes only if it fulfils. -/
theorem isSuccess_of_result {compression : Bool} {reply : Reply} {body : Bytes}
    (h : reply.result compression = .ok body) : reply.status.isSuccess = true := by
  unfold Reply.result at h
  split at h
  · next hsuccess => exact hsuccess
  · split at h
    · cases h
    · cases h

/-- An exchange is refused if no request can be composed. -/
theorem exchange_of_refused {e : Endpoint} {method : Method} {request : Request} {n : Network}
    {error : TransportError}
    (h : compose e.root e.credentials e.settings n.takeFresh.1 method request = .error error) :
    e.exchange method request n = (.error error, n.takeFresh.2) := by
  unfold Endpoint.exchange
  dsimp only
  rw [h]

/-- An exchange sends the request that is composed. -/
theorem exchange_of_composed {e : Endpoint} {method : Method} {request : Request} {n : Network}
    {r : WireRequest}
    (h : compose e.root e.credentials e.settings n.takeFresh.1 method request = .ok r) :
    e.exchange method request n =
      ((send r n.takeFresh.2).1.bind (Reply.result e.settings.compression),
        (send r n.takeFresh.2).2) := by
  unfold Endpoint.exchange
  dsimp only
  rw [h]

/-- A wire request is the first of an exchange that reaches the server. -/
def Endpoint.Begins (e : Endpoint) (method : Method) (request : Request) (n : Network)
    (r : WireRequest) : Prop :=
  ∃ answer rest, (e.exchange method request n).2.history = n.history ++ ⟨r, answer⟩ :: rest

/-- The request that is composed is the first of an exchange that reaches the server. -/
theorem Endpoint.Begins.compose_eq {e : Endpoint} {method : Method} {request : Request}
    {n : Network} {r : WireRequest} (h : e.Begins method request n r) :
    compose e.root e.credentials e.settings n.takeFresh.1 method request = .ok r := by
  obtain ⟨answer, rest, hhistory⟩ := h
  have hmore : ∀ {served : Served} {rest : List Served}, n.history ≠ n.history ++ served :: rest :=
    by simp
  cases hcompose : compose e.root e.credentials e.settings n.takeFresh.1 method request with
  | error error =>
    rw [exchange_of_refused hcompose] at hhistory
    exact absurd hhistory hmore
  | ok first =>
    rw [exchange_of_composed hcompose] at hhistory
    rcases history_send first n.takeFresh.2 with ⟨-, hnone⟩ | ⟨answer', rest', hfirst⟩
    · exact absurd (hnone.symm.trans hhistory) hmore
    · have hsame := List.append_cancel_left (hfirst.symm.trans hhistory)
      rw [(Served.mk.inj (List.cons.inj hsame).1).1]

/-- Below a root that takes requests and is at the server, every exchange reaches it. -/
theorem Endpoint.exists_begins {e : Endpoint} (htakes : e.root.TakesRequests) {n : Network}
    (hreaches : n.reaches e.root = true) (method : Method) (request : Request) :
    ∃ r, e.Begins method request n r := by
  obtain ⟨r, hcompose⟩ := (exists_compose_iff e.root e.credentials e.settings n.takeFresh.1 method
    request).mpr htakes
  refine ⟨r, ?_⟩
  unfold Endpoint.Begins
  rw [exchange_of_composed hcompose]
  obtain ⟨url, hlocate, -, -, hurl⟩ := of_compose hcompose
  have hserver : n.takeFresh.2.reaches r.url = true := by
    rw [hurl, reaches_sentTo, (locate_eq_ok hlocate).2]
    exact hreaches
  refine (history_send r n.takeFresh.2).resolve_left ?_
  rintro ⟨hnobody, -⟩
  rw [hserver] at hnobody
  cases hnobody

/-- An endpoint is made of a key of three parts and of the root of the version. -/
theorem Endpoint.make_eq_ok_iff {settings : ClientSettings} {baseUrl apiKey : String}
    {version : Version} {e : Endpoint} :
    Endpoint.make settings baseUrl apiKey version = .ok e ↔
      Credentials.parse apiKey = .ok e.credentials ∧ apiRoot baseUrl version = .ok e.root ∧
        settings = e.settings := by
  obtain ⟨root, credentials, settings'⟩ := e
  unfold Endpoint.make
  cases Credentials.parse apiKey with
  | error error => simp [bind, Except.bind]
  | ok credentials' =>
    cases apiRoot baseUrl version with
    | error error => simp [bind, Except.bind]
    | ok root' =>
      simp only [bind, Except.bind, pure, Except.pure, Except.ok.injEq, Endpoint.mk.injEq]
      grind

/-- An exchange succeeds only at the end of a chain of redirects that begins with the request that
was composed. The last request is fulfilled, and nothing else reached the server. -/
theorem exists_leads_of_exchange {e : Endpoint} {method : Method} {request : Request}
    {n : Network} {body : Bytes} (h : (e.exchange method request n).1 = .ok body) :
    ∃ fresh first hops last,
      compose e.root e.credentials e.settings fresh method request = .ok first ∧
      Leads first hops last.request ∧ last.isFulfilled = true ∧
      (e.exchange method request n).2.history = n.history ++ (hops ++ [last]) := by
  cases hcompose : compose e.root e.credentials e.settings n.takeFresh.1 method request with
  | error error =>
    rw [exchange_of_refused hcompose] at h
    cases h
  | ok first =>
    obtain ⟨⟨outcome, n'⟩, hsend⟩ : ∃ s, send first n.takeFresh.2 = s := ⟨_, rfl⟩
    rw [exchange_of_composed hcompose, hsend] at h ⊢
    cases outcome with
    | error error => cases h
    | ok reply =>
      obtain ⟨hops, last, hleads, hhistory⟩ := exists_leads_of_send hsend
      exact ⟨n.takeFresh.1, first, hops, ⟨last, .reply reply⟩, hcompose, hleads,
        isSuccess_of_result h, hhistory⟩

/-- An endpoint at a host by the name `region`. -/
def Endpoint.region : Endpoint where
  root :=
    { scheme := "http"
      authority := some { host := some (.domain "region") }
      path := .segments ["MAAS", "api", "2.0", ""] }
  credentials := ⟨"consumer", "token", "secret"⟩
  settings := {}

/-- The endpoint at the host `region` is made of its base URL and its key. -/
theorem Endpoint.make_region :
    Endpoint.make {} "http://region/MAAS/" "consumer:token:secret" .twoDotOh = .ok region := by
  rw [make_eq_ok_iff]
  refine ⟨rfl, ?_, rfl⟩
  exact ok_of_toOption (by decide +kernel)

/-- A network in which a server at the host `region` gives these answers. -/
def Network.region (answers : List Answer) : Network where
  listener := some ⟨"http", .domain "region", 80⟩
  answers := answers
  fresh := fun _ ↦ ⟨⟨"nonce", "0"⟩, "boundary"⟩

/-- Every exchange with the endpoint at the host `region` reaches the server there. -/
theorem Endpoint.exists_begins_region (method : Method) (request : Request)
    (answers : List Answer) : ∃ r, Endpoint.region.Begins method request (.region answers) r :=
  exists_begins ⟨⟨_, rfl⟩, rfl, by decide⟩ rfl method request

end Http

end RegionClient
