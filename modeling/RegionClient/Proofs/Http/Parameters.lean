import RegionClient.Proofs.Http.ApiRoot
import RegionClient.Proofs.Request.Params
import RegionClient.Proofs.Session.Journal

/-!
# Parameters on the wire

What a server reads from the first request of an exchange: the pairs that the query of its target
spells, and those that its body spells. Main statement: these are the pairs of the query of the
root, the parameters of the request and its operation, and nothing else (`tellsParams_of_begins`).
-/

namespace RegionClient

open Text Http

/-- The query of a URL, which is empty if there is none. -/
def Url.queryText (url : Url) : List Char := (url.query.getD "").toList

/-- The query of a request: what stands behind the first question mark of its target. -/
def Http.WireRequest.queryText (r : WireRequest) : List Char :=
  (splitFirst '?' r.target.toList).2.getD []

/-- A wire request tells the parameters of a request: a GET in the query, with the operation behind
them; a POST in the body, with the operation in the query; a DELETE tells none. All are behind what
the query of the root tells. -/
def Http.WireRequest.TellsParams (r : WireRequest) (root : Url) (request : Request) :
    Method → Prop
  | .get => Form.decode r.queryText = Form.decode root.queryText ++
      (request.params.toList ++ request.op.toList.map ("op", ·))
  | .post =>
    Form.decode r.queryText = Form.decode root.queryText ++ request.op.toList.map ("op", ·) ∧
      r.payload.bytes = Utf8.ofString request.params.encode ∧
      Params.decode (Utf8.toStringReplacing r.payload.bytes) = request.params
  | .delete => r.queryText = root.queryText ∧ r.payload.bytes = []

/-! ## Queries -/

namespace Url

private theorem queryText_of_isEmpty (url : Url) (cs : List Char) :
    queryText { url with query := if cs.isEmpty then none else some (String.ofList cs) } = cs := by
  cases cs <;> simp [queryText]

private theorem decode_queryText_appendQuery (url : Url) (pairs : List (String × String)) :
    Form.decode (url.appendQuery pairs).queryText = Form.decode url.queryText ++ pairs := by
  unfold appendQuery
  rw [queryText_of_isEmpty, queryText]
  cases url.query with
  | none =>
    cases pairs with
    | nil => rfl
    | cons pair pairs => exact Form.decode_encode (pair :: pairs)
  | some query =>
    cases pairs with
    | nil => exact (List.append_nil _).symm
    | cons pair pairs =>
      dsimp only
      split
      · next hempty =>
        rw [String.isEmpty_iff.mp hempty]
        exact Form.decode_encode (pair :: pairs)
      · rw [Form.decode_append, Form.decode_encode, Option.getD_some]

end Url

private theorem Request.opPairs_eq (request : Request) :
    request.opPairs = request.op.toList.map ("op", ·) := by
  unfold opPairs
  cases request.op <;> rfl

namespace Http

private theorem queryText_takeUser (url : Url) : (takeUser url).2.queryText = url.queryText := by
  rcases takeUser_snd url with h | h <;> rw [h]
  rfl

private theorem decode_queryText_sentTo {method : Method} {request : Request}
    {pairs : List (String × String)} (h : addedPairs? method request = some pairs) (url : Url) :
    Form.decode (sentTo method request url).queryText = Form.decode url.queryText ++ pairs := by
  rw [sentTo, h, Url.decode_queryText_appendQuery, queryText_takeUser]

private theorem queryText_sentTo {method : Method} {request : Request}
    (h : addedPairs? method request = none) (url : Url) :
    (sentTo method request url).queryText = url.queryText := by
  rw [sentTo, h, queryText_takeUser]

private theorem WireRequest.queryText_eq {r : WireRequest} {segments : List String}
    (hpath : r.url.path = .segments segments) (hmark : Url.Avoids '?' segments) :
    r.queryText = r.url.queryText := by
  have hpath : '?' ∉ r.url.path.print := by
    rw [hpath]
    exact notMem_print hmark (by decide)
  rw [queryText, WireRequest.target, toList_target, Url.queryText]
  cases r.url.query with
  | none =>
    rw [Url.printAfter, List.append_nil, splitFirst_of_notMem hpath]
    rfl
  | some query =>
    rw [Url.printAfter, splitFirst_append_cons hpath]
    rfl

private theorem avoids_mark_of_locate {root url : Url} {segments : List String} {path : String}
    (hsegments : root.path = .segments segments) (hmark : Url.Avoids '?' segments)
    (hfile : root.scheme ≠ "file") (h : locate root path = .ok url) :
    ∃ segments, url.path = .segments segments ∧ Url.Avoids '?' segments := by
  rw [locate_segments hsegments (beq_false_of_ne hfile)] at h
  rw [← Except.ok.inj h]
  exact ⟨_, rfl, hmark.dropEmptyLast.foldl_appendSegment (.inr rfl) _ _⟩

/-- The query of a request that is composed is that of its URL. -/
theorem queryText_of_compose {text : String} {root : Url} (hparse : Url.parse text = .ok root)
    {credentials : Credentials} {settings : ClientSettings} {fresh : Fresh} {method : Method}
    {request : Request} {r : WireRequest}
    (h : compose root credentials settings fresh method request = .ok r) :
    r.queryText = r.url.queryText := by
  have hsendable : isSendable root = true :=
    ((exists_compose_iff root credentials settings fresh method request).mp ⟨r, h⟩).sendable
  obtain ⟨hspecial, hfile⟩ := isSpecial_of_isSendable hsendable
  obtain ⟨segments, hsegments, -, hmark⟩ := Url.exists_segments_of_parse hparse hspecial hfile
  obtain ⟨url, hlocate, -, -, hurl⟩ := of_compose h
  obtain ⟨path, hpath, havoids⟩ := avoids_mark_of_locate hsegments hmark hfile hlocate
  refine WireRequest.queryText_eq ?_ havoids
  rw [hurl, path_sentTo, hpath]

/-! ## Requests -/

/-- A request without a file that is composed below the root of a version tells its parameters. -/
theorem tellsParams_of_compose {text : String} {root : Url} (hparse : Url.parse text = .ok root)
    {credentials : Credentials} {settings : ClientSettings} {fresh : Fresh} {method : Method}
    {request : Request} (hfile : request.file = none) {r : WireRequest}
    (h : compose root credentials settings fresh method request = .ok r) :
    r.TellsParams root request method := by
  have htext : r.queryText = r.url.queryText := queryText_of_compose hparse h
  obtain ⟨url, hlocate, -, hpayload, hurl⟩ := of_compose h
  have hroot : url.queryText = root.queryText := by
    rw [(locate_eq_ok hlocate).2]
    rfl
  rw [hurl] at htext
  cases method with
  | get =>
    show Form.decode r.queryText = _
    rw [htext, decode_queryText_sentTo rfl, hroot, Request.queryPairs, Request.opPairs_eq]
  | post =>
    have hbytes : r.payload.bytes = Utf8.ofString request.params.encode := by
      rw [hpayload]
      unfold payload
      rw [hfile]
      rfl
    refine ⟨?_, hbytes, ?_⟩
    · rw [htext, ← Request.opPairs_eq]
      cases hop : request.op with
      | none =>
        have hpairs : addedPairs? .post request = none := by rw [addedPairs?, hop]; rfl
        rw [queryText_sentTo hpairs, hroot, Request.opPairs, hop, List.append_nil]
      | some op =>
        have hpairs : addedPairs? .post request = some request.opPairs := by
          rw [addedPairs?, hop]
          rfl
        rw [decode_queryText_sentTo hpairs, hroot]
    · rw [hbytes, Utf8.toStringReplacing_ofString, Params.decode_encode]
  | delete =>
    refine ⟨?_, ?_⟩
    · rw [htext, queryText_sentTo rfl, hroot]
    · rw [hpayload]
      rfl

/-- The first request of a call that reaches the server tells the parameters that were asked for,
and a POST has the body that is logged when the call begins. -/
theorem tellsParams_of_begins {settings : ClientSettings} {baseUrl apiKey : String}
    {version : Version} {e : Endpoint}
    (hmake : Endpoint.make settings baseUrl apiKey version = .ok e) {s : Session Network}
    (hchannel : s.channel = e.exchange) {method : Method} {request : Request}
    (hfile : request.file = none) {run : Run Network} {r : WireRequest} {answer : Answer}
    {rest : List Served}
    (hbegins : (s.call method request run).2.world.history =
      run.world.history ++ ⟨r, answer⟩ :: rest) :
    r.TellsParams e.root request method ∧
      ∃ begun ended, (s.call method request run).2.log = run.log ++ [begun, ended] ∧
        (method = .post → ∃ text, begun.fields.lookup "params" = some text ∧
          r.payload.bytes = Utf8.ofString text) := by
  rw [s.call_apply] at hbegins ⊢
  dsimp only at hbegins ⊢
  rw [s.world_afterCall, hchannel] at hbegins
  have hfirst : e.Begins method request run.world r := ⟨answer, rest, hbegins⟩
  have hroot := apiRoot_eq_ok_iff.mp (Endpoint.make_eq_ok_iff.mp hmake).2.1
  have htells := tellsParams_of_compose hroot hfile hfirst.compose_eq
  refine ⟨htells, .started method (run.issued + 1) s.baseUrl request,
    .ended method (run.issued + 1) (s.channel method request run.world).1,
    s.log_afterCall method request run, ?_⟩
  rintro rfl
  exact ⟨request.params.encode, rfl, htells.2.1⟩

/-- Separators, repeated names and empty pairs arrive in the body of a POST. -/
theorem tellsParams_region :
    let s : Session Network := ⟨Endpoint.region.exchange, "http://region/MAAS/", .twoDotOh, .empty⟩
    let request : Request :=
      { path := "machines/", op := some "a b", params := ⟨[("k&", "é=+%"), ("", ""), ("k&", "")]⟩ }
    let run : Run Network := { world := .region [] }
    ∃ r answer rest, Endpoint.make {} "http://region/MAAS/" "consumer:token:secret" .twoDotOh =
        .ok Endpoint.region ∧
      (s.call .post request run).2.world.history = run.world.history ++ ⟨r, answer⟩ :: rest ∧
      Form.decode r.queryText = [("op", "a b")] ∧
      Params.decode (Utf8.toStringReplacing r.payload.bytes) = request.params := by
  intro s request run
  obtain ⟨r, answer, rest, hfirst⟩ : ∃ r, Endpoint.region.Begins .post request run.world r :=
    Endpoint.exists_begins_region .post request []
  have hbegins : (s.call .post request run).2.world.history =
      run.world.history ++ ⟨r, answer⟩ :: rest := by
    rw [s.call_apply]
    exact hfirst
  have hfile : request.file = none := rfl
  obtain ⟨⟨hquery, -, hbody⟩, -⟩ :=
    tellsParams_of_begins Endpoint.make_region (rfl : s.channel = _) hfile hbegins
  exact ⟨r, answer, rest, Endpoint.make_region, hbegins, hquery, hbody⟩

end Http

end RegionClient
