import RegionClient.Proofs.Http.Exchange
import RegionClient.Proofs.Session.Secrecy
import RegionClient.Proofs.Text.Split

/-!
# What the wire shows of secrets

Two networks that cannot be told apart by those who see neither the authorizations made from keys
nor the content of files. What a network does commutes with leaving these out (`follow_masked`), so
that exchanges with two keys look the same (`channelsAlike_exchange`). Main statement: conversations
over such networks, with keys of as many parts and steps that differ in content from memory only,
bring the same results, log the same, and send the same but for authorizations and contents
(`converse_keepsSecrets`).
-/

namespace RegionClient.Http

/-! ## What is left out -/

/-- A header without an authorization made from a key. -/
def maskedHeader (header : String × String) : String × String :=
  if header.1 = "authorization" ∧ "OAuth ".toList <+: header.2.toList then
    ("authorization", "OAuth ")
  else header

/-- A body without the content of its file. -/
def Payload.masked : Payload → Payload
  | multipart boundary params file => multipart boundary params file.masked
  | payload => payload

/-- A wire request without the authorization made from a key and without the content of a file. -/
def WireRequest.masked (r : WireRequest) : WireRequest :=
  { r with headers := r.headers.map maskedHeader, payload := r.payload.masked }

/-- A request that reached the server, masked, and what became of it. -/
def Served.masked (served : Served) : Served := { served with request := served.request.masked }

/-- A network that stamps no authorization, and whose history is masked. -/
def Network.masked (n : Network) : Network :=
  { n with
    fresh := fun k ↦ { n.fresh k with stamp := ⟨"", ""⟩ }
    history := n.history.map Served.masked }

/-- Two networks look the same: they listen and answer alike and draw the same boundaries, and the
requests that reached them differ in authorizations made from keys and in contents only. -/
def Network.Alike (n n' : Network) : Prop := n.masked = n'.masked

/-! ## Sending -/

private theorem isSpent_masked (payload : Payload) : payload.masked.isSpent = payload.isSpent := by
  cases payload <;> rfl

private theorem relocated?_masked (r : WireRequest) (reply : Reply) (asked : WireRequest) :
    r.masked.relocated? reply asked.masked =
      (r.relocated? reply asked).map WireRequest.masked := by
  have hurl : r.masked.url = r.url := rfl
  have hspent : asked.masked.payload.isSpent = asked.payload.isSpent := isSpent_masked _
  unfold WireRequest.relocated?
  rw [hurl, hspent]
  cases asked.payload.isSpent with
  | true => rfl
  | false =>
    cases reply.header? "location" with
    | none => rfl
    | some location =>
      simp only [Bool.false_eq_true, if_false, Option.bind_some]
      cases r.url.resolve location <;> rfl

private theorem redirected?_masked (r : WireRequest) (reply : Reply) :
    r.masked.redirected? reply = (r.redirected? reply).map WireRequest.masked := by
  have hasked : ∀ kept : Bool, (if kept then r.masked else r.masked.asGet) =
      WireRequest.masked (if kept then r else r.asGet) := by
    intro kept
    cases kept <;> rfl
  rw [WireRequest.redirected?_eq, WireRequest.redirected?_eq]
  split
  · exact (congrArg _ (hasked _)).trans (relocated?_masked r reply _)
  · rfl

/-- Delivering commutes with leaving out. -/
theorem deliver_masked (n : Network) (r : WireRequest) :
    n.masked.deliver r.masked = ((n.deliver r).1, (n.deliver r).2.masked) := by
  have hreaches : n.masked.reaches r.masked.url = n.reaches r.url := rfl
  unfold Network.deliver
  rw [hreaches]
  cases n.reaches r.url with
  | false => rfl
  | true =>
    refine Prod.ext rfl ?_
    simp [Network.masked, Network.nextAnswer, Served.masked]

/-- Following redirects commutes with leaving out. -/
theorem follow_masked (first : Url) (left : Nat) (r : WireRequest) (n : Network) :
    follow first left r.masked n.masked =
      ((follow first left r n).1, (follow first left r n).2.masked) := by
  -- Both sides take the same branch: the answer and the URL are not left out.
  fun_induction follow first left r n with
  | case1 left r n unsent n' hdeliver => rw [follow, deliver_masked, hdeliver]
  | case2 left r n unsent n' hdeliver => rw [follow, deliver_masked, hdeliver]
  | case3 left r n unsent n' hdeliver => rw [follow, deliver_masked, hdeliver]
  | case4 left r n reply n' hdeliver hkept =>
    rw [follow, deliver_masked, hdeliver]
    dsimp only
    rw [redirected?_masked, hkept, Option.map_none]
  | case5 r n reply n' hdeliver next hnext =>
    rw [follow, deliver_masked, hdeliver]
    dsimp only
    rw [redirected?_masked, hnext, Option.map_some]
    rfl
  | case6 r n reply n' hdeliver next hnext left hsendable ih =>
    rw [follow, deliver_masked, hdeliver]
    dsimp only
    rw [redirected?_masked, hnext, Option.map_some]
    have hsendable' : isSendable next.masked.url = true := hsendable
    dsimp only
    rw [if_pos hsendable', ih]
  | case7 r n reply n' hdeliver next hnext left hunsendable =>
    rw [follow, deliver_masked, hdeliver]
    dsimp only
    rw [redirected?_masked, hnext, Option.map_some]
    have hunsendable' : ¬ isSendable next.masked.url = true := hunsendable
    dsimp only
    rw [if_neg hunsendable']
    rfl

/-! ## Composing -/

private theorem Network.Alike.takeFresh {n n' : Network} (h : n.Alike n') :
    n.takeFresh.1.boundary = n'.takeFresh.1.boundary ∧ n.takeFresh.2.Alike n'.takeFresh.2 := by
  obtain ⟨hlistener, hanswers, hfresh, hused, hhistory⟩ := Network.mk.inj h
  refine ⟨?_, ?_⟩
  · have hdrawn := congrArg Fresh.boundary (congr hfresh hused)
    exact hdrawn
  · unfold Network.Alike Network.masked Network.takeFresh
    simp only [hlistener, hanswers, hfresh, hused, hhistory]

private theorem maskedHeader_authorization (credentials : Credentials) (stamp : Stamp) :
    maskedHeader ("authorization", credentials.authorization stamp) =
      ("authorization", "OAuth ") := by
  have hauthorization : (credentials.authorization stamp).toList =
      "OAuth ".toList ++ [',', ' '].intercalate ((credentials.fields stamp).map
        Credentials.printField) := String.toList_ofList
  refine if_pos ⟨rfl, ?_⟩
  rw [hauthorization]
  exact List.prefix_append _ _

private theorem contentType_masked (payload : Payload) :
    payload.masked.contentType = payload.contentType := by
  cases payload <;> rfl

private theorem map_maskedHeader_headers (settings : ClientSettings)
    (user : Option (String × Option String)) (credentials credentials' : Credentials)
    (stamp stamp' : Stamp) (payload payload' : Payload) (h : payload.masked = payload'.masked) :
    (headers settings user (credentials.authorization stamp) payload).map maskedHeader =
      (headers settings user (credentials'.authorization stamp') payload').map maskedHeader := by
  have htype : payload.contentType = payload'.contentType := by
    rw [← contentType_masked payload, h, contentType_masked]
  unfold headers
  simp only [List.map_append, List.map_cons, maskedHeader_authorization, htype]

private theorem payload_masked {request request' : Request} (h : request.masked = request'.masked)
    {fresh fresh' : Fresh} (hboundary : fresh.boundary = fresh'.boundary) (method : Method) :
    (payload fresh method request).masked = (payload fresh' method request').masked := by
  obtain ⟨path, op, params, file⟩ := request
  obtain ⟨path', op', params', file'⟩ := request'
  obtain ⟨rfl, rfl, rfl, hfile⟩ := Request.mk.inj h
  cases file with
  | none =>
    obtain rfl : file' = none := Option.map_eq_none_iff.mp hfile.symm
    cases method <;> rfl
  | some file =>
    cases file' with
    | none => cases hfile
    | some file' =>
      cases method with
      | post =>
        show Payload.multipart fresh.boundary params file.masked =
          Payload.multipart fresh'.boundary params file'.masked
        rw [hboundary, Option.some.inj hfile]
      | _ => rfl

/-- Requests that differ in the content of a file only are composed alike. -/
theorem map_masked_compose {request request' : Request} (h : request.masked = request'.masked)
    {fresh fresh' : Fresh} (hboundary : fresh.boundary = fresh'.boundary) (root : Url)
    (settings : ClientSettings) (credentials credentials' : Credentials) (method : Method) :
    (compose root credentials settings fresh method request).map WireRequest.masked =
      (compose root credentials' settings fresh' method request').map WireRequest.masked := by
  have hpayload := payload_masked h hboundary method
  obtain ⟨hpath, hop, hparams, -⟩ := Request.eq_of_masked h
  have hsent : ∀ url, sentTo method request url = sentTo method request' url := by
    intro url
    simp only [sentTo, addedPairs?, Request.queryPairs, Request.opPairs, hop, hparams]
  rw [compose_eq, compose_eq, hpath]
  cases locate root request'.path with
  | error e => rfl
  | ok url =>
    simp only [Except.bind, hsent]
    split
    · rfl
    · split
      · rfl
      · simp only [Except.map, WireRequest.masked, hpayload,
          map_maskedHeader_headers settings _ credentials credentials' fresh.stamp fresh'.stamp _ _
            hpayload]

/-! ## Exchanging -/

private theorem send_of_masked {r r' : WireRequest} (h : r.masked = r'.masked) {n n' : Network}
    (hn : n.Alike n') :
    (send r n).1 = (send r' n').1 ∧ (send r n).2.Alike (send r' n').2 := by
  have hurl : r.url = r'.url := (WireRequest.mk.inj h).2.1
  have hsend := follow_masked r.url redirectLimit r n
  rw [h, hn, hurl, follow_masked r'.url redirectLimit r' n'] at hsend
  obtain ⟨hreply, hnetwork⟩ := Prod.mk.inj hsend
  refine ⟨?_, ?_⟩
  · rw [send, send, hreply, hurl]
  · unfold Network.Alike send
    rw [hnetwork, hurl]

/-- Exchanges below the same root look the same, whatever the key. -/
theorem channelsAlike_exchange {e e' : Endpoint} (hroot : e.root = e'.root)
    (hsettings : e.settings = e'.settings) :
    ChannelsAlike Network.Alike e.exchange e'.exchange := by
  intro method request request' n n' hrequest hn
  obtain ⟨hboundary, hfresh⟩ := hn.takeFresh
  have hcompose := map_masked_compose hrequest hboundary e.root e.settings e.credentials
    e'.credentials method
  rcases results_of_map_eq hcompose with
    ⟨error, hfirst, hfirst'⟩ | ⟨r, r', hfirst, hfirst', hmasked⟩
  · rw [hroot, hsettings] at hfirst'
    rw [exchange_of_refused hfirst, exchange_of_refused hfirst']
    exact ⟨rfl, hfresh⟩
  · rw [hroot, hsettings] at hfirst'
    obtain ⟨hreply, hnetwork⟩ := send_of_masked hmasked hfresh
    rw [exchange_of_composed hfirst, exchange_of_composed hfirst', hreply, hsettings]
    exact ⟨rfl, hnetwork⟩

/-! ## Keys -/

/-- The number of parts of a key. -/
def partCount (apiKey : String) : Nat := (Text.splitOn ':' apiKey.toList).length

private theorem parse_alike {apiKey apiKey' : String} (h : partCount apiKey = partCount apiKey') :
    ResultsAlike (fun _ _ ↦ True) (Credentials.parse apiKey) (Credentials.parse apiKey') := by
  unfold partCount at h
  unfold Credentials.parse
  generalize Text.splitOn ':' apiKey.toList = parts at h ⊢
  generalize Text.splitOn ':' apiKey'.toList = parts' at h ⊢
  split
  · obtain ⟨consumer', token', secret', rfl⟩ := List.length_eq_three.mp h.symm
    exact .ok trivial
  · next hparts =>
    split
    · obtain ⟨consumer, token, secret, rfl⟩ := List.length_eq_three.mp h
      exact absurd rfl (hparts consumer token secret)
    · rw [h]
      exact .error _

private theorem make_alike (settings : ClientSettings) {apiKey apiKey' : String}
    (h : partCount apiKey = partCount apiKey') (baseUrl : String) (version : Version) :
    ResultsAlike (fun e e' ↦ e.root = e'.root ∧ e.settings = e'.settings)
      (Endpoint.make settings baseUrl apiKey version)
      (Endpoint.make settings baseUrl apiKey' version) := by
  have hparse := parse_alike h
  unfold Endpoint.make
  generalize Credentials.parse apiKey = parsed at hparse ⊢
  generalize Credentials.parse apiKey' = parsed' at hparse ⊢
  cases hparse with
  | error e => exact .error e
  | ok _ =>
    cases apiRoot baseUrl version with
    | error e => exact .error e
    | ok root => exact .ok ⟨rfl, rfl⟩

/-- A connector over a network does not tell keys of as many parts apart. -/
theorem alike_connector (settings : ClientSettings) {apiKey apiKey' : String}
    (h : partCount apiKey = partCount apiKey') :
    (connector settings).Alike Network.Alike apiKey apiKey' := by
  intro baseUrl version n n' hn
  have hmake := make_alike settings h baseUrl version
  unfold connector
  generalize Endpoint.make settings baseUrl apiKey version = made at hmake ⊢
  generalize Endpoint.make settings baseUrl apiKey' version = made' at hmake ⊢
  cases hmake with
  | error e => exact ⟨.error e, rfl, hn⟩
  | ok hsame => exact ⟨.ok (channelsAlike_exchange hsame.1 hsame.2), rfl, hn⟩

/-! ## Conversations -/

/-- Conversations over networks that look the same, with keys of as many parts and steps that differ
in content from memory only, bring the same results and leave runs that look the same: they issued
as many requests, their logs show the same, and what reached the servers differs in authorizations
made from keys and in contents only. -/
theorem converse_keepsSecrets (settings : ClientSettings) (versions : List String)
    (baseUrl : String) {apiKey apiKey' : String} (hkey : partCount apiKey = partCount apiKey')
    {steps steps' : List Step} (hsteps : steps.map Step.masked = steps'.map Step.masked)
    {run run' : Run Network} (hrun : run.Alike Network.Alike run') :
    (converse (connector settings) versions ⟨baseUrl, apiKey⟩ steps run).1 =
        (converse (connector settings) versions ⟨baseUrl, apiKey'⟩ steps' run').1 ∧
      (converse (connector settings) versions ⟨baseUrl, apiKey⟩ steps run).2.Alike Network.Alike
        (converse (connector settings) versions ⟨baseUrl, apiKey'⟩ steps' run').2 :=
  converse_alike (alike_connector settings hkey) versions baseUrl hsteps run run' hrun

/-- Two uploads with two keys reach the server four times each, after a negotiation: what reached it
is not the same, and looks the same. -/
theorem converse_keepsSecrets_region :
    let answers : List Answer := [
      .reply { body := Text.Utf8.ofString "\x7b\x22capabilities\x22:[]\x7d" },
      .reply { body := Text.Utf8.ofString "\x7b\x7d" }, .reply {}, .reply { status := ⟨500⟩ }]
    let steps (content : Bytes) : List Step :=
      [.postFile "files" "add" .empty content,
        .addFile { filename := "f", content := some content }]
    let run : Run Network := { world := .region answers }
    let run' : Run Network := { world :=
      { Network.region answers with fresh := fun _ ↦ ⟨⟨"other", "1"⟩, "boundary"⟩ } }
    let end₁ := converse (connector {}) ["2.0"] ⟨"http://region/MAAS/", "consumer:token:secret"⟩
      (steps [1, 2]) run
    let end₂ := converse (connector {}) ["2.0"] ⟨"http://region/MAAS/", "a::&"⟩ (steps []) run'
    partCount "consumer:token:secret" = partCount "a::&" ∧
      (steps [1, 2]).map Step.masked = (steps []).map Step.masked ∧ run.Alike Network.Alike run' ∧
      end₁.1 = end₂.1 ∧ end₁.2.Alike Network.Alike end₂.2 ∧
      end₁.2.world.history.length = 4 ∧ end₁.2.world.history ≠ end₂.2.world.history := by
  intro answers steps run run' end₁ end₂
  have hkey : partCount "consumer:token:secret" = partCount "a::&" := by decide
  have hsteps : (steps [1, 2]).map Step.masked = (steps []).map Step.masked := rfl
  have hrun : run.Alike Network.Alike run' := ⟨rfl, rfl, rfl⟩
  obtain ⟨hresult, halike⟩ :=
    converse_keepsSecrets {} ["2.0"] "http://region/MAAS/" hkey hsteps hrun
  exact ⟨hkey, hsteps, hrun, hresult, halike, by decide +kernel, by decide +kernel⟩

end RegionClient.Http
