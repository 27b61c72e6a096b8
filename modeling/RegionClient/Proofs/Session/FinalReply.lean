import RegionClient.Proofs.Failure.Translation
import RegionClient.Proofs.Resource.Acknowledgement

/-!
# What final replies come to

The reply that ends an exchange, and what the caller is told of it. A reply is final if it does not
send its request elsewhere. Main statement: a final reply that fulfils brings the body, if that is
delivered; any other final reply is told by its status, however its body fares; and without a final
reply no status is told (`call_tells`).
-/

namespace RegionClient

namespace Http

/-! ## Final replies -/

/-- The reply to a request, unless it sends the request elsewhere. -/
def Served.final? (served : Served) : Option Reply :=
  match served.answer with
  | .reply reply => if (served.request.redirected? reply).isNone then some reply else none
  | .dropped | .stalled => none

/-- The final reply to requests that were served one after the other, which is one to the last. -/
def finalReply? (list : List Served) : Option Reply := list.getLast?.bind Served.final?

/-- The final reply of an exchange, which is found in what it adds to the history. -/
def Endpoint.finalReply? (e : Endpoint) (method : Method) (request : Request) (n : Network) :
    Option Reply :=
  Http.finalReply? ((e.exchange method request n).2.history.drop n.history.length)

private theorem Served.final?_of_redirected? {r next : WireRequest} {reply : Reply}
    (h : r.redirected? reply = some next) : final? ⟨r, .reply reply⟩ = none := by
  simp [final?, h]

private theorem finalReply?_cons {served : Served} (h : served.final? = none) (list : List Served) :
    finalReply? (served :: list) = finalReply? list := by
  cases list with
  | nil => exact h
  | cons _ _ => rfl

/-- What comes of sending, by the requests that were served: the final reply, or a failure that
tells no status. -/
inductive Settles (list : List Served) : Except TransportError Reply → Prop
  | kept {reply : Reply} (h : finalReply? list = some reply) : Settles list (.ok reply)
  | failed {error : TransportError} (h : finalReply? list = none) (hstatus : error.status? = none) :
      Settles list (.error error)

private theorem Settles.cons {served : Served} {list : List Served}
    {outcome : Except TransportError Reply} (h : Settles list outcome)
    (hserved : served.final? = none) :
    Settles (served :: list) outcome := by
  cases h with
  | kept h => exact .kept ((finalReply?_cons hserved list).trans h)
  | failed h hstatus => exact .failed ((finalReply?_cons hserved list).trans h) hstatus

/-- Following redirects ends as the requests do that were served. -/
theorem settles_follow (first : Url) (left : Nat) (r : WireRequest) (n : Network) :
    ∃ list, (follow first left r n).2.history = n.history ++ list ∧
      Settles list (follow first left r n).1 := by
  fun_induction follow first left r n with
  | case1 left r n unsent n' hdeliver =>
    obtain ⟨-, rfl⟩ := of_deliver_none hdeliver
    exact ⟨[], (List.append_nil _).symm, .failed rfl rfl⟩
  | case2 left r n unsent n' hdeliver =>
    exact ⟨_, history_of_deliver hdeliver, .failed rfl rfl⟩
  | case3 left r n unsent n' hdeliver =>
    exact ⟨_, history_of_deliver hdeliver, .failed rfl rfl⟩
  | case4 left r n reply n' hdeliver hkept =>
    refine ⟨_, history_of_deliver hdeliver, .kept ?_⟩
    simp [finalReply?, Served.final?, hkept]
  | case5 r n reply n' hdeliver next hnext =>
    exact ⟨_, history_of_deliver hdeliver, .failed (Served.final?_of_redirected? hnext) rfl⟩
  | case6 r n reply n' hdeliver next hnext left hsendable ih =>
    -- What was served for the redirect stands behind the request that was redirected.
    obtain ⟨list, hhistory, hsettles⟩ := ih
    refine ⟨⟨r, .reply reply⟩ :: list, ?_, hsettles.cons (Served.final?_of_redirected? hnext)⟩
    rw [hhistory, history_of_deliver hdeliver, List.append_assoc, List.singleton_append]
  | case7 r n reply n' hdeliver next hnext left hunsendable =>
    exact ⟨_, history_of_deliver hdeliver, .failed (Served.final?_of_redirected? hnext) rfl⟩

private theorem status?_of_compose {root : Url} {credentials : Credentials}
    {settings : ClientSettings} {fresh : Fresh} {method : Method} {request : Request}
    {error : TransportError}
    (h : compose root credentials settings fresh method request = .error error) :
    error.status? = none := by
  rw [compose_eq] at h
  unfold locate at h
  split at h
  · dsimp only [Except.bind] at h
    split at h
    · cases h
      rfl
    · split at h
      · cases h
        rfl
      · cases h
  · cases h
    rfl

/-- An exchange comes to what its final reply is worth, or to a failure that tells no status. -/
theorem Endpoint.exchange_settles (e : Endpoint) (method : Method) (request : Request)
    (n : Network) :
    (∃ reply, e.finalReply? method request n = some reply ∧
      (e.exchange method request n).1 = reply.result e.settings.compression) ∨
    ∃ error, e.finalReply? method request n = none ∧
      (e.exchange method request n).1 = .error error ∧ error.status? = none := by
  unfold finalReply?
  cases hcompose : compose e.root e.credentials e.settings n.takeFresh.1 method request with
  | error error =>
    rw [exchange_of_refused hcompose]
    refine .inr ⟨error, ?_, rfl, status?_of_compose hcompose⟩
    show Http.finalReply? (n.history.drop n.history.length) = none
    rw [List.drop_length]
    rfl
  | ok r =>
    rw [exchange_of_composed hcompose]
    obtain ⟨list, hhistory, hsettles⟩ := settles_follow r.url redirectLimit r n.takeFresh.2
    have hserved : (send r n.takeFresh.2).2.history.drop n.history.length = list := by
      rw [send, hhistory]
      exact List.drop_left
    dsimp only
    rw [hserved, send]
    generalize (follow r.url redirectLimit r n.takeFresh.2).1 = outcome at hsettles
    cases hsettles with
    | kept h => exact .inl ⟨_, h, rfl⟩
    | failed h hstatus => exact .inr ⟨_, h, rfl, hstatus⟩

/-! ## Bodies -/

namespace Reply

variable {r : Reply} {compression : Bool}

/-- The body that is delivered, which is empty for a status without body; a body that is cut short
or stalls is lost. -/
def delivered? (r : Reply) : Option Bytes :=
  if r.isBodiless then some []
  else if r.delivery = .complete then some r.body
  else none

/-- A body that is delivered is read as it is, if it has no encoding. -/
theorem content_of_delivered? (hplain : r.header? "content-encoding" = none) {body : Bytes}
    (h : r.delivered? = some body) : r.content compression = .ok body := by
  have hcompressed : r.isCompressed = false := by
    rw [isCompressed, hplain]
    rfl
  unfold delivered? at h
  unfold content
  split at h
  · next hbodiless =>
    rw [if_pos hbodiless, ← Option.some.inj h]
  · next hbody =>
    split at h
    · next hcomplete =>
      rw [if_neg hbody, hcomplete, ← Option.some.inj h]
      simp [hcompressed]
    · cases h

/-- A body that is lost cannot be read. -/
theorem content_of_lost (compression : Bool) (h : r.delivered? = none) :
    ∃ error, r.content compression = .error error := by
  unfold delivered? at h
  unfold content
  split at h
  · cases h
  · next hbody =>
    rw [if_neg hbody]
    cases hdelivery : r.delivery with
    | complete =>
      rw [if_pos hdelivery] at h
      cases h
    | cutShort => exact ⟨_, rfl⟩
    | stalled => exact ⟨_, rfl⟩

private theorem status?_of_content {error : TransportError}
    (h : r.content compression = .error error) :
    error.status? = none := by
  unfold content at h
  split at h
  · cases h
  split at h
  · cases h
    rfl
  · cases h
    rfl
  split at h
  · split at h <;> cases h
    rfl
  · cases h

/-- A reply that fulfils is worth its body. -/
theorem result_of_success (h : r.status.isSuccess = true) :
    r.result compression = r.content compression := if_pos h

/-- Any other reply is worth its status, and the text of its body if that can be read. -/
theorem result_of_refusal (compression : Bool) (h : r.status.isSuccess = false) :
    ∃ text, r.result compression = .error (.server r.status text) ∧
      (r.header? "content-encoding" = none →
        text = (r.delivered?.map r.text).getD "Unknown error") := by
  unfold result
  rw [h]
  cases hdelivered : r.delivered? with
  | none =>
    obtain ⟨error, hlost⟩ := content_of_lost compression hdelivered
    rw [hlost]
    exact ⟨_, rfl, fun _ ↦ rfl⟩
  | some body =>
    cases hcontent : r.content compression with
    | error error =>
      refine ⟨_, rfl, fun hplain ↦ ?_⟩
      cases hcontent.symm.trans (content_of_delivered? hplain hdelivered)
    | ok content =>
      refine ⟨_, rfl, fun hplain ↦ ?_⟩
      rw [Except.ok.inj (hcontent.symm.trans (content_of_delivered? hplain hdelivered))]
      rfl

end Reply

end Http

/-! ## Calls -/

variable (method : Method) (request : Request)

/-- The failed call whose exchange failed. -/
def failedCall (error : TransportError) : CallError :=
  .ofRequest method request (.transport error)

open Http

/-- What a caller is told of a final reply: the body of one that fulfils, if it is delivered, and
the status of any other, with its text if the body is delivered, which is what the classes of
operations go by. -/
structure TellsReply (reply : Reply) (outcome : Except CallError Bytes) : Prop where
  brought : reply.status.isSuccess = true → reply.header? "content-encoding" = none →
    ∀ body, reply.delivered? = some body → outcome = .ok body
  lost : reply.status.isSuccess = true → reply.delivered? = none →
    ∃ error, outcome = .error (failedCall method request error) ∧ error.status? = none
  refused : reply.status.isSuccess = false →
    ∃ text, outcome = .error (failedCall method request (.server reply.status text)) ∧
      (reply.header? "content-encoding" = none →
        text = (reply.delivered?.map reply.text).getD "Unknown error") ∧
      ∀ c : OperationClass,
        (c.translate (failedCall method request (.server reply.status text))).kind =
          (c.rules.lookup reply.status).getD .unexpected

/-- What a caller is told without a final reply: a failure without a status, which is unexpected to
all classes of operations. -/
def TellsNoReply (outcome : Except CallError Bytes) : Prop :=
  ∃ error, outcome = .error (failedCall method request error) ∧ error.status? = none ∧
    ∀ c : OperationClass, c.translate (failedCall method request error) =
      .unexpected (failedCall method request error).describe
        (some (failedCall method request error))

private theorem tellsReply_result (reply : Reply) (compression : Bool) :
    TellsReply method request reply
      (Session.bytesOf method request (reply.result compression)) where
  brought := by
    intro hsuccess hplain body hdelivered
    rw [Reply.result_of_success hsuccess, Reply.content_of_delivered? hplain hdelivered]
    rfl
  lost := by
    intro hsuccess hlost
    obtain ⟨error, hcontent⟩ := Reply.content_of_lost compression hlost
    rw [Reply.result_of_success hsuccess, hcontent]
    exact ⟨error, rfl, Reply.status?_of_content hcontent⟩
  refused := by
    intro hrefused
    obtain ⟨text, hresult, htext⟩ := Reply.result_of_refusal compression hrefused
    rw [hresult]
    exact ⟨text, rfl, htext, fun c ↦ c.kind_translate_of_status? rfl⟩

private theorem tells_exchange (e : Endpoint) (n : Network) :
    (∃ reply, e.finalReply? method request n = some reply ∧
      TellsReply method request reply
        (Session.bytesOf method request (e.exchange method request n).1)) ∨
    (e.finalReply? method request n = none ∧
      TellsNoReply method request
        (Session.bytesOf method request (e.exchange method request n).1)) := by
  obtain ⟨reply, hfinal, hresult⟩ | ⟨error, hnone, herror, hstatus⟩ :=
    e.exchange_settles method request n
  · refine .inl ⟨reply, hfinal, ?_⟩
    rw [hresult]
    exact tellsReply_result method request reply e.settings.compression
  · refine .inr ⟨hnone, error, ?_, hstatus, fun c ↦ c.translate_of_status?_none hstatus⟩
    rw [herror]
    rfl

/-- A call tells of its final reply: the body of one that fulfils, of which nothing is left when
something is deleted, and the status of any other, by which the failure is translated. A call
without a final reply tells of none. -/
theorem call_tells (e : Endpoint) (baseUrl : String) (version : Version)
    (capabilities : Capabilities) (run : Run Network) :
    let s := e.session baseUrl version capabilities
    (∀ reply, e.finalReply? method request run.world = some reply →
      TellsReply method request reply (s.call method request run).1) ∧
    (∀ path reply body, e.finalReply? .delete (.ofPath path) run.world = some reply →
      reply.status.isSuccess = true → reply.header? "content-encoding" = none →
      reply.delivered? = some body → (s.delete path run).1 = .ok ()) ∧
    (e.finalReply? method request run.world = none →
      TellsNoReply method request (s.call method request run).1) := by
  intro s
  have htells : ∀ (method : Method) (request : Request) (reply : Reply),
      e.finalReply? method request run.world = some reply →
      TellsReply method request reply (s.call method request run).1 := by
    intro method request reply hfinal
    rw [Session.call_apply]
    obtain ⟨reply', hfinal', hreply⟩ | ⟨hnone, -⟩ := tells_exchange method request e run.world
    · obtain rfl := Option.some.inj (hfinal'.symm.trans hfinal)
      exact hreply
    · cases hnone.symm.trans hfinal
  refine ⟨htells method request, fun path reply body hfinal hsuccess hplain hdelivered ↦ ?_,
    fun hnone ↦ ?_⟩
  · have hbrought := (htells _ _ reply hfinal).brought hsuccess hplain body hdelivered
    rw [Session.delete, Action.bind_apply, hbrought]
    rfl
  · rw [Session.call_apply]
    obtain ⟨reply, hfinal, -⟩ | ⟨-, htellsNone⟩ := tells_exchange method request e run.world
    · cases hnone.symm.trans hfinal
    · exact htellsNone

/-- A refusal is told by its status, though its body is cut short. -/
theorem call_tells_cutShort :
    let reply : Reply :=
      { status := ⟨503⟩, body := Text.Utf8.ofString "busy", delivery := .cutShort }
    let run : Run Network := { world := .region [.reply reply] }
    let s := Endpoint.region.session "http://region/MAAS/" .twoDotOh .empty
    Endpoint.region.finalReply? .get (.ofPath "machines") run.world = some reply ∧
      (s.call .get (.ofPath "machines") run).1 =
        .error (failedCall .get (.ofPath "machines") (.server ⟨503⟩ "Unknown error")) := by
  intro reply run s
  have hfinal : Endpoint.region.finalReply? .get (.ofPath "machines") run.world = some reply := by
    decide +kernel
  obtain ⟨htells, -⟩ := call_tells .get (.ofPath "machines") Endpoint.region "http://region/MAAS/"
    .twoDotOh .empty run
  obtain ⟨text, houtcome, htext, -⟩ := (htells reply hfinal).refused rfl
  obtain rfl : text = "Unknown error" := htext rfl
  exact ⟨hfinal, houtcome⟩

end RegionClient
