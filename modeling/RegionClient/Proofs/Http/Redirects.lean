import RegionClient.Http.Network

/-!
# Chains of redirects

Which wire requests a client sends until it has an answer to keep. `Leads` is the chain from the
first request over those that were answered by a redirect to the last. Main statements: an answer
that is kept ends such a chain, which is all that reached the server (`exists_leads_of_send`), the
last request is of the method of the first only if every redirect leaves the method as it is
(`Leads.method_eq_iff`), and whatever comes of a request, it is the first to reach the server
(`history_send`).
-/

namespace RegionClient

/-- Whether a redirect with this status leaves method and body as they are. -/
def Method.survives (method : Method) (status : Status) : Bool :=
  if method = .post then status.code == 307 || status.code == 308 else status.code != 303

namespace Http

/-- The status that a request was answered with, if it was. -/
def Served.status? (served : Served) : Option Status :=
  match served.answer with
  | .reply reply => some reply.status
  | .dropped | .stalled => none

/-- The server fulfilled the request. -/
def Served.isFulfilled (served : Served) : Bool := served.status?.any Status.isSuccess

/-- The answer leaves a method as it is. -/
def Served.keeps (method : Method) (served : Served) : Bool := served.status?.all method.survives

/-- A chain of redirects: a request, the requests that were answered by a redirect, and the request
that the last of these asks for. -/
inductive Leads : WireRequest → List Served → WireRequest → Prop
  | arrived {r : WireRequest} : Leads r [] r
  | redirected {r next last : WireRequest} {reply : Reply} {hops : List Served}
      (h : r.redirected? reply = some next) (hrest : Leads next hops last) :
      Leads r (⟨r, .reply reply⟩ :: hops) last

private theorem Served.keeps_reply (method : Method) (r : WireRequest) (reply : Reply) :
    Served.keeps method ⟨r, .reply reply⟩ = method.survives reply.status := by
  simp only [keeps, status?, Option.all_some]

/-! ## Single redirects -/

namespace WireRequest

variable {r next : WireRequest} {reply : Reply}

/-- The request without its body, as a GET. -/
def asGet (r : WireRequest) : WireRequest := { r with method := .get, payload := .empty }

/-- A request to the location of a reply, if the body can be sent again. -/
def relocated? (r : WireRequest) (reply : Reply) (asked : WireRequest) : Option WireRequest :=
  if asked.payload.isSpent then none
  else (reply.header? "location").bind fun location ↦
    match r.url.resolve location with
    | .ok url => some { asked with url := { url with fragment := none } }
    | .error _ => none

private theorem of_relocated? {asked : WireRequest} (h : r.relocated? reply asked = some next) :
    next.method = asked.method ∧ next.payload = asked.payload := by
  unfold relocated? at h
  split at h
  · cases h
  · obtain ⟨location, -, h⟩ := Option.bind_eq_some_iff.mp h
    split at h
    · rw [← Option.some.inj h]
      exact ⟨rfl, rfl⟩
    · cases h

/-- A redirect sends a request elsewhere: the same, or a GET without body. No other status asks for
anything. -/
theorem redirected?_eq (r : WireRequest) (reply : Reply) :
    r.redirected? reply =
      if reply.status.code ∈ [301, 302, 303, 307, 308] then
        r.relocated? reply (if r.method.survives reply.status then r else r.asGet)
      else none := by
  unfold redirected? Method.survives
  dsimp only
  by_cases hcode : reply.status.code ∈ [301, 302, 303, 307, 308]
  · rw [if_pos hcode]
    simp only [List.mem_cons, List.not_mem_nil, or_false] at hcode
    rcases hcode with hcode | hcode | hcode | hcode | hcode <;>
      by_cases hpost : r.method = .post <;> simp only [hcode, hpost] <;> rfl
  · rw [if_neg hcode]
    simp only [List.mem_cons, List.not_mem_nil, or_false, not_or] at hcode
    split
    all_goals first | rfl | omega

/-- A redirect sends a request elsewhere: the same, or a GET without body. -/
theorem of_redirected? (h : r.redirected? reply = some next) :
    300 ≤ reply.status.code ∧
      r.relocated? reply (if r.method.survives reply.status then r else r.asGet) = some next := by
  rw [redirected?_eq] at h
  split at h
  · next hcode =>
    simp only [List.mem_cons, List.not_mem_nil, or_false] at hcode
    exact ⟨by omega, h⟩
  · cases h

private theorem method_of_redirected? (h : r.redirected? reply = some next) :
    if r.method.survives reply.status then
      next.method = r.method ∧ next.payload = r.payload
    else next.method = .get := by
  obtain ⟨hmethod, hpayload⟩ := of_relocated? (of_redirected? h).2
  split
  · next hkept =>
    rw [if_pos hkept] at hmethod hpayload
    exact ⟨hmethod, hpayload⟩
  · next hlost =>
    rw [if_neg hlost] at hmethod
    exact hmethod

private theorem not_isFulfilled_of_redirected? (h : r.redirected? reply = some next) :
    Served.isFulfilled ⟨r, .reply reply⟩ = false := by
  have hcode : ¬ reply.status.code < 300 := by
    have := (of_redirected? h).1
    omega
  simp [Served.isFulfilled, Served.status?, Status.isSuccess, hcode]

end WireRequest

/-! ## Chains -/

namespace Leads

variable {r last : WireRequest} {hops : List Served}

/-- No request before the last is fulfilled. -/
theorem not_isFulfilled (h : Leads r hops last) : ∀ hop ∈ hops, hop.isFulfilled = false := by
  induction h with
  | arrived =>
    intro hop hmem
    cases hmem
  | redirected hnext _ ih =>
    intro hop hmem
    rcases List.mem_cons.mp hmem with rfl | hmem
    · exact WireRequest.not_isFulfilled_of_redirected? hnext
    · exact ih hop hmem

private theorem method_of_get (h : Leads r hops last) (hget : r.method = .get) :
    last.method = .get := by
  induction h with
  | arrived => exact hget
  | redirected hnext _ ih =>
    apply ih
    have hmethod := WireRequest.method_of_redirected? hnext
    split at hmethod
    · exact hmethod.1.trans hget
    · exact hmethod

/-- If every redirect leaves the method as it is, method and body arrive. -/
theorem arrives (h : Leads r hops last) (hkeeps : ∀ hop ∈ hops, hop.keeps r.method = true) :
    last.method = r.method ∧ last.payload = r.payload := by
  induction h with
  | arrived => exact ⟨rfl, rfl⟩
  | @redirected r next last reply hops hnext _ ih =>
    have hkept := hkeeps _ List.mem_cons_self
    rw [Served.keeps_reply] at hkept
    have hmethod := WireRequest.method_of_redirected? hnext
    rw [if_pos hkept] at hmethod
    obtain ⟨hmethod, hpayload⟩ := hmethod
    rw [← hmethod, ← hpayload]
    apply ih
    intro hop hmem
    rw [hmethod]
    exact hkeeps hop (List.mem_cons_of_mem _ hmem)

/-- The last request is of the first's method only if every redirect leaves that as it is. -/
theorem method_eq_iff (h : Leads r hops last) (hget : r.method ≠ .get) :
    last.method = r.method ↔ ∀ hop ∈ hops, hop.keeps r.method = true := by
  constructor
  · induction h with
    | arrived =>
      intro _ hop hmem
      cases hmem
    | @redirected r next last reply hops hnext hrest ih =>
      intro hlast hop hmem
      have hmethod := WireRequest.method_of_redirected? hnext
      split at hmethod
      · next hkept =>
        -- The method is the same as before, so that the rest of the chain speaks of it, too.
        rcases List.mem_cons.mp hmem with rfl | hmem
        · rw [Served.keeps_reply]
          exact hkept
        · rw [← hmethod.1] at hget hlast ⊢
          exact ih hget hlast hop hmem
      · exact absurd (hlast.symm.trans (hrest.method_of_get hmethod)) hget
  · exact fun hkeeps ↦ (h.arrives hkeeps).1

end Leads

/-! ## Sending -/

/-- A request that is delivered is recorded with its answer. -/
theorem history_of_deliver {n n' : Network} {r : WireRequest} {answer : Answer}
    (h : n.deliver r = (some answer, n')) : n'.history = n.history ++ [⟨r, answer⟩] := by
  unfold Network.deliver at h
  split at h
  · obtain ⟨hanswer, rfl⟩ := Prod.mk.inj h
    rw [← Option.some.inj hanswer]
  · cases h

private theorem of_follow {first : Url} {left : Nat} {r : WireRequest} {n n' : Network}
    {reply : Reply} (h : follow first left r n = (.ok reply, n')) :
    n.deliver r = (some (.reply reply), n') ∨
      ∃ answer n₁ next left₁, n.deliver r = (some (.reply answer), n₁) ∧
        r.redirected? answer = some next ∧ left = left₁ + 1 ∧
        follow first left₁ next n₁ = (.ok reply, n') := by
  obtain ⟨⟨answer, n₁⟩, hdeliver⟩ : ∃ d, n.deliver r = d := ⟨_, rfl⟩
  rw [follow, hdeliver] at h
  cases answer with
  | none => cases h
  | some answer =>
    cases answer with
    | dropped => cases h
    | stalled => cases h
    | reply answer =>
      dsimp only at h
      cases hnext : r.redirected? answer with
      | none =>
        rw [hnext] at h
        cases h
        exact .inl hdeliver
      | some next =>
        rw [hnext] at h
        cases left with
        | zero => cases h
        | succ left₁ =>
          dsimp only at h
          split at h
          · exact .inr ⟨answer, n₁, next, left₁, hdeliver, hnext, rfl, h⟩
          · cases h

/-- An answer that is kept ends a chain of redirects, which is all that reached the server. -/
theorem exists_leads_of_follow {first : Url} {left : Nat} {r : WireRequest} {n n' : Network}
    {reply : Reply} (h : follow first left r n = (.ok reply, n')) :
    ∃ hops last, Leads r hops last ∧
      n'.history = n.history ++ (hops ++ [⟨last, .reply reply⟩]) := by
  -- Every redirect that is followed uses up one of those that are left.
  induction left generalizing r n with
  | zero =>
    obtain hdeliver | ⟨_, _, _, _, _, _, hleft, _⟩ := of_follow h
    · exact ⟨[], r, .arrived, history_of_deliver hdeliver⟩
    · cases hleft
  | succ left ih =>
    obtain hdeliver | ⟨answer, n₁, next, left₁, hdeliver, hnext, hleft, hrest⟩ := of_follow h
    · exact ⟨[], r, .arrived, history_of_deliver hdeliver⟩
    · obtain rfl := Nat.succ.inj hleft
      obtain ⟨hops, last, hleads, hhistory⟩ := ih hrest
      refine ⟨⟨r, .reply answer⟩ :: hops, last, .redirected hnext hleads, ?_⟩
      rw [hhistory, history_of_deliver hdeliver, List.append_assoc]
      rfl

/-- An answer that is kept ends a chain of redirects, which is all that reached the server. -/
theorem exists_leads_of_send {r : WireRequest} {n n' : Network} {reply : Reply}
    (h : send r n = (.ok reply, n')) :
    ∃ hops last, Leads r hops last ∧
      n'.history = n.history ++ (hops ++ [⟨last, .reply reply⟩]) :=
  exists_leads_of_follow h

/-- A request that is not delivered does not touch the network, and nobody listens at its URL. -/
theorem of_deliver_none {n n' : Network} {r : WireRequest} (h : n.deliver r = (none, n')) :
    n.reaches r.url = false ∧ n' = n := by
  unfold Network.deliver at h
  split at h
  · cases h
  · next hreaches => exact ⟨Bool.eq_false_iff.mpr hreaches, (Prod.mk.inj h).2.symm⟩

/-- Whatever comes of a request, it is the first to reach the server, if a server is at its URL. -/
theorem history_follow (first : Url) (left : Nat) (r : WireRequest) (n : Network) :
    (n.reaches r.url = false ∧ (follow first left r n).2.history = n.history) ∨
      ∃ answer rest, (follow first left r n).2.history = n.history ++ ⟨r, answer⟩ :: rest := by
  fun_induction follow first left r n with
  | case1 left r n unsent n' hdeliver =>
    obtain ⟨hreaches, rfl⟩ := of_deliver_none hdeliver
    exact .inl ⟨hreaches, rfl⟩
  | case2 left r n unsent n' hdeliver =>
    exact .inr ⟨_, [], history_of_deliver hdeliver⟩
  | case3 left r n unsent n' hdeliver =>
    exact .inr ⟨_, [], history_of_deliver hdeliver⟩
  | case4 left r n reply n' hdeliver hkept =>
    exact .inr ⟨_, [], history_of_deliver hdeliver⟩
  | case5 r n reply n' hdeliver next hnext =>
    exact .inr ⟨_, [], history_of_deliver hdeliver⟩
  | case6 r n reply n' hdeliver next hnext left hsendable ih =>
    -- What comes of the redirect stands behind the request that was redirected.
    rcases ih with ⟨-, ih⟩ | ⟨answer, rest, ih⟩
    · exact .inr ⟨_, [], ih.trans (history_of_deliver hdeliver)⟩
    · refine .inr ⟨.reply reply, ⟨next, answer⟩ :: rest, ?_⟩
      rw [ih, history_of_deliver hdeliver, List.append_assoc, List.singleton_append]
  | case7 r n reply n' hdeliver next hnext left hunsendable =>
    exact .inr ⟨_, [], history_of_deliver hdeliver⟩

/-- Whatever comes of a request, it is the first to reach the server, if a server is at its URL. -/
theorem history_send (r : WireRequest) (n : Network) :
    (n.reaches r.url = false ∧ (send r n).2.history = n.history) ∨
      ∃ answer rest, (send r n).2.history = n.history ++ ⟨r, answer⟩ :: rest :=
  history_follow r.url redirectLimit r n

end Http

end RegionClient
