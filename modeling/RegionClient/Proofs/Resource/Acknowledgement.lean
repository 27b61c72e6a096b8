import RegionClient.Proofs.Http.Exchange
import RegionClient.Proofs.Resource.Step

/-!
# What success of a mutation means

A mutation that succeeds is to have been fulfilled as it was asked. `IsAcknowledged` is that law:
among the requests that reached the server is one that carries the mutation, and that the server
itself fulfilled. Main statement: the law holds unless redirects turned the request into a GET, or
led it to another target (`isAcknowledged_iff`).
-/

namespace RegionClient

open Http

/-- The session of an endpoint. -/
def Http.Endpoint.session (e : Endpoint) (baseUrl : String) (version : Version)
    (capabilities : Capabilities) : Session Network :=
  ⟨e.exchange, baseUrl, version, capabilities⟩

/-- The operations that change what the controller keeps. -/
inductive Mutation where
  | createDevice (device : NewDevice)
  | allocateMachine (constraints : MachineConstraints)
  | releaseMachines (release : MachineRelease)
  | addFile (upload : Upload)
  | deleteFile (filename : String)

namespace Mutation

/-- The step that a mutation is. -/
def step : Mutation → Step
  | createDevice device => .createDevice device
  | allocateMachine constraints => .allocateMachine constraints
  | releaseMachines release => .releaseMachines release
  | addFile upload => .addFile upload
  | deleteFile filename => .deleteFile filename

/-- What a mutation asks of the controller. -/
inductive Asks : Mutation → Method → Request → Prop
  | createDevice (device : NewDevice) :
      Asks (.createDevice device) .post
        { path := "devices/", op := some "create", params := device.params }
  | allocateMachine (constraints : MachineConstraints) :
      Asks (.allocateMachine constraints) .post
        { path := "machines/", op := some "allocate", params := constraints.params }
  | releaseMachines (release : MachineRelease) :
      Asks (.releaseMachines release) .post
        { path := "machines/", op := some "release", params := release.params }
  | addFile {upload : Upload} {content : Bytes} (h : upload.take = .ok content) :
      Asks (.addFile upload) .post
        { path := "files/", op := some "create", params := ⟨[("filename", upload.filename)]⟩
          file := some ⟨"file", content⟩ }
  | deleteFile (filename : String) :
      Asks (.deleteFile filename) .delete { path := ensureTrailingSlash ("files/" ++ filename) }

/-- A mutation that succeeds was asked of the server, and the server fulfilled just that. -/
def IsAcknowledged (m : Mutation) (root : Url) (s : Session Network) (run : Run Network) : Prop :=
  (m.step.perform s run).1.isOk = true →
    ∃ method request sent, m.Asks method request ∧
      (m.step.perform s run).2.world.history = run.world.history ++ sent ∧
      ∃ served ∈ sent, served.isFulfilled = true ∧ Carries root method request served.request

/-- A mutation succeeds behind redirects that turn its request into a GET or change its target. -/
def IsDiverted (m : Mutation) (s : Session Network) (run : Run Network) : Prop :=
  (m.step.perform s run).1.isOk = true ∧
    ∃ first hops last, Leads first hops last.request ∧
      (m.step.perform s run).2.world.history = run.world.history ++ (hops ++ [last]) ∧
      ((∃ hop ∈ hops, hop.keeps first.method = false) ∨ last.request.target ≠ first.target)

/-! ## Calls of mutations -/

private theorem asks_of_planned {m : Mutation} {method : Method} {request : Request}
    (h : m.step.plan = .ok (method, request)) : m.Asks method request := by
  cases m with
  | createDevice device =>
    simp only [step, Step.plan] at h
    split at h
    · cases h
    · cases h
      exact .createDevice device
  | allocateMachine constraints =>
    cases h
    exact .allocateMachine constraints
  | releaseMachines release =>
    cases h
    exact .releaseMachines release
  | addFile upload =>
    simp only [step, Step.plan] at h
    cases htake : upload.take with
    | error e =>
      rw [htake] at h
      cases h
    | ok content =>
      rw [htake] at h
      cases h
      exact .addFile htake
  | deleteFile filename =>
    simp only [step, Step.plan] at h
    split at h
    · cases h
    · cases h
      exact .deleteFile filename

/-- What a mutation asks for carries over to the wire. -/
theorem Asks.carries {m : Mutation} {method : Method} {request : Request}
    (h : m.Asks method request) {root : Url} {credentials : Credentials}
    {settings : ClientSettings} {fresh : Fresh} {r : WireRequest}
    (hcompose : compose root credentials settings fresh method request = .ok r) :
    Carries root method request r := by
  cases h with
  | createDevice | allocateMachine | releaseMachines | addFile =>
    exact carries_of_compose_post rfl hcompose
  | deleteFile => exact carries_of_compose_delete rfl hcompose

/-- A mutation asks for one thing. -/
theorem Asks.unique {m : Mutation} {method method' : Method} {request request' : Request}
    (h : m.Asks method request) (h' : m.Asks method' request') :
    method = method' ∧ request = request' := by
  cases h with
  | createDevice | allocateMachine | releaseMachines | deleteFile =>
    cases h'
    exact ⟨rfl, rfl⟩
  | addFile htake =>
    cases h' with
    | addFile htake' =>
      rw [htake] at htake'
      rw [Except.ok.inj htake']
      exact ⟨rfl, rfl⟩

private theorem Asks.method_ne_get {m : Mutation} {method : Method} {request : Request}
    (h : m.Asks method request) : method ≠ .get := by
  cases h <;> exact nofun

end Mutation

private theorem Step.not_isOk_outcome (step : Step) (method : Method) (request : Request)
    (e : TransportError) : (step.outcome method request (.error e)).isOk = false := by
  cases step <;> rfl

private theorem Step.exists_answer_of_isOk {σ : Type} {s : Session σ} {step : Step} {run : Run σ}
    (h : (step.perform s run).1.isOk = true) :
    ∃ method request body, step.plan = .ok (method, request) ∧
      (s.channel method request run.world).1 = .ok body ∧
      (step.perform s run).2.world = (s.channel method request run.world).2 := by
  cases hplan : step.plan with
  | error e =>
    rw [step.perform_of_refused s hplan] at h
    cases h
  | ok call =>
    rw [step.perform_of_planned s hplan] at h ⊢
    dsimp only at h
    cases hanswer : (s.channel call.1 call.2 run.world).1 with
    | error e =>
      rw [hanswer, step.not_isOk_outcome] at h
      cases h
    | ok body => exact ⟨call.1, call.2, body, rfl, hanswer, rfl⟩

/-! ## Chains of a mutation -/

namespace Http

private theorem Leads.first_unique {first first' last : WireRequest} {hops : List Served}
    (h : Leads first hops last) (h' : Leads first' hops last) : first = first' := by
  cases h with
  | arrived =>
    cases h'
    rfl
  | redirected =>
    cases h'
    rfl

/-- The requests that reached the server tell the chain. -/
theorem Leads.unique {first first' : WireRequest} {hops hops' : List Served} {last last' : Served}
    (h : Leads first hops last.request) (h' : Leads first' hops' last'.request)
    (hsame : hops' ++ [last'] = hops ++ [last]) :
    first' = first ∧ hops' = hops ∧ last' = last := by
  obtain ⟨rfl, hlast⟩ := List.append_inj' hsame rfl
  obtain rfl := List.singleton_inj.mp hlast
  exact ⟨h'.first_unique h, rfl, rfl⟩

private theorem Leads.eq_last_of_isFulfilled {first : WireRequest} {hops : List Served}
    {last served : Served} (h : Leads first hops last.request) (hmem : served ∈ hops ++ [last])
    (hfulfilled : served.isFulfilled = true) : served = last := by
  rcases List.mem_append.mp hmem with hhop | hlast
  · rw [h.not_isFulfilled served hhop] at hfulfilled
    cases hfulfilled
  · exact List.mem_singleton.mp hlast

private theorem Carries.target_unique {root : Url} {method : Method} {request : Request}
    {r r' : WireRequest} (h : Carries root method request r) (h' : Carries root method request r') :
    r.target = r'.target := by
  obtain ⟨url, hlocate, htarget⟩ := h.target_eq
  obtain ⟨url', hlocate', htarget'⟩ := h'.target_eq
  rw [hlocate] at hlocate'
  rw [htarget, htarget', Except.ok.inj hlocate']

/-- At the end of a chain a request is still carried if and only if every redirect leaves its
method as it is, and the target is the first. -/
theorem Leads.carries_iff {root : Url} {method : Method} {request : Request}
    {first last : WireRequest} {hops : List Served} (h : Leads first hops last)
    (hfirst : Carries root method request first) (hget : method ≠ .get) :
    Carries root method request last ↔
      (∀ hop ∈ hops, hop.keeps first.method = true) ∧ last.target = first.target := by
  have hget' : first.method ≠ .get := by
    rw [hfirst.method_eq]
    exact hget
  constructor
  · intro hlast
    have hmethod : last.method = first.method := hlast.method_eq.trans hfirst.method_eq.symm
    exact ⟨(h.method_eq_iff hget').mp hmethod, hlast.target_unique hfirst⟩
  · rintro ⟨hkeeps, htarget⟩
    obtain ⟨hmethod, hpayload⟩ := h.arrives hkeeps
    refine ⟨hmethod.trans hfirst.method_eq, ?_, ?_⟩
    · rw [htarget]
      exact hfirst.target_eq
    · rw [hpayload]
      exact hfirst.holds

end Http

namespace Mutation

variable (e : Endpoint) (baseUrl : String) (version : Version) (capabilities : Capabilities)

/-- A mutation that succeeds is carried by the first request of a chain of redirects, of which only
the last was fulfilled. -/
theorem exists_leads_of_isOk {m : Mutation} {run : Run Network}
    (h : (m.step.perform (e.session baseUrl version capabilities) run).1.isOk = true) :
    ∃ method request first hops last, m.Asks method request ∧
      Carries e.root method request first ∧
      Leads first hops last.request ∧ last.isFulfilled = true ∧
      (m.step.perform (e.session baseUrl version capabilities) run).2.world.history =
        run.world.history ++ (hops ++ [last]) := by
  obtain ⟨method, request, body, hplan, hanswer, hworld⟩ := Step.exists_answer_of_isOk h
  obtain ⟨fresh, first, hops, last, hcompose, hleads, hfulfilled, hhistory⟩ :=
    exists_leads_of_exchange hanswer
  have hasks := asks_of_planned hplan
  refine ⟨method, request, first, hops, last, hasks, hasks.carries hcompose, hleads, hfulfilled, ?_⟩
  rw [hworld]
  exact hhistory

section

variable {m : Mutation} {root : Url} {s : Session Network} {run : Run Network} {first : WireRequest}
  {hops : List Served} {last : Served}

/-- A mutation that succeeds behind a chain is acknowledged just if the last request carries it. -/
theorem isAcknowledged_iff_carries {method : Method} {request : Request}
    (hok : (m.step.perform s run).1.isOk = true) (hasks : m.Asks method request)
    (hleads : Leads first hops last.request) (hfulfilled : last.isFulfilled = true)
    (hhistory : (m.step.perform s run).2.world.history = run.world.history ++ (hops ++ [last])) :
    m.IsAcknowledged root s run ↔ Carries root method request last.request := by
  constructor
  · intro hlaw
    obtain ⟨method', request', sent, hasks', hsent, served, hmem, hserved, hcarries⟩ := hlaw hok
    obtain rfl : sent = hops ++ [last] := List.append_cancel_left (hsent.symm.trans hhistory)
    obtain rfl := hleads.eq_last_of_isFulfilled hmem hserved
    obtain ⟨rfl, rfl⟩ := hasks.unique hasks'
    exact hcarries
  · intro hcarries _
    exact ⟨method, request, hops ++ [last], hasks, hhistory, last,
      List.mem_append_right hops List.mem_cons_self, hfulfilled, hcarries⟩

/-- A mutation that succeeds behind a chain is diverted unless every redirect left the method and
the target is the first. -/
theorem isDiverted_iff (hok : (m.step.perform s run).1.isOk = true)
    (hleads : Leads first hops last.request)
    (hhistory : (m.step.perform s run).2.world.history = run.world.history ++ (hops ++ [last])) :
    m.IsDiverted s run ↔
      ¬ ((∀ hop ∈ hops, hop.keeps first.method = true) ∧ last.request.target = first.target) := by
  constructor
  · rintro ⟨-, first', hops', last', hleads', hhistory', hdiverted⟩ ⟨hkeeps, htarget⟩
    obtain ⟨rfl, rfl, rfl⟩ :=
      hleads.unique hleads' (List.append_cancel_left (hhistory'.symm.trans hhistory))
    rcases hdiverted with ⟨hop, hhop, hlost⟩ | hother
    · rw [hkeeps hop hhop] at hlost
      cases hlost
    · exact hother htarget
  · intro hlost
    refine ⟨hok, first, hops, last, hleads, hhistory, ?_⟩
    rcases Classical.not_and_iff_not_or_not.mp hlost with hkeeps | hother
    · obtain ⟨hop, hnot⟩ := Classical.not_forall.mp hkeeps
      obtain ⟨hhop, hlost⟩ := Classical.not_imp.mp hnot
      exact .inl ⟨hop, hhop, Bool.eq_false_iff.mpr hlost⟩
    · exact .inr hother

end

/-- A mutation that succeeds was fulfilled as it was asked, unless redirects turned its request
into a GET or led it to another target. In any case the first request carries the mutation, and of
the redirects that were followed the last request was fulfilled, which carries the mutation just if
every redirect left the method and the target is the first. -/
theorem isAcknowledged_iff (m : Mutation) (run : Run Network) :
    let s := e.session baseUrl version capabilities
    (m.IsAcknowledged e.root s run ↔ ¬ m.IsDiverted s run) ∧
    ((m.step.perform s run).1.isOk = true → ∃ method request first hops last,
      m.Asks method request ∧ Carries e.root method request first ∧
      Leads first hops last.request ∧ last.isFulfilled = true ∧
      (m.step.perform s run).2.world.history = run.world.history ++ (hops ++ [last]) ∧
      (Carries e.root method request last.request ↔
        (∀ hop ∈ hops, hop.keeps first.method = true) ∧
          last.request.target = first.target)) := by
  intro s
  refine ⟨?_, ?_⟩
  · by_cases hok : (m.step.perform s run).1.isOk = true
    · obtain ⟨method, request, first, hops, last, hasks, hfirst, hleads, hfulfilled, hhistory⟩ :=
        exists_leads_of_isOk e baseUrl version capabilities hok
      rw [isAcknowledged_iff_carries hok hasks hleads hfulfilled hhistory,
        hleads.carries_iff hfirst hasks.method_ne_get, isDiverted_iff hok hleads hhistory,
        Classical.not_not]
    · exact iff_of_true (fun hok' ↦ absurd hok' hok) fun hdiverted ↦ hok hdiverted.1
  · intro hok
    obtain ⟨method, request, first, hops, last, hasks, hfirst, hleads, hfulfilled, hhistory⟩ :=
      exists_leads_of_isOk e baseUrl version capabilities hok
    exact ⟨method, request, first, hops, last, hasks, hfirst, hleads, hfulfilled, hhistory,
      hleads.carries_iff hfirst hasks.method_ne_get⟩

/-- A network in which the host `region` sends the first request elsewhere, to a page that it
shows. -/
def divertingNetwork : Network where
  listener := some ⟨"http", .domain "region", 80⟩
  answers := [
    .reply { status := ⟨302⟩, headers := [("Location", "/MAAS/")] },
    .reply { body := Text.Utf8.ofString "\x7b\x7d" }]
  fresh := fun _ ↦ ⟨⟨"nonce", "0"⟩, "boundary"⟩

/-- An allocation that is sent elsewhere is taken for done when the page there is shown. -/
theorem not_isAcknowledged_diverted :
    ¬ (allocateMachine {}).IsAcknowledged Endpoint.region.root
      (Endpoint.region.session "http://region/MAAS/" ⟨2, 0, 0⟩ .empty)
      { world := divertingNetwork } := by
  intro hlaw
  obtain ⟨method, request, sent, hasks, hhistory, served, hmem, hfulfilled, hcarries⟩ :=
    hlaw (by decide +kernel)
  have hpost : served.request.method = .post := by
    cases hasks
    exact hcarries.method_eq
  have hnone : ∀ served ∈ sent, served.isFulfilled = true → served.request.method = .get := by
    rw [← hhistory.trans (List.nil_append sent)]
    decide +kernel
  rw [hnone served hmem hfulfilled] at hpost
  cases hpost

end Mutation

end RegionClient
