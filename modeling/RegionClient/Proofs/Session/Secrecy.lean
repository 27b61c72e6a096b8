import RegionClient.Proofs.Resource.Step
import RegionClient.Session.Negotiation

/-!
# What two sessions show of their secrets

Two runs that differ in what is uploaded from memory, and in the key that channels are opened with.
`Run.Alike` says that nobody who sees the log, the numbers of requests and the world up to a
relation can tell them apart, and `Action.Alike` that what is done keeps them so. Main statement:
if a connector and the world do not tell two keys apart, conversations with the two keep runs
alike and bring the same results (`converse_alike`).
-/

namespace RegionClient

/-! ## Secrets -/

/-- A file without its content. -/
def FilePart.masked (file : FilePart) : FilePart := { file with content := [] }

/-- A request without the content of its file. -/
def Request.masked (request : Request) : Request :=
  { request with file := request.file.map FilePart.masked }

/-- An upload without content from memory; what is read from a source stays. -/
def Upload.masked (upload : Upload) : Upload :=
  { upload with content := upload.content.map fun _ ↦ [] }

/-- A step without content from memory. -/
def Step.masked : Step → Step
  | postFile path op params _ => postFile path op params []
  | addFile upload => addFile upload.masked
  | step => step

/-- What an event shows to those who read the log. -/
def LogEvent.shown (e : LogEvent) : LogLevel × String × List (String × String) :=
  (e.level, e.message, e.fields)

/-- What a session shows of itself. -/
def Session.shown {σ : Type} (s : Session σ) : String × Version × Capabilities :=
  (s.baseUrl, s.version, s.capabilities)

/-- What is shown of a conversation: the session, and what the steps brought. -/
abbrev Conversation : Type :=
  (String × Version × Capabilities) × List (Except StepError Yield)

/-- Negotiates a session and takes steps in it. -/
def converse {σ : Type} (connector : Connector σ) (versions : List String) (args : ControllerArgs)
    (steps : List Step) : Action σ (Except Error Conversation) := do
  match ← Session.negotiate connector versions args with
  | .error e => return .error e
  | .ok session => return .ok (session.shown, ← Step.performAll session steps)

/-! ## Runs that look the same -/

variable {σ : Type} {R : σ → σ → Prop}

/-- Two runs look the same: their worlds are related, they issued as many requests, and their logs
show the same. -/
structure Run.Alike (R : σ → σ → Prop) (run run' : Run σ) : Prop where
  world : R run.world run'.world
  issued : run.issued = run'.issued
  log : run.log.map LogEvent.shown = run'.log.map LogEvent.shown

/-- Two results are alike: the same failure, or values that are related. -/
inductive ResultsAlike {ε α : Type} (S : α → α → Prop) : Except ε α → Except ε α → Prop
  | error (e : ε) : ResultsAlike S (.error e) (.error e)
  | ok {a a' : α} (h : S a a') : ResultsAlike S (.ok a) (.ok a')

/-- Two results with the same view are the same failure, or bring values with the same view. -/
theorem results_of_map_eq {ε α β : Type} {view : α → β} {x x' : Except ε α}
    (h : x.map view = x'.map view) :
    (∃ e, x = .error e ∧ x' = .error e) ∨
      ∃ a a', x = .ok a ∧ x' = .ok a' ∧ view a = view a' := by
  cases x with
  | error e =>
    cases x' with
    | error e' => exact .inl ⟨e, rfl, congrArg Except.error (Except.error.inj h).symm⟩
    | ok a' => cases h
  | ok a =>
    cases x' with
    | error e' => cases h
    | ok a' => exact .inr ⟨a, a', rfl, rfl, Except.ok.inj h⟩

/-- Two channels look the same: requests that differ in the content of a file only bring the same
answers, and keep worlds related. -/
def ChannelsAlike (R : σ → σ → Prop) (channel channel' : Channel σ) : Prop :=
  ∀ (method : Method) (request request' : Request) (world world' : σ),
    request.masked = request'.masked → R world world' →
    (channel method request world).1 = (channel' method request' world').1 ∧
      R (channel method request world).2 (channel' method request' world').2

/-- A connector does not tell two keys apart. -/
def Connector.Alike (R : σ → σ → Prop) (connector : Connector σ) (apiKey apiKey' : String) : Prop :=
  ∀ (baseUrl : String) (version : Version) (world world' : σ), R world world' →
    ResultsAlike (ChannelsAlike R) (connector baseUrl apiKey version world).1.channel
        (connector baseUrl apiKey' version world').1.channel ∧
      (connector baseUrl apiKey version world).1.log.map LogEvent.shown =
        (connector baseUrl apiKey' version world').1.log.map LogEvent.shown ∧
      R (connector baseUrl apiKey version world).2 (connector baseUrl apiKey' version world').2

/-- Two sessions look the same. -/
structure Session.Alike (R : σ → σ → Prop) (s s' : Session σ) : Prop where
  shown : s.shown = s'.shown
  channel : ChannelsAlike R s.channel s'.channel

/-- Two things that are done keep runs alike, and bring results that are related. -/
def Action.Alike {α : Type} (R : σ → σ → Prop) (S : α → α → Prop) (x x' : Action σ α) : Prop :=
  ∀ run run' : Run σ, run.Alike R run' →
    S (x run).1 (x' run').1 ∧ (x run).2.Alike R (x' run').2

namespace Action

variable {α β : Type} {S : α → α → Prop} {T : β → β → Prop}

private theorem alike_pure {a a' : α} (h : S a a') : Alike R S (pure a) (pure a') :=
  fun _ _ hrun ↦ ⟨h, hrun⟩

/-- Two things in a row keep runs alike if both do. -/
theorem Alike.bind {x x' : Action σ α} {f f' : α → Action σ β} (hx : Alike R S x x')
    (hf : ∀ a a', S a a' → Alike R T (f a) (f' a')) : Alike R T (x >>= f) (x' >>= f') :=
  fun run run' hrun ↦ hf _ _ (hx run run' hrun).1 _ _ (hx run run' hrun).2

private theorem alike_log {e e' : LogEvent} (h : e.shown = e'.shown) :
    Alike R Eq (log e : Action σ Unit) (log e') := by
  intro run run' hrun
  refine ⟨rfl, hrun.world, hrun.issued, ?_⟩
  have hlog : ∀ (run : Run σ) (e : LogEvent), (log e run).2.log = run.log ++ [e] :=
    fun _ _ ↦ List.filterMap_append
  rw [hlog, hlog, List.map_append, List.map_append, hrun.log, List.map_singleton,
    List.map_singleton, h]

private theorem alike_openChannel {connector : Connector σ} {apiKey apiKey' : String}
    (h : connector.Alike R apiKey apiKey') (baseUrl : String) (version : Version) :
    Alike R (ResultsAlike (ChannelsAlike R)) (openChannel connector baseUrl apiKey version)
      (openChannel connector baseUrl apiKey' version) := by
  intro run run' hrun
  obtain ⟨hchannel, hlog, hworld⟩ := h baseUrl version _ _ hrun.world
  rw [openChannel_apply, openChannel_apply]
  refine ⟨hchannel, hworld, hrun.issued, ?_⟩
  rw [log_afterOpening, log_afterOpening, List.map_append, List.map_append, hrun.log, hlog]

end Action

/-! ## Calls -/

section Call

variable {request request' : Request}

/-- Requests that differ in the content of a file have the same path, operation and parameters. -/
theorem Request.eq_of_masked (h : request.masked = request'.masked) :
    request.path = request'.path ∧ request.op = request'.op ∧ request.params = request'.params ∧
      request.file.isSome = request'.file.isSome := by
  obtain ⟨hpath, hop, hparams, hfile⟩ := Request.mk.inj h
  have hsome := congrArg Option.isSome hfile
  rw [Option.isSome_map, Option.isSome_map] at hsome
  exact ⟨hpath, hop, hparams, hsome⟩

private theorem CallError.ofRequest_of_masked (h : request.masked = request'.masked)
    (method : Method) (failure : CallFailure) :
    CallError.ofRequest method request failure = CallError.ofRequest method request' failure := by
  obtain ⟨hpath, hop, -, -⟩ := Request.eq_of_masked h
  rw [CallError.ofRequest, CallError.ofRequest, hpath, hop]

private theorem LogEvent.shown_started (h : request.masked = request'.masked) (method : Method)
    (number : UInt64) (baseUrl : String) :
    (started method number baseUrl request).shown =
      (started method number baseUrl request').shown := by
  obtain ⟨hpath, hop, hparams, hfile⟩ := Request.eq_of_masked h
  cases method <;> simp only [started, shown, level, message, fields, hpath, hop, hparams, hfile]

private theorem Session.bytesOf_of_masked (h : request.masked = request'.masked) (method : Method)
    (answer : Except TransportError Bytes) :
    bytesOf method request answer = bytesOf method request' answer := by
  cases answer with
  | error e => exact congrArg Except.error (CallError.ofRequest_of_masked h method _)
  | ok body => rfl

private theorem Session.valueOf_of_masked (h : request.masked = request'.masked) (method : Method)
    (answer : Except TransportError Bytes) :
    valueOf method request answer = valueOf method request' answer := by
  have hdecode : decode method request = decode method request' := by
    funext body
    unfold decode
    simp only [CallError.ofRequest_of_masked h]
  rw [valueOf, valueOf, bytesOf_of_masked h, hdecode]

/-- Calls of sessions that look the same meet the same answer, and keep runs alike. -/
theorem Session.Alike.afterCall {s s' : Session σ} (hs : s.Alike R s')
    (h : request.masked = request'.masked) (method : Method) {run run' : Run σ}
    (hrun : run.Alike R run') :
    (s.channel method request run.world).1 = (s'.channel method request' run'.world).1 ∧
      (s.afterCall method request run).Alike R (s'.afterCall method request' run') := by
  obtain ⟨hanswer, hworld⟩ := hs.channel method _ _ _ _ h hrun.world
  have hbaseUrl : s.baseUrl = s'.baseUrl := congrArg Prod.fst hs.shown
  refine ⟨hanswer, hworld, congrArg (· + 1) hrun.issued, ?_⟩
  rw [s.log_afterCall, s'.log_afterCall, List.map_append, List.map_append, hrun.log, hrun.issued,
    hanswer, hbaseUrl]
  simp only [List.map_cons, LogEvent.shown_started h]

private theorem Session.Alike.callJson {s s' : Session σ} (hs : s.Alike R s') (method : Method)
    (request : Request) :
    Action.Alike R Eq (s.callJson method request) (s'.callJson method request) := by
  intro run run' hrun
  obtain ⟨hanswer, halike⟩ := hs.afterCall (rfl : request.masked = _) method hrun
  rw [s.callJson_apply, s'.callJson_apply, hanswer]
  exact ⟨rfl, halike⟩

end Call

/-! ## Negotiations -/

/-- Two trials are alike: they come to the same, and accept sessions that look the same. -/
inductive Attempt.Alike (R : σ → σ → Prop) : Attempt σ → Attempt σ → Prop
  | accepted {s s' : Session σ} (h : s.Alike R s') : Attempt.Alike R (.accepted s) (.accepted s')
  | passedOver (e : Error) : Attempt.Alike R (.passedOver e) (.passedOver e)
  | aborted (e : Error) : Attempt.Alike R (.aborted e) (.aborted e)

namespace Session

private theorem Alike.readCapabilities {s s' : Session σ} (hs : s.Alike R s') :
    Action.Alike R Eq s.readCapabilities s'.readCapabilities := by
  refine (hs.callJson .get (.ofPath "version")).bind ?_
  rintro outcome _ rfl
  cases outcome <;> exact Action.alike_pure rfl

private theorem Alike.checkCredentials {s s' : Session σ} (hs : s.Alike R s') :
    Action.Alike R Eq s.checkCredentials s'.checkCredentials := by
  refine (hs.callJson .get ((Request.ofPath "users").withOp "whoami")).bind ?_
  rintro outcome _ rfl
  cases outcome <;> exact Action.alike_pure rfl

private theorem alike_tryChannel {channel channel' : Channel σ}
    (h : ChannelsAlike R channel channel') (baseUrl : String) (version : Version) :
    Action.Alike R (Attempt.Alike R) (tryChannel channel baseUrl version)
      (tryChannel channel' baseUrl version) := by
  have hs : ∀ capabilities : Capabilities,
      Session.Alike R ⟨channel, baseUrl, version, capabilities⟩
        ⟨channel', baseUrl, version, capabilities⟩ := fun _ ↦ ⟨rfl, h⟩
  refine (hs .empty).readCapabilities.bind ?_
  rintro outcome _ rfl
  cases outcome with
  | error e => exact Action.alike_pure (.passedOver e)
  | ok capabilities =>
    refine (hs capabilities).checkCredentials.bind ?_
    rintro identity _ rfl
    cases identity with
    | error e => exact Action.alike_pure (.aborted e)
    | ok _ => exact Action.alike_pure (.accepted (hs capabilities))

section

variable {connector : Connector σ} {apiKey apiKey' : String}
  (h : connector.Alike R apiKey apiKey') (baseUrl : String)

include h

private theorem alike_attempt (candidate : String) :
    Action.Alike R (Attempt.Alike R) (attempt connector ⟨baseUrl, apiKey⟩ candidate)
      (attempt connector ⟨baseUrl, apiKey'⟩ candidate) := by
  unfold attempt
  cases Version.parse candidate with
  | error e => exact Action.alike_pure (.aborted e)
  | ok version =>
    refine (Action.alike_openChannel h baseUrl version).bind ?_
    intro opened opened' hopened
    cases hopened with
    | error e => exact Action.alike_pure (.aborted _)
    | ok hchannel => exact alike_tryChannel hchannel baseUrl version

/-- Trying candidates keeps runs alike. -/
theorem alike_tryAll (versions candidates : List String) :
    Action.Alike R (ResultsAlike (Session.Alike R))
      (tryAll connector ⟨baseUrl, apiKey⟩ versions candidates)
      (tryAll connector ⟨baseUrl, apiKey'⟩ versions candidates) := by
  induction candidates with
  | nil => exact Action.alike_pure (.error _)
  | cons candidate rest ih =>
    refine (alike_attempt h baseUrl candidate).bind ?_
    intro trial trial' htrial
    cases htrial with
    | accepted hs =>
      refine (Action.alike_log ?_).bind fun _ _ _ ↦ Action.alike_pure (.ok hs)
      obtain ⟨-, hshown⟩ := Prod.mk.inj hs.shown
      obtain ⟨hversion, hcapabilities⟩ := Prod.mk.inj hshown
      rw [hversion, hcapabilities]
    | passedOver e => exact (Action.alike_log rfl).bind fun _ _ _ ↦ ih
    | aborted e => exact Action.alike_pure (.error e)

end

end Session

/-! ## Steps -/

namespace Step

private theorem map_take_masked {α : Type} (upload : Upload) (a : α) :
    upload.masked.take.map (fun _ ↦ a) = upload.take.map fun _ ↦ a := by
  obtain ⟨filename, content, source, length⟩ := upload
  cases content with
  | none => rfl
  | some content =>
    have hvalidate : (Upload.masked ⟨filename, some content, source, length⟩).validate =
        Upload.validate ⟨filename, some content, source, length⟩ := by cases source <;> rfl
    unfold Upload.take
    rw [hvalidate]
    cases Upload.validate ⟨filename, some content, source, length⟩ <;> rfl

/-- The call of a step without the content of its file. -/
def maskedPlan (step : Step) : Except Error (Method × Request) :=
  step.plan.map fun call ↦ (call.1, call.2.masked)

private theorem maskedPlan_addFile (upload : Upload) :
    (addFile upload).maskedPlan = upload.take.map fun _ ↦
      (.post, {
        path := "files/"
        op := some "create"
        params := ⟨[("filename", upload.filename)]⟩
        file := some ⟨"file", []⟩ }) := by
  rw [maskedPlan, plan]
  cases upload.take <;> rfl

/-- Steps that differ in content from memory make the same call up to that content. -/
theorem maskedPlan_masked (step : Step) : step.masked.maskedPlan = step.maskedPlan := by
  cases step with
  | addFile upload =>
    rw [masked, maskedPlan_addFile, maskedPlan_addFile, map_take_masked]
    rfl
  | _ => rfl

/-- What a step makes of an answer does not depend on content from memory. -/
theorem outcome_masked (step : Step) : step.masked.outcome = step.outcome := by
  cases step <;> rfl

private theorem outcome_of_masked {request request' : Request}
    (h : request.masked = request'.masked) (step : Step) (method : Method)
    (answer : Except TransportError Bytes) :
    step.outcome method request answer = step.outcome method request' answer := by
  have hbytes := Session.bytesOf_of_masked h method answer
  cases step <;> simp only [outcome, listed, Session.valueOf_of_masked h, hbytes]

/-- Steps that differ in content from memory bring the same, and keep runs alike. -/
theorem alike_perform {s s' : Session σ} (hs : s.Alike R s') {step step' : Step}
    (h : step.masked = step'.masked) :
    Action.Alike R Eq (step.perform s) (step'.perform s') := by
  intro run run' hrun
  have hplan : step.maskedPlan = step'.maskedPlan := by
    rw [← maskedPlan_masked step, h, maskedPlan_masked]
  have houtcome : step.outcome = step'.outcome := by
    rw [← outcome_masked step, h, outcome_masked]
  rcases results_of_map_eq hplan with ⟨e, hcall, hcall'⟩ | ⟨call, call', hcall, hcall', hview⟩
  · rw [step.perform_of_refused s hcall, step'.perform_of_refused s' hcall']
    exact ⟨rfl, hrun⟩
  · obtain ⟨method, request⟩ := call
    obtain ⟨method', request'⟩ := call'
    obtain ⟨hmethod, hrequest⟩ := Prod.mk.inj hview
    obtain rfl : method = method' := hmethod
    obtain ⟨hanswer, halike⟩ := hs.afterCall hrequest method hrun
    rw [step.perform_of_planned s hcall, step'.perform_of_planned s' hcall', hanswer, houtcome,
      outcome_of_masked hrequest]
    exact ⟨rfl, halike⟩

/-- Sequences of steps that differ in content from memory bring the same, and keep runs alike. -/
theorem alike_performAll {s s' : Session σ} (hs : s.Alike R s') {steps steps' : List Step}
    (h : steps.map masked = steps'.map masked) :
    Action.Alike R Eq (performAll s steps) (performAll s' steps') := by
  unfold performAll
  induction steps generalizing steps' with
  | nil =>
    obtain rfl : steps' = [] := List.map_eq_nil_iff.mp h.symm
    exact Action.alike_pure rfl
  | cons step steps ih =>
    cases steps' with
    | nil => cases h
    | cons step' steps' =>
      obtain ⟨hstep, hsteps⟩ := List.cons.inj h
      rw [List.mapM_cons, List.mapM_cons]
      refine (alike_perform hs hstep).bind ?_
      rintro outcome _ rfl
      refine (ih hsteps).bind ?_
      rintro outcomes _ rfl
      exact Action.alike_pure rfl

end Step

/-! ## Conversations -/

/-- Conversations with keys that a connector does not tell apart, whose steps differ in content
from memory only, bring the same results and keep runs alike. -/
theorem converse_alike {connector : Connector σ} {apiKey apiKey' : String}
    (hconnector : connector.Alike R apiKey apiKey') (versions : List String) (baseUrl : String)
    {steps steps' : List Step} (hsteps : steps.map Step.masked = steps'.map Step.masked) :
    Action.Alike R Eq (converse connector versions ⟨baseUrl, apiKey⟩ steps)
      (converse connector versions ⟨baseUrl, apiKey'⟩ steps') := by
  refine (Session.alike_tryAll hconnector baseUrl versions versions).bind ?_
  intro negotiated negotiated' hnegotiated
  cases hnegotiated with
  | error e => exact Action.alike_pure rfl
  | ok hs =>
    refine (Step.alike_performAll hs hsteps).bind ?_
    rintro outcomes _ rfl
    rw [hs.shown]
    exact Action.alike_pure rfl

end RegionClient
