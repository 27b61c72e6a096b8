import RegionClient.Session.Basic

/-!
# What runs show

The views of a run that statements about sessions speak of, and the effect of each primitive on
them. A contact is what the other side sees of a run: a channel that is opened, or a request that
is sent. Main statement: every primitive makes one call, under the next number, and nothing else
(`call_apply`, `callJson_apply`).
-/

namespace RegionClient

/-- What the other side sees of a run. -/
inductive Contact where
  | opened (baseUrl apiKey : String) (version : Version)
  | called (method : Method) (request : Request)
  deriving DecidableEq

/-- The contact that an entry of the journal tells of; the number of a call is left out. -/
def Event.contact? : Event → Option Contact
  | opened baseUrl apiKey version => some (.opened baseUrl apiKey version)
  | called _ method request => some (.called method request)
  | logged _ => none

/-- The method and the request of a contact that is a call. -/
def Contact.call? : Contact → Option (Method × Request)
  | opened .. => none
  | called method request => some (method, request)

namespace Run

variable {σ : Type}

/-- The contacts of a run, in order. -/
def contacts (run : Run σ) : List Contact := run.journal.filterMap Event.contact?

/-- The calls of a run, in order. -/
def calls (run : Run σ) : List (Method × Request) := run.contacts.filterMap Contact.call?

/-- The run with more entries in its journal. -/
def recorded (run : Run σ) (events : List Event) : Run σ :=
  { run with journal := run.journal ++ events }

/-- Recording adds the contacts among the entries. -/
@[simp] theorem contacts_recorded (run : Run σ) (events : List Event) :
    (run.recorded events).contacts = run.contacts ++ events.filterMap Event.contact? :=
  List.filterMap_append

/-- Recording does not reach the world. -/
@[simp] theorem world_recorded (run : Run σ) (events : List Event) :
    (run.recorded events).world = run.world := rfl

/-- Calls are found among the contacts. -/
theorem calls_of_contacts {before after : Run σ} {contacts : List Contact}
    (h : after.contacts = before.contacts ++ contacts) :
    after.calls = before.calls ++ contacts.filterMap Contact.call? := by
  rw [calls, h, List.filterMap_append, calls]

end Run

namespace Action

variable {σ α β : Type}

/-- Doing nothing keeps the run. -/
@[simp] theorem pure_apply (a : α) (run : Run σ) : (pure a : Action σ α) run = (a, run) := rfl

/-- What is done next starts from the run that was left. -/
@[simp] theorem bind_apply (x : Action σ α) (f : α → Action σ β) (run : Run σ) :
    (x >>= f) run = f (x run).1 (x run).2 := rfl

/-- A change of the result does not touch the run. -/
@[simp] theorem map_apply (f : α → β) (x : Action σ α) (run : Run σ) :
    (f <$> x) run = (f (x run).1, (x run).2) := rfl

/-- Logging records the event. -/
theorem log_apply (event : LogEvent) (run : Run σ) :
    log event run = ((), run.recorded [.logged event]) := rfl

/-- The number of a request is the number of requests up to it. -/
theorem takeNumber_apply (run : Run σ) :
    (takeNumber : Action σ UInt64) run = (run.issued + 1, { run with issued := run.issued + 1 }) :=
  rfl

/-- A request is recorded, and then carried by the channel. -/
theorem carry_apply (channel : Channel σ) (number : UInt64) (method : Method) (request : Request)
    (run : Run σ) :
    carry channel number method request run =
      ((channel method request run.world).1,
        { run.recorded [.called number method request] with
          world := (channel method request run.world).2 }) := rfl

private theorem filterMap_contact?_logged (events : List LogEvent) :
    (events.map Event.logged).filterMap Event.contact? = [] := by
  induction events with
  | nil => rfl
  | cons event events ih => exact ih

/-- The run after a channel was asked for. -/
def afterOpening (connector : Connector σ) (baseUrl apiKey : String) (version : Version)
    (run : Run σ) : Run σ :=
  let opening := connector baseUrl apiKey version run.world
  { run.recorded [.opened baseUrl apiKey version] with world := opening.2 }.recorded
    (opening.1.log.map .logged)

/-- A channel is what the connector makes of the world. -/
theorem openChannel_apply (connector : Connector σ) (baseUrl apiKey : String) (version : Version)
    (run : Run σ) :
    openChannel connector baseUrl apiKey version run =
      ((connector baseUrl apiKey version run.world).1.channel,
        afterOpening connector baseUrl apiKey version run) := rfl

/-- The world after a channel was asked for is the one that the connector leaves. -/
@[simp] theorem world_afterOpening (connector : Connector σ) (baseUrl apiKey : String)
    (version : Version) (run : Run σ) :
    (afterOpening connector baseUrl apiKey version run).world =
      (connector baseUrl apiKey version run.world).2 := rfl

/-- Asking for a channel is one contact. -/
@[simp] theorem contacts_afterOpening (connector : Connector σ) (baseUrl apiKey : String)
    (version : Version) (run : Run σ) :
    (afterOpening connector baseUrl apiKey version run).contacts =
      run.contacts ++ [.opened baseUrl apiKey version] := by
  rw [afterOpening, Run.contacts_recorded, filterMap_contact?_logged, List.append_nil]
  exact Run.contacts_recorded run _

/-- Asking for a channel logs what its opening logs. -/
theorem log_afterOpening (connector : Connector σ) (baseUrl apiKey : String) (version : Version)
    (run : Run σ) :
    (afterOpening connector baseUrl apiKey version run).log =
      run.log ++ (connector baseUrl apiKey version run.world).1.log := by
  unfold afterOpening Run.recorded Run.log
  rw [List.filterMap_append, List.filterMap_append, List.filterMap_map]
  exact congr (congrArg _ (List.append_nil _)) List.filterMap_some

end Action

namespace Session

variable {σ : Type} (s : Session σ)

/-- The run after a call. -/
def afterCall (method : Method) (request : Request) (run : Run σ) : Run σ :=
  let answer := s.channel method request run.world
  { world := answer.2
    issued := run.issued + 1
    journal := run.journal ++ [
      .logged (.started method (run.issued + 1) s.baseUrl request),
      .called (run.issued + 1) method request,
      .logged (.ended method (run.issued + 1) answer.1)] }

/-- The world after a call is the one that the channel leaves. -/
@[simp] theorem world_afterCall (method : Method) (request : Request) (run : Run σ) :
    (s.afterCall method request run).world = (s.channel method request run.world).2 := rfl

/-- A call is one contact. -/
@[simp] theorem contacts_afterCall (method : Method) (request : Request) (run : Run σ) :
    (s.afterCall method request run).contacts = run.contacts ++ [.called method request] :=
  List.filterMap_append

/-- A call is one call. -/
@[simp] theorem calls_afterCall (method : Method) (request : Request) (run : Run σ) :
    (s.afterCall method request run).calls = run.calls ++ [(method, request)] :=
  Run.calls_of_contacts (s.contacts_afterCall method request run)

/-- A call logs its beginning and its end. -/
theorem log_afterCall (method : Method) (request : Request) (run : Run σ) :
    (s.afterCall method request run).log = run.log ++ [
      .started method (run.issued + 1) s.baseUrl request,
      .ended method (run.issued + 1) (s.channel method request run.world).1] :=
  List.filterMap_append

/-- The bytes that an answer brings, or the failed call. -/
def bytesOf (method : Method) (request : Request) (answer : Except TransportError Bytes) :
    Except CallError Bytes :=
  answer.mapError fun e ↦ .ofRequest method request (.transport e)

/-- A call brings the bytes of the answer. -/
theorem call_apply (method : Method) (request : Request) (run : Run σ) :
    s.call method request run =
      (bytesOf method request (s.channel method request run.world).1,
        s.afterCall method request run) := by
  simp only [call, Action.bind_apply, Action.takeNumber_apply, Action.log_apply,
    Action.carry_apply, Action.pure_apply, Run.recorded, List.append_assoc, List.cons_append,
    List.nil_append]
  rfl

/-- The value that an answer brings. -/
def valueOf (method : Method) (request : Request) (answer : Except TransportError Bytes) :
    Except CallError Json.Value :=
  (bytesOf method request answer).bind (decode method request)

/-- A failed exchange brings no value. -/
theorem valueOf_error (method : Method) (request : Request) (e : TransportError) :
    valueOf method request (.error e) =
      .error (.ofRequest method request (.transport e)) := rfl

/-- A body brings the value that it spells. -/
theorem valueOf_ok {body : Bytes} {v : Json.Value} (h : Json.Value.parse body = .ok v)
    (method : Method) (request : Request) : valueOf method request (.ok body) = .ok v := by
  show decode method request body = .ok v
  rw [decode, h]
  rfl

/-- A body that spells no value brings none. -/
theorem valueOf_notJson {body : Bytes} {e : Json.Error} (h : Json.Value.parse body = .error e)
    (method : Method) (request : Request) :
    valueOf method request (.ok body) =
      .error (.ofRequest method request (.ofJsonError e)) := by
  show decode method request body = _
  rw [decode, h]
  rfl

/-- A call for a value brings the value of the answer. -/
theorem callJson_apply (method : Method) (request : Request) (run : Run σ) :
    s.callJson method request run =
      (valueOf method request (s.channel method request run.world).1,
        s.afterCall method request run) := by
  rw [callJson, Action.bind_apply, call_apply]
  rfl

end Session

end RegionClient
