import RegionClient.Http.Endpoint
import RegionClient.Proofs.Resource.Contract
import RegionClient.Session.Negotiation
import RegionClient.Session.Scripted

/-!
# The numbers of requests

Whether a run accounts for its requests. A mark is an entry of the journal that bears the number of
a request: the call itself, and the log events of its beginning and its end, which are known by
their messages. A run is tallied if its marks are those of the calls one to the last, each between
its two events. Sessions stand side by side at desks, one to a desk, and share the world. Main
statements: a call adds the next round of marks (`IsTallied.afterCall`), everything that a session
does keeps the tally (`keepsTally_negotiate`, `keepsTally_perform`), and every desk is tallied after
any turns at any desks (`isTallied_turns`).
-/

namespace RegionClient

/-! ## Marks -/

/-- An entry of the journal with the number of a request. -/
inductive Mark where
  | begun (number : String)
  | called (number : UInt64)
  | ended (number : String)
  deriving DecidableEq

/-- The number that a log event shows. -/
def LogEvent.shownNumber (e : LogEvent) : String := (e.fields.lookup "request").getD ""

/-- The mark of a log event, which its message tells. -/
def LogEvent.mark? (e : LogEvent) : Option Mark :=
  if e.message ∈ ["GET request", "POST request", "DELETE request"] then some (.begun e.shownNumber)
  else if e.message ∈ ["response", "response complete", "response error"] then
    some (.ended e.shownNumber)
  else none

/-- The mark of an entry. -/
def Event.mark? : Event → Option Mark
  | opened .. => none
  | called number _ _ => some (.called number)
  | logged e => e.mark?

/-- The marks of the request with a number, which wraps at 64 bits. -/
def roundOf (number : Nat) : List Mark :=
  let shown := String.ofList (Nat.toDigits 16 (number % UInt64.size))
  [.begun shown, .called (.ofNat number), .ended shown]

/-- The marks of the first requests. -/
def tally (count : Nat) : List Mark := (List.range count).flatMap fun k ↦ roundOf (k + 1)

namespace Run

variable {σ : Type}

/-- The marks of a run, in order. -/
def marks (run : Run σ) : List Mark := run.journal.filterMap Event.mark?

/-- The requests of a run are numbered from one on, and none is left open. -/
structure IsTallied (run : Run σ) : Prop where
  issued : run.issued = .ofNat run.calls.length
  marks : run.marks = tally run.calls.length

end Run

/-! ## What keeps the tally -/

private theorem LogEvent.mark?_started (method : Method) (number : UInt64) (baseUrl : String)
    (request : Request) :
    (started method number baseUrl request).mark? = some (.begun (printNumber number)) := by
  cases method <;> rfl

private theorem LogEvent.mark?_ended (method : Method) (number : UInt64)
    (outcome : Except TransportError Bytes) :
    (ended method number outcome).mark? = some (.ended (printNumber number)) := by
  cases outcome with
  | error e => rfl
  | ok body => cases method <;> rfl

private theorem ofNat_succ (count : Nat) : UInt64.ofNat count + 1 = UInt64.ofNat (count + 1) := by
  rw [UInt64.ofNat_add]
  rfl

private theorem tally_succ (count : Nat) :
    tally (count + 1) = tally count ++ roundOf (count + 1) := by
  rw [tally, List.range_succ, List.flatMap_append, List.flatMap_singleton]
  rfl

private theorem roundOf_eq (number : Nat) :
    roundOf number = [.begun (LogEvent.printNumber (.ofNat number)), .called (.ofNat number),
      .ended (LogEvent.printNumber (.ofNat number))] := by
  have hsize : (UInt64.ofNat number).toNat = number % UInt64.size := UInt64.toNat_ofNat'
  rw [roundOf, LogEvent.printNumber, hsize]
  rfl

private theorem Session.marks_afterCall {σ : Type} (s : Session σ) (method : Method)
    (request : Request) (run : Run σ) :
    (s.afterCall method request run).marks = run.marks ++ roundOf (run.issued.toNat + 1) := by
  have hnumber : UInt64.ofNat (run.issued.toNat + 1) = run.issued + 1 := by
    rw [← ofNat_succ, UInt64.ofNat_toNat]
  rw [Run.marks, Session.afterCall, roundOf_eq, hnumber]
  dsimp only
  rw [List.filterMap_append]
  simp only [List.filterMap_cons, List.filterMap_nil, Event.mark?, LogEvent.mark?_started,
    LogEvent.mark?_ended]
  rfl

namespace Run

variable {σ : Type} {run : Run σ}

private theorem calls_recorded_of_unmarked {events : List Event}
    (h : ∀ event ∈ events, event.mark? = none) : (run.recorded events).calls = run.calls := by
  have hnone : (events.filterMap Event.contact?).filterMap Contact.call? = [] := by
    rw [List.filterMap_filterMap, List.filterMap_eq_nil_iff]
    intro event hevent
    cases event with
    | opened _ _ _ => rfl
    | called _ _ _ => cases h _ hevent
    | logged _ => rfl
  rw [Run.calls_of_contacts (run.contacts_recorded events), hnone, List.append_nil]

namespace IsTallied

/-- A run is tallied at first. -/
theorem fresh (world : σ) : IsTallied ({ world } : Run σ) := ⟨rfl, rfl⟩

/-- The tally is not told by the world. -/
theorem moved (h : run.IsTallied) (world : σ) : ({ run with world } : Run σ).IsTallied :=
  ⟨h.issued, h.marks⟩

/-- Entries without marks keep the tally. -/
theorem recorded (h : run.IsTallied) {events : List Event}
    (hevents : ∀ event ∈ events, event.mark? = none) : (run.recorded events).IsTallied := by
  have hcalls : (run.recorded events).calls = run.calls := calls_recorded_of_unmarked hevents
  have hmarks : (run.recorded events).marks = run.marks := by
    have hnone : events.filterMap Event.mark? = [] := List.filterMap_eq_nil_iff.mpr hevents
    rw [Run.marks, Run.recorded, List.filterMap_append, hnone, List.append_nil]
    rfl
  constructor
  · rw [hcalls]
    exact h.issued
  · rw [hmarks, hcalls]
    exact h.marks

/-- A call adds the next round of marks. -/
theorem afterCall (h : run.IsTallied) (s : Session σ) (method : Method) (request : Request) :
    (s.afterCall method request run).IsTallied := by
  have hnumber : run.issued + 1 = .ofNat (run.calls.length + 1) := by
    rw [h.issued, ofNat_succ]
  have hlength : (s.afterCall method request run).calls.length = run.calls.length + 1 := by
    rw [s.calls_afterCall, List.length_append, List.length_singleton]
  have hround : roundOf (run.issued.toNat + 1) = roundOf (run.calls.length + 1) := by
    rw [roundOf_eq, roundOf_eq, ← hnumber, ← ofNat_succ, UInt64.ofNat_toNat]
  constructor
  · rw [hlength]
    exact hnumber
  · rw [s.marks_afterCall, h.marks, hround, hlength, tally_succ]

end IsTallied

end Run

namespace Action

variable {σ α β : Type}

/-- Something that is done keeps the tally of every run. -/
def KeepsTally (x : Action σ α) : Prop := ∀ run, run.IsTallied → (x run).2.IsTallied

/-- A connector logs nothing that passes for the beginning or the end of a request. -/
def IsQuiet (connector : Connector σ) : Prop :=
  ∀ baseUrl apiKey version world,
    ∀ e ∈ (connector baseUrl apiKey version world).1.log, e.mark? = none

private theorem keepsTally_pure (a : α) : KeepsTally (pure a : Action σ α) := fun _ h ↦ h

/-- Two things in a row keep the tally if both do. -/
theorem KeepsTally.bind {x : Action σ α} {f : α → Action σ β} (hx : x.KeepsTally)
    (hf : ∀ a, (f a).KeepsTally) : (x >>= f).KeepsTally :=
  fun run h ↦ hf (x run).1 (x run).2 (hx run h)

private theorem keepsTally_log {e : LogEvent} (h : e.mark? = none) :
    KeepsTally (log e : Action σ Unit) := by
  intro run hrun
  apply hrun.recorded
  intro event hevent
  obtain rfl := List.mem_singleton.mp hevent
  exact h

private theorem keepsTally_openChannel {connector : Connector σ} (h : IsQuiet connector)
    (baseUrl apiKey : String) (version : Version) :
    KeepsTally (openChannel connector baseUrl apiKey version) := by
  intro run hrun
  rw [openChannel_apply]
  have hopened : (run.recorded [.opened baseUrl apiKey version]).IsTallied := by
    apply hrun.recorded
    intro event hevent
    obtain rfl := List.mem_singleton.mp hevent
    rfl
  apply (hopened.moved (connector baseUrl apiKey version run.world).2).recorded
  intro event hevent
  obtain ⟨e, he, rfl⟩ := List.mem_map.mp hevent
  exact h baseUrl apiKey version run.world e he

end Action

/-! ## What sessions do -/

namespace Session

variable {σ : Type} (s : Session σ)

private theorem keepsTally_callJson (method : Method) (request : Request) :
    (s.callJson method request).KeepsTally := by
  intro run h
  rw [s.callJson_apply]
  exact h.afterCall s method request

private theorem keepsTally_readCapabilities : s.readCapabilities.KeepsTally := by
  refine (s.keepsTally_callJson _ _).bind fun outcome ↦ ?_
  cases outcome <;> exact Action.keepsTally_pure _

private theorem keepsTally_checkCredentials : s.checkCredentials.KeepsTally := by
  refine (s.keepsTally_callJson _ _).bind fun outcome ↦ ?_
  cases outcome <;> exact Action.keepsTally_pure _

private theorem keepsTally_tryChannel (channel : Channel σ) (baseUrl : String) (version : Version) :
    (tryChannel channel baseUrl version).KeepsTally := by
  refine (keepsTally_readCapabilities _).bind fun outcome ↦ ?_
  cases outcome with
  | error e => exact Action.keepsTally_pure _
  | ok capabilities =>
    refine (keepsTally_checkCredentials _).bind fun identity ↦ ?_
    cases identity <;> exact Action.keepsTally_pure _

section

variable {connector : Connector σ} (h : Action.IsQuiet connector) (args : ControllerArgs)

include h

private theorem keepsTally_attempt (candidate : String) :
    (attempt connector args candidate).KeepsTally := by
  unfold attempt
  cases Version.parse candidate with
  | error e => exact Action.keepsTally_pure _
  | ok version =>
    refine (Action.keepsTally_openChannel h _ _ _).bind fun opened ↦ ?_
    cases opened with
    | error e => exact Action.keepsTally_pure _
    | ok channel => exact keepsTally_tryChannel channel args.baseUrl version

private theorem keepsTally_tryAll (versions candidates : List String) :
    (tryAll connector args versions candidates).KeepsTally := by
  induction candidates with
  | nil => exact Action.keepsTally_pure _
  | cons candidate rest ih =>
    refine (keepsTally_attempt h args candidate).bind fun outcome ↦ ?_
    cases outcome with
    | accepted session =>
      exact (Action.keepsTally_log rfl).bind fun _ ↦ Action.keepsTally_pure _
    | passedOver e => exact (Action.keepsTally_log rfl).bind fun _ ↦ ih
    | aborted e => exact Action.keepsTally_pure _

/-- A negotiation keeps the tally. -/
theorem keepsTally_negotiate (versions : List String) :
    (negotiate connector versions args).KeepsTally := keepsTally_tryAll h args versions versions

end

/-- A session that a configuration describes is negotiated, which keeps the tally. -/
theorem keepsTally_ofConfig {connector : ClientSettings → Connector σ} {config : ControllerConfig}
    (h : Action.IsQuiet (connector config.clientSettings)) :
    (ofConfig connector config).KeepsTally := by
  unfold ofConfig
  cases config.toArgs with
  | error e => exact Action.keepsTally_pure _
  | ok args => exact keepsTally_negotiate h args config.supportedVersions

/-- A step keeps the tally. -/
theorem keepsTally_perform (step : Step) : (step.perform s).KeepsTally := by
  intro run h
  cases hplan : step.plan with
  | error e =>
    rw [step.perform_of_refused s hplan]
    exact h
  | ok call =>
    rw [step.perform_of_planned s hplan]
    exact h.afterCall s call.1 call.2

end Session

/-- Connectors over a network are quiet. -/
theorem Http.isQuiet_connector (settings : ClientSettings) :
    Action.IsQuiet (Http.connector settings) := by
  intro baseUrl apiKey version network e he
  unfold Http.connector at he
  cases hmake : Endpoint.make settings baseUrl apiKey version with
  | error error =>
    rw [hmake] at he
    cases he
  | ok endpoint =>
    rw [hmake] at he
    dsimp only [warnings] at he
    split at he
    · cases he
    · obtain rfl := List.mem_singleton.mp he
      rfl

/-- Scripted connectors are quiet. -/
theorem Script.isQuiet_connector : Action.IsQuiet Script.connector := by
  intro baseUrl apiKey version script e he
  unfold Script.connector at he
  split at he <;> cases he

/-! ## Sessions side by side -/

/-- A desk, at which one session is held: what was negotiated there last, and its account. Clones
of the session share the desk. -/
structure Desk (σ : Type) where
  session : Option (Session σ) := none
  issued : UInt64 := 0
  journal : List Event := []

/-- The run of a desk in a world. -/
def Desk.run {σ : Type} (desk : Desk σ) (world : σ) : Run σ :=
  { world, issued := desk.issued, journal := desk.journal }

/-- What is done at a desk: a session is negotiated, with an account of its own, or the session or a
clone of it takes a step. -/
inductive Turn (σ : Type) where
  | negotiate (connector : Connector σ) (versions : List String) (args : ControllerArgs)
  | configure (connector : ClientSettings → Connector σ) (config : ControllerConfig)
  | perform (step : Step)

/-- The connectors of a turn are quiet. -/
def Turn.IsQuiet {σ : Type} : Turn σ → Prop
  | negotiate connector _ _ => Action.IsQuiet connector
  | configure connector config => Action.IsQuiet (connector config.clientSettings)
  | perform _ => True

/-- The desk and the world after a turn. -/
def Turn.take {σ : Type} (desk : Desk σ) (world : σ) : Turn σ → Desk σ × σ
  | negotiate connector versions args =>
    let r := Session.negotiate connector versions args { world }
    (⟨r.1.toOption, r.2.issued, r.2.journal⟩, r.2.world)
  | configure connector config =>
    let r := Session.ofConfig connector config { world }
    (⟨r.1.toOption, r.2.issued, r.2.journal⟩, r.2.world)
  | perform step =>
    match desk.session with
    | none => (desk, world)
    | some session =>
      let r := step.perform session (desk.run world)
      ({ desk with issued := r.2.issued, journal := r.2.journal }, r.2.world)

/-- Desks that share a world. -/
structure Office (ι σ : Type) where
  world : σ
  desks : ι → Desk σ := fun _ ↦ {}

namespace Office

variable {ι σ : Type} [DecidableEq ι]

/-- The run of the session at a desk. -/
def run (office : Office ι σ) (i : ι) : Run σ := (office.desks i).run office.world

/-- A turn at a desk. -/
def turn (office : Office ι σ) (i : ι) (t : Turn σ) : Office ι σ :=
  let r := t.take (office.desks i) office.world
  { world := r.2, desks := fun j ↦ if j = i then r.1 else office.desks j }

/-- Turns at desks, one after the other. -/
def turns (office : Office ι σ) (list : List (ι × Turn σ)) : Office ι σ :=
  list.foldl (fun office t ↦ office.turn t.1 t.2) office

private theorem desks_turn_of_ne (office : Office ι σ) {i j : ι} (h : j ≠ i) (t : Turn σ) :
    (office.turn i t).desks j = office.desks j := if_neg h

private theorem isTallied_take {desk : Desk σ} {world : σ} (h : (desk.run world).IsTallied)
    {t : Turn σ} (hquiet : t.IsQuiet) (world' : σ) :
    ((t.take desk world).1.run world').IsTallied := by
  cases t with
  | negotiate connector versions args =>
    exact (Session.keepsTally_negotiate hquiet args versions _ (.fresh world)).moved world'
  | configure connector config =>
    exact (Session.keepsTally_ofConfig hquiet _ (.fresh world)).moved world'
  | perform step =>
    unfold Turn.take
    cases hsession : desk.session with
    | none => exact h.moved world'
    | some session => exact (session.keepsTally_perform step _ h).moved world'

/-- A turn leaves every desk tallied. -/
theorem isTallied_turn {office : Office ι σ} (h : ∀ i, (office.run i).IsTallied) (i : ι)
    {t : Turn σ} (hquiet : t.IsQuiet) (j : ι) : ((office.turn i t).run j).IsTallied := by
  unfold run
  by_cases hj : j = i
  · subst hj
    have hdesk : (office.turn j t).desks j = (t.take (office.desks j) office.world).1 := if_pos rfl
    rw [hdesk]
    exact isTallied_take (h j) hquiet _
  · rw [office.desks_turn_of_ne hj]
    exact (h j).moved _

/-- Turns leave every desk tallied. -/
theorem isTallied_turns {office : Office ι σ} (h : ∀ i, (office.run i).IsTallied)
    {list : List (ι × Turn σ)} (hquiet : ∀ t ∈ list, t.2.IsQuiet) (j : ι) :
    ((office.turns list).run j).IsTallied := by
  induction list generalizing office with
  | nil => exact h j
  | cons t rest ih =>
    have hturn := isTallied_turn h t.1 (hquiet t List.mem_cons_self)
    exact ih hturn fun t' ht' ↦ hquiet t' (List.mem_cons_of_mem t ht')

/-- Whatever is done at the desks of an office, each desk accounts for its requests on its own: the
number of requests issued is that of its calls, which are numbered from one on, each between the
event that begins it and the one event that ends it. A turn touches no other desk. A primitive makes
one call under one number, whatever comes of it, and a step that refuses its arguments leaves the
run as it is. -/
theorem requests_accounted (world : σ) (list : List (ι × Turn σ))
    (hquiet : ∀ t ∈ list, t.2.IsQuiet) :
    (∀ i, let run := (Office.turns { world } list : Office ι σ).run i
      run.issued.toNat = run.calls.length % UInt64.size ∧ run.marks = tally run.calls.length) ∧
    (∀ (office : Office ι σ) i j t, j ≠ i → (office.turn i t).desks j = office.desks j) ∧
    ∀ (s : Session σ) (step : Step) (run : Run σ),
      (¬ step.IsOperation → ∃ method request,
        (step.perform s run).2.calls = run.calls ++ [(method, request)] ∧
        (step.perform s run).2.issued = run.issued + 1 ∧
        (step.perform s run).2.marks = run.marks ++ roundOf (run.issued.toNat + 1)) ∧
      ∀ e, step.Refuses e → step.perform s run = (.error (.error e), run) := by
  refine ⟨fun i ↦ ?_, fun office i j t h ↦ office.desks_turn_of_ne h t, fun s step run ↦ ⟨?_, ?_⟩⟩
  · have hfresh : ∀ i, (({ world } : Office ι σ).run i).IsTallied := fun _ ↦ .fresh world
    have htallied := isTallied_turns hfresh hquiet i
    refine ⟨?_, htallied.marks⟩
    rw [htallied.issued]
    exact UInt64.toNat_ofNat'
  · intro hprimitive
    obtain ⟨method, request, hplan⟩ := step.exists_plan_of_not_isOperation hprimitive
    rw [step.perform_of_planned s hplan]
    exact ⟨method, request, s.calls_afterCall .., rfl, s.marks_afterCall ..⟩
  · intro e hrefuses
    exact step.perform_of_refused s (Step.plan_of_refuses hrefuses) run

/-- Two sessions are negotiated in turn, one of which then lists the fabrics. -/
theorem requests_accounted_sideBySide :
    let args : ControllerArgs := ⟨"http://region/MAAS/", "a:b:c"⟩
    let document := Text.Utf8.ofString "\x7b\"capabilities\": []\x7d"
    let list : List (Bool × Turn Script) := [
      (true, .negotiate Script.connector ["2.0"] args),
      (false, .negotiate Script.connector ["2.0"] args),
      (true, .perform .fabrics)]
    let office : Office Bool Script :=
      .turns { world := { answers := [.ok document, .ok document, .ok document, .ok document] } } list
    (∀ t ∈ list, t.2.IsQuiet) ∧
      (office.run true).issued.toNat = 3 ∧ (office.run true).marks = tally 3 ∧
      (office.run false).issued.toNat = 2 ∧ (office.run false).marks = tally 2 := by
  intro args document list office
  have hquiet : ∀ t ∈ list, t.2.IsQuiet := by
    intro t ht
    simp only [list, List.mem_cons, List.not_mem_nil, or_false] at ht
    rcases ht with rfl | rfl | rfl
    · exact Script.isQuiet_connector
    · exact Script.isQuiet_connector
    · exact trivial
  have haccounts := (requests_accounted
    { answers := [.ok document, .ok document, .ok document, .ok document] } list hquiet).1
  have hthree : (office.run true).calls.length = 3 := by decide +kernel
  have htwo : (office.run false).calls.length = 2 := by decide +kernel
  obtain ⟨hissued, hmarks⟩ := haccounts true
  obtain ⟨hissued', hmarks'⟩ := haccounts false
  rw [hthree] at hissued hmarks
  rw [htwo] at hissued' hmarks'
  exact ⟨hquiet, hissued, hmarks, hissued', hmarks'⟩

end Office

end RegionClient
