import RegionClient.Proofs.Resource.Step

/-!
# What operations on resources promise

The promise of every operation on resources: which arguments it refuses, and otherwise the one call
that it makes, what an answer brings, and the class of its failures. Main statements: an operation
either refuses or has a promise (`refuses_or_promises`), and it does what it promises, for every
answer (`keeps_promise`).
-/

namespace RegionClient

open Text

/-! ## Parameters -/

/-- The parameter for a text, which is left out if it is empty. -/
def given (key value : String) : List (String × String) :=
  if value = "" then [] else [(key, value)]

/-- The parameters for texts, of which the empty ones are left out. -/
def givenAll (key : String) (values : List String) : List (String × String) :=
  values.flatMap (given key)

/-- The parameter for a number in decimal digits, which is left out if it is zero. -/
def counted (key : String) (n : UInt32) : List (String × String) :=
  if n = 0 then [] else [(key, String.ofList (Numeral.decimal n.toNat))]

/-- The parameter for a flag, which is left out unless it is set. -/
def flagged (key : String) (flag : Bool) : List (String × String) :=
  if flag then [(key, "true")] else []

namespace Params

private theorem toList_addText_given (p : Params) (key value : String) :
    (p.addText key value).toList = p.toList ++ given key value := by
  rw [toList_addText, given]
  by_cases h : value = ""
  · rw [h]
    rfl
  · rw [if_neg h, if_neg (mt String.isEmpty_iff.mp h)]

private theorem toList_addTexts_given (p : Params) (key : String) (values : List String) :
    (p.addTexts key values).toList = p.toList ++ givenAll key values := by
  induction values generalizing p with
  | nil => simp [addTexts, givenAll]
  | cons value values ih =>
    have hstep : p.addTexts key (value :: values) = (p.addText key value).addTexts key values := rfl
    rw [hstep, ih, toList_addText_given, List.append_assoc]
    rfl

private theorem toList_addCount_counted (p : Params) (key : String) (n : UInt32) :
    (p.addCount key n.toNat).toList = p.toList ++ counted key n := by
  unfold addCount counted
  by_cases h : n = 0
  · rw [h]
    exact (List.append_nil _).symm
  · have hn : ¬ (n.toNat : Int) = 0 := by
      intro hzero
      apply h
      apply UInt32.toNat_inj.mp
      exact Int.ofNat_eq_zero.mp hzero
    rw [if_neg h, if_neg hn]
    rfl

private theorem toList_addFlag_flagged (p : Params) (key : String) (flag : Bool) :
    (p.addFlag key flag).toList = p.toList ++ flagged key flag := toList_addFlag p key flag

private theorem eq_of_toList {p : Params} {list : List (String × String)} (h : p.toList = list) :
    p = ⟨list⟩ := congrArg Params.mk h

private theorem toList_empty : empty.toList = [] := rfl

end Params

/-! ## Promises -/

/-- What the answer to a call brings if it succeeds. -/
inductive Brings where
  | acknowledgement
  | nothing
  | document
  | list (context : String)
  deriving DecidableEq

/-- What an operation promises: the call that it makes, what the answer brings, and the class of
its failures, if it has one. -/
structure Promise where
  method : Method
  path : String
  op : Option String := none
  params : List (String × String) := []
  file : Option FilePart := none
  brings : Brings
  operations : Option OperationClass := none

namespace Promise

/-- The request of a promised call. -/
def request (p : Promise) : Request :=
  { path := p.path, op := p.op, params := ⟨p.params⟩, file := p.file }

/-- The error of a promised call that failed. -/
def failed (p : Promise) (failure : CallFailure) : Error :=
  let call : CallError := ⟨p.method.name, p.path, p.op, failure⟩
  match p.operations with
  | some operations => operations.translate call
  | none => .unexpected call.describe (some call)

/-- What comes of an answer. -/
inductive Comes (p : Promise) : Except TransportError Bytes → Except Error Yield → Prop
  | lost (e : TransportError) : Comes p (.error e) (.error (p.failed (.transport e)))
  | acknowledged {body : Bytes} (h : p.brings = .acknowledgement) :
      Comes p (.ok body) (.ok .nothing)
  | notJson {body : Bytes} {e : Json.Error} (h : p.brings ≠ .acknowledgement)
      (hparse : Json.Value.parse body = .error e) :
      Comes p (.ok body) (.error (p.failed (.decode e.message)))
  | done {body : Bytes} {v : Json.Value} (h : p.brings = .nothing)
      (hparse : Json.Value.parse body = .ok v) : Comes p (.ok body) (.ok .nothing)
  | document {body : Bytes} {v : Json.Value} (h : p.brings = .document)
      (hparse : Json.Value.parse body = .ok v) : Comes p (.ok body) (.ok (.value v))
  | items {body : Bytes} {context : String} {items : List Json.Value}
      (h : p.brings = .list context) (hparse : Json.Value.parse body = .ok (.array items)) :
      Comes p (.ok body) (.ok (.items items))
  | notList {body : Bytes} {context : String} {v : Json.Value} (h : p.brings = .list context)
      (hparse : Json.Value.parse body = .ok v) (hlist : ∀ items, v ≠ .array items) :
      Comes p (.ok body)
        (.error (.deserialization context (.mismatch "response" "list of any" v.typeName)))

end Promise

/-- The bytes that an upload comes to: its content, or what its source yields. -/
inductive Upload.Holds (upload : Upload) : Bytes → Prop
  | content {bytes : Bytes} (h : upload.content = some bytes) : Holds upload bytes
  | source {source : Source} {bytes : Bytes} (h : upload.content = none)
      (hsource : upload.source = some source)
      (hread : source.read upload.length.toNat = .ok bytes) : Holds upload bytes

namespace Step

/-- The steps that are operations on resources. -/
def IsOperation : Step → Prop
  | get _ | getQuery .. | getOp .. | post .. | postFile .. | delete _ => False
  | _ => True

/-- The arguments that operations refuse. -/
inductive Refuses : Step → Error → Prop
  | noAddress {device : NewDevice} (h : device.macAddresses = []) :
      Refuses (createDevice device) (.badRequest "at least one MAC address must be specified" none)
  | noNameToGet : Refuses (getFile "") (.notValid "missing filename")
  | noNameToDelete : Refuses (deleteFile "") (.notValid "missing filename")
  | invalid {upload : Upload} {e : Error} (h : upload.validate = .error e) :
      Refuses (addFile upload) e
  | unreadable {upload : Upload} {source : Source} {message : String}
      (hvalid : upload.validate = .ok ()) (h : upload.content = none)
      (hsource : upload.source = some source)
      (hread : source.read upload.length.toNat = .error message) :
      Refuses (addFile upload) (.io "cannot read file content" message)

/-- The promises of operations. -/
inductive Promises : Step → Promise → Prop
  | bootResources :
      Promises bootResources
        { method := .get, path := "boot-resources/", brings := .list "boot resources" }
  | fabrics :
      Promises fabrics { method := .get, path := "fabrics/", brings := .list "fabrics" }
  | spaces : Promises spaces { method := .get, path := "spaces/", brings := .list "spaces" }
  | zones : Promises zones { method := .get, path := "zones/", brings := .list "zones" }
  | devices (f : DeviceFilter) :
      Promises (devices f)
        { method := .get
          path := "devices/"
          params := given "hostname" f.hostname ++ givenAll "mac_address" f.macAddresses ++
            givenAll "id" f.systemIds ++ given "domain" f.domain ++ given "zone" f.zone ++
            given "agent_name" f.agentName
          brings := .list "devices" }
  | machines (f : MachineFilter) :
      Promises (machines f)
        { method := .get
          path := "machines/"
          params := givenAll "hostname" f.hostnames ++ givenAll "mac_address" f.macAddresses ++
            givenAll "id" f.systemIds ++ given "domain" f.domain ++ given "zone" f.zone ++
            given "agent_name" f.agentName
          brings := .list "machines" }
  | files (beginning : String) :
      Promises (files beginning)
        { method := .get
          path := "files/"
          params := given "prefix" beginning
          brings := .list "files" }
  | createDevice {d : NewDevice} (h : d.macAddresses ≠ []) :
      Promises (createDevice d)
        { method := .post
          path := "devices/"
          op := some "create"
          params := given "hostname" d.hostname ++ given "domain" d.domain ++
            givenAll "mac_addresses" d.macAddresses ++ given "parent" d.parent
          brings := .document
          operations := some .creation }
  | allocateMachine (c : MachineConstraints) :
      Promises (allocateMachine c)
        { method := .post
          path := "machines/"
          op := some "allocate"
          params := given "name" c.hostname ++ given "arch" c.architecture ++
            counted "cpu_count" c.minCpuCount ++ counted "mem" c.minMemory ++
            givenAll "tags" c.tags ++ givenAll "not_tags" c.notTags ++
            givenAll "networks" c.networks ++ givenAll "not_networks" c.notNetworks ++
            given "zone" c.zone ++ givenAll "not_in_zone" c.notInZone ++
            given "agent_name" c.agentName ++ given "comment" c.comment ++
            flagged "dry_run" c.dryRun
          brings := .document
          operations := some .machineAllocation }
  | releaseMachines (r : MachineRelease) :
      Promises (releaseMachines r)
        { method := .post
          path := "machines/"
          op := some "release"
          params := givenAll "machines" r.systemIds ++ given "comment" r.comment
          brings := .nothing
          operations := some .machineRelease }
  | getFile {name : String} (h : name ≠ "") :
      Promises (getFile name)
        { method := .get
          path := ensureTrailingSlash ("files/" ++ name)
          brings := .document
          operations := some .fileFetch }
  | addFile {upload : Upload} {content : Bytes} (hvalid : upload.validate = .ok ())
      (hholds : upload.Holds content) :
      Promises (addFile upload)
        { method := .post
          path := "files/"
          op := some "create"
          params := [("filename", upload.filename)]
          file := some ⟨"file", content⟩
          brings := .acknowledgement
          operations := some .fileCreation }
  | deleteFile {name : String} (h : name ≠ "") :
      Promises (deleteFile name)
        { method := .delete
          path := ensureTrailingSlash ("files/" ++ name)
          brings := .acknowledgement }

end Step

/-! ## What is asked -/

/-- The parameters of a device filter. -/
theorem DeviceFilter.params_eq (f : DeviceFilter) :
    f.params = ⟨given "hostname" f.hostname ++ givenAll "mac_address" f.macAddresses ++
      givenAll "id" f.systemIds ++ given "domain" f.domain ++ given "zone" f.zone ++
      given "agent_name" f.agentName⟩ := by
  apply Params.eq_of_toList
  simp only [DeviceFilter.params, Params.toList_addText_given, Params.toList_addTexts_given,
    Params.toList_empty, List.nil_append]

/-- The parameters of a machine filter. -/
theorem MachineFilter.params_eq (f : MachineFilter) :
    f.params = ⟨givenAll "hostname" f.hostnames ++ givenAll "mac_address" f.macAddresses ++
      givenAll "id" f.systemIds ++ given "domain" f.domain ++ given "zone" f.zone ++
      given "agent_name" f.agentName⟩ := by
  apply Params.eq_of_toList
  simp only [MachineFilter.params, Params.toList_addText_given, Params.toList_addTexts_given,
    Params.toList_empty, List.nil_append]

/-- The parameters of a new device. -/
theorem NewDevice.params_eq (d : NewDevice) :
    d.params = ⟨given "hostname" d.hostname ++ given "domain" d.domain ++
      givenAll "mac_addresses" d.macAddresses ++ given "parent" d.parent⟩ := by
  apply Params.eq_of_toList
  simp only [NewDevice.params, Params.toList_addText_given, Params.toList_addTexts_given,
    Params.toList_empty, List.nil_append]

/-- The parameters of constraints. -/
theorem MachineConstraints.params_eq (c : MachineConstraints) :
    c.params = ⟨given "name" c.hostname ++ given "arch" c.architecture ++
      counted "cpu_count" c.minCpuCount ++ counted "mem" c.minMemory ++
      givenAll "tags" c.tags ++ givenAll "not_tags" c.notTags ++
      givenAll "networks" c.networks ++ givenAll "not_networks" c.notNetworks ++
      given "zone" c.zone ++ givenAll "not_in_zone" c.notInZone ++
      given "agent_name" c.agentName ++ given "comment" c.comment ++
      flagged "dry_run" c.dryRun⟩ := by
  apply Params.eq_of_toList
  simp only [MachineConstraints.params, Params.toList_addText_given, Params.toList_addTexts_given,
    Params.toList_addCount_counted, Params.toList_addFlag_flagged, Params.toList_empty,
    List.nil_append]

/-- The parameters of a release. -/
theorem MachineRelease.params_eq (r : MachineRelease) :
    r.params = ⟨givenAll "machines" r.systemIds ++ given "comment" r.comment⟩ := by
  apply Params.eq_of_toList
  simp only [MachineRelease.params, Params.toList_addText_given, Params.toList_addTexts_given,
    Params.toList_empty, List.nil_append]

namespace Upload

private theorem bytes_of_holds {upload : Upload} {content : Bytes} (h : upload.Holds content) :
    upload.bytes = .ok content := by
  unfold bytes
  cases h with
  | content h => rw [h]
  | source h hsource hread =>
    rw [h, hsource]
    dsimp only
    rw [hread]
    rfl

private theorem holds_or_unreadable {upload : Upload} (h : upload.validate = .ok ()) :
    (∃ content, upload.Holds content) ∨
      ∃ source message, upload.content = none ∧ upload.source = some source ∧
        source.read upload.length.toNat = .error message := by
  cases hcontent : upload.content with
  | some content => exact .inl ⟨content, .content hcontent⟩
  | none =>
    cases hsource : upload.source with
    | none =>
      -- Without content and source, the upload is not valid.
      unfold validate at h
      rw [hcontent, hsource] at h
      split at h
      · cases h
      · split at h <;> cases h
    | some source =>
      cases hread : source.read upload.length.toNat with
      | ok content => exact .inl ⟨content, .source hcontent hsource hread⟩
      | error message => exact .inr ⟨source, message, rfl, rfl, hread⟩

end Upload

namespace Step

/-- A step that is no operation makes a call. -/
theorem exists_plan_of_not_isOperation {step : Step} (h : ¬ step.IsOperation) :
    ∃ method request, step.plan = .ok (method, request) := by
  cases step with
  | get _ | getQuery _ _ | getOp _ _ | post _ _ _ | postFile _ _ _ _ | delete _ =>
    exact ⟨_, _, rfl⟩
  | _ => exact absurd trivial h

/-- An operation either refuses its arguments or has a promise. -/
theorem refuses_or_promises {step : Step} (h : step.IsOperation) :
    (∃ e, step.Refuses e) ∨ ∃ p, step.Promises p := by
  cases step with
  | get _ | getQuery _ _ | getOp _ _ | post _ _ _ | postFile _ _ _ _ | delete _ => cases h
  | bootResources => exact .inr ⟨_, .bootResources⟩
  | fabrics => exact .inr ⟨_, .fabrics⟩
  | spaces => exact .inr ⟨_, .spaces⟩
  | zones => exact .inr ⟨_, .zones⟩
  | devices f => exact .inr ⟨_, .devices f⟩
  | machines f => exact .inr ⟨_, .machines f⟩
  | files beginning => exact .inr ⟨_, .files beginning⟩
  | allocateMachine c => exact .inr ⟨_, .allocateMachine c⟩
  | releaseMachines r => exact .inr ⟨_, .releaseMachines r⟩
  | createDevice d =>
    by_cases hempty : d.macAddresses = []
    · exact .inl ⟨_, .noAddress hempty⟩
    · exact .inr ⟨_, .createDevice hempty⟩
  | getFile name =>
    by_cases hempty : name = ""
    · subst hempty
      exact .inl ⟨_, .noNameToGet⟩
    · exact .inr ⟨_, .getFile hempty⟩
  | deleteFile name =>
    by_cases hempty : name = ""
    · subst hempty
      exact .inl ⟨_, .noNameToDelete⟩
    · exact .inr ⟨_, .deleteFile hempty⟩
  | addFile upload =>
    cases hvalid : upload.validate with
    | error e => exact .inl ⟨e, .invalid hvalid⟩
    | ok _ =>
      rcases Upload.holds_or_unreadable hvalid with ⟨content, hholds⟩ | ⟨source, message, hread⟩
      · exact .inr ⟨_, .addFile hvalid hholds⟩
      · exact .inl ⟨_, .unreadable hvalid hread.1 hread.2.1 hread.2.2⟩

/-- What is refused has no plan. -/
theorem plan_of_refuses {step : Step} {e : Error} (h : step.Refuses e) : step.plan = .error e := by
  cases h with
  | noAddress h => rw [plan, h]; rfl
  | noNameToGet => rfl
  | noNameToDelete => rfl
  | invalid h => rw [plan, Upload.take, h]; rfl
  | unreadable hvalid h hsource hread =>
    rw [plan, Upload.take, hvalid, Upload.bytes, h, hsource]
    dsimp only [bind, Except.bind]
    rw [hread]
    rfl

/-- What is promised is planned. -/
theorem plan_of_promises {step : Step} {p : Promise} (h : step.Promises p) :
    step.plan = .ok (p.method, p.request) := by
  cases h with
  | bootResources | fabrics | spaces | zones => rfl
  | devices f => rw [plan, f.params_eq]; rfl
  | machines f => rw [plan, f.params_eq]; rfl
  | files beginning =>
    have hparams : Params.empty.addText "prefix" beginning = ⟨given "prefix" beginning⟩ :=
      Params.eq_of_toList (Params.toList_addText_given ..)
    rw [plan, hparams]
    rfl
  | createDevice h =>
    rw [plan, if_neg (mt List.isEmpty_iff.mp h), NewDevice.params_eq]
    rfl
  | allocateMachine c => rw [plan, c.params_eq]; rfl
  | releaseMachines r => rw [plan, r.params_eq]; rfl
  | getFile h => exact if_neg (mt String.isEmpty_iff.mp h)
  | deleteFile h => exact if_neg (mt String.isEmpty_iff.mp h)
  | addFile hvalid hholds =>
    rw [plan, Upload.take, hvalid]
    dsimp only [bind, Except.bind]
    rw [Upload.bytes_of_holds hholds]
    rfl

end Step

/-! ## What comes of an answer -/

namespace Promise

variable {p : Promise} {answer : Except TransportError Bytes} {out : Except Error Yield}

/-- What an answer must be for an operation to succeed: a body, which is JSON unless it is only an
acknowledgement, and a list if one is promised. -/
def IsKept (p : Promise) (answer : Except TransportError Bytes) : Prop :=
  ∃ body, answer = .ok body ∧ (p.brings = .acknowledgement ∨
    ∃ v, Json.Value.parse body = .ok v ∧
      ∀ context, p.brings = .list context → ∃ items, v = .array items)

/-- An operation succeeds just if the answer is what it must be. -/
theorem Comes.isOk_iff (h : p.Comes answer out) : (∃ y, out = .ok y) ↔ p.IsKept answer := by
  cases h with
  | lost e =>
    constructor
    · rintro ⟨y, hy⟩
      cases hy
    · rintro ⟨body, hbody, -⟩
      cases hbody
  | acknowledged hbrings => exact ⟨fun _ ↦ ⟨_, rfl, .inl hbrings⟩, fun _ ↦ ⟨_, rfl⟩⟩
  | notJson hbrings hparse =>
    constructor
    · rintro ⟨y, hy⟩
      cases hy
    · rintro ⟨body, hbody, hack | ⟨v, hv, -⟩⟩
      · exact absurd hack hbrings
      · obtain rfl := Except.ok.inj hbody
        cases hparse.symm.trans hv
  | done hbrings hparse | document hbrings hparse =>
    refine ⟨fun _ ↦ ⟨_, rfl, .inr ⟨_, hparse, fun context hlist ↦ ?_⟩⟩, fun _ ↦ ⟨_, rfl⟩⟩
    cases hbrings.symm.trans hlist
  | items hbrings hparse =>
    exact ⟨fun _ ↦ ⟨_, rfl, .inr ⟨_, hparse, fun _ _ ↦ ⟨_, rfl⟩⟩⟩, fun _ ↦ ⟨_, rfl⟩⟩
  | notList hbrings hparse hlist =>
    constructor
    · rintro ⟨y, hy⟩
      cases hy
    · rintro ⟨body, hbody, hack | ⟨v, hv, hkept⟩⟩
      · cases hbrings.symm.trans hack
      · obtain rfl := Except.ok.inj hbody
        obtain rfl := Except.ok.inj (hparse.symm.trans hv)
        obtain ⟨items, rfl⟩ := hkept _ hbrings
        exact absurd rfl (hlist items)

private theorem comes_value {translate : CallError → Error}
    {yields : Json.Value → Except Error Yield} (hbrings : p.brings ≠ .acknowledgement)
    (hfailed : ∀ failure, translate (.ofRequest p.method p.request failure) = p.failed failure)
    (hyields : ∀ {body v}, Json.Value.parse body = .ok v → p.Comes (.ok body) (yields v))
    (answer : Except TransportError Bytes) :
    p.Comes answer
      (((Session.valueOf p.method p.request answer).mapError translate).bind yields) := by
  cases answer with
  | error e =>
    rw [Session.valueOf_error]
    show p.Comes _ (.error (translate _))
    rw [hfailed]
    exact .lost e
  | ok body =>
    cases hparse : Json.Value.parse body with
    | error e =>
      rw [Session.valueOf_notJson hparse]
      show p.Comes _ (.error (translate _))
      rw [hfailed]
      exact .notJson hbrings hparse
    | ok v =>
      rw [Session.valueOf_ok hparse]
      exact hyields hparse

private theorem comes_bytes {translate : CallError → Error} (hbrings : p.brings = .acknowledgement)
    (hfailed : ∀ failure, translate (.ofRequest p.method p.request failure) = p.failed failure)
    (answer : Except TransportError Bytes) :
    p.Comes answer
      (((Session.bytesOf p.method p.request answer).mapError translate).map fun _ ↦ .nothing) := by
  cases answer with
  | error e =>
    show p.Comes _ (.error (translate _))
    rw [hfailed]
    exact .lost e
  | ok body => exact .acknowledged hbrings

private theorem comes_itemsOf {context : String} {body : Bytes} {v : Json.Value}
    (hbrings : p.brings = .list context) (hparse : Json.Value.parse body = .ok v) :
    p.Comes (.ok body) ((Session.itemsOf context v).map .items) := by
  cases v with
  | array items => exact .items hbrings hparse
  | null | bool _ | number _ | string _ | object _ =>
    exact .notList hbrings hparse fun _ ↦ nofun

end Promise

namespace Step

private theorem ofError_eq_mapError {α : Type} (yields : α → Yield) (x : Except Error α) :
    ofError yields x = (x.bind fun a ↦ .ok (yields a)).mapError .error := by
  cases x <;> rfl

private theorem listed_eq_mapError (context : String) (request : Request)
    (answer : Except TransportError Bytes) :
    listed context request answer =
      (((Session.valueOf .get request answer).mapError Error.ofUnexpected).bind
        fun v ↦ (Session.itemsOf context v).map .items).mapError .error := by
  unfold listed
  cases Session.valueOf .get request answer with
  | error e => rfl
  | ok v =>
    show ofError .items (Session.itemsOf context v) =
      ((Session.itemsOf context v).map .items).mapError .error
    cases Session.itemsOf context v <;> rfl

/-- What a step makes of an answer comes of its promise. -/
theorem comes_outcome {step : Step} {p : Promise} (h : step.Promises p)
    (answer : Except TransportError Bytes) :
    ∃ out, p.Comes answer out ∧
      step.outcome p.method p.request answer = out.mapError .error := by
  cases h with
  | bootResources | fabrics | spaces | zones | devices _ | machines _ | files _ =>
    refine ⟨_, Promise.comes_value ?_ (fun _ ↦ rfl) (Promise.comes_itemsOf rfl) answer,
      listed_eq_mapError _ _ answer⟩
    exact nofun
  | createDevice _ | allocateMachine _ | getFile _ =>
    refine ⟨_, Promise.comes_value ?_ (fun _ ↦ rfl) (.document rfl) answer,
      ofError_eq_mapError _ _⟩
    exact nofun
  | releaseMachines _ =>
    refine ⟨_, Promise.comes_value ?_ (fun _ ↦ rfl) (.done rfl) answer, ofError_eq_mapError _ _⟩
    exact nofun
  | addFile _ _ | deleteFile _ =>
    exact ⟨_, Promise.comes_bytes rfl (fun _ ↦ rfl) answer, ofError_eq_mapError _ _⟩

/-- What has a promise is not refused. -/
theorem not_refuses_of_promises {step : Step} {p : Promise} (h : step.Promises p) :
    ¬ ∃ e, step.Refuses e := by
  rintro ⟨e, hrefuses⟩
  cases (plan_of_promises h).symm.trans (plan_of_refuses hrefuses)

/-- An operation that refuses its arguments leaves the run as it is. Every other one makes the call
that it promises, and nothing but what it promises comes of the answer; it succeeds just if the
answer is what it must be. -/
theorem keeps_promise {σ : Type} (s : Session σ) (step : Step) (h : step.IsOperation)
    (run : Run σ) :
    (∃ e, step.Refuses e ∧ step.perform s run = (.error (.error e), run)) ∨
      (¬ ∃ e, step.Refuses e) ∧ ∃ p, step.Promises p ∧
        let answer := s.channel p.method p.request run.world
        (step.perform s run).2.calls = run.calls ++ [(p.method, p.request)] ∧
        (step.perform s run).2.world = answer.2 ∧
        (∃ out, p.Comes answer.1 out ∧ (step.perform s run).1 = out.mapError .error) ∧
        ((∃ y, (step.perform s run).1 = .ok y) ↔ p.IsKept answer.1) := by
  rcases refuses_or_promises h with ⟨e, hrefuses⟩ | ⟨p, hpromises⟩
  · exact .inl ⟨e, hrefuses, perform_of_refused s (plan_of_refuses hrefuses) run⟩
  · refine .inr ⟨not_refuses_of_promises hpromises, p, hpromises, ?_⟩
    dsimp only
    rw [perform_of_planned s (plan_of_promises hpromises)]
    obtain ⟨out, hcomes, houtcome⟩ :=
      comes_outcome hpromises (s.channel p.method p.request run.world).1
    refine ⟨s.calls_afterCall .., rfl, ⟨out, hcomes, houtcome⟩, ?_⟩
    rw [houtcome, ← hcomes.isOk_iff]
    cases out with
    | error e =>
      constructor
      · rintro ⟨y, hy⟩
        cases hy
      · rintro ⟨y, hy⟩
        cases hy
    | ok y =>
      constructor
      · exact fun _ ↦ ⟨y, rfl⟩
      · exact fun _ ↦ ⟨y, rfl⟩

/-- Fabrics are asked for once, and nothing comes of an answer that is too late. -/
theorem perform_fabrics_late :
    let s : Session Unit :=
      { channel := fun _ _ n ↦ (.error (.timeout "late"), n)
        baseUrl := "http://region/MAAS/"
        version := .twoDotOh }
    fabrics.IsOperation ∧
      (fabrics.perform s { world := () }).2.calls = [(.get, { path := "fabrics/" })] ∧
      ¬ ∃ y, (fabrics.perform s { world := () }).1 = .ok y := by
  intro s
  refine ⟨trivial, ?_⟩
  rcases keeps_promise s fabrics trivial { world := () } with
    ⟨e, hrefuses, -⟩ | ⟨-, p, hpromises, hcalls, -, -, hkept⟩
  · cases hrefuses
  · cases hpromises
    refine ⟨hcalls, fun hok ↦ ?_⟩
    obtain ⟨body, hbody, -⟩ := hkept.mp hok
    cases hbody

end Step

end RegionClient
