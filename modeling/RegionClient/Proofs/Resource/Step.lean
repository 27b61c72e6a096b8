import RegionClient.Proofs.Session.Journal
import RegionClient.Resource.Step

/-!
# What a step does

A step is refused for its arguments, or makes one call and makes something of the answer. `plan`
tells which, and `outcome` what is made of the answer. Main statement: performing a step is just
that (`perform_of_refused`, `perform_of_planned`).
-/

namespace RegionClient.Step

/-- The call that a step makes, or why it makes none. -/
def plan : Step → Except Error (Method × Request)
  | get path => .ok (.get, .ofPath path)
  | getQuery path params => .ok (.get, { Request.ofPath path with params })
  | getOp path op => .ok (.get, (Request.ofPath path).withOp op)
  | post path op params => .ok (.post, { (Request.ofPath path).withOp op with params })
  | postFile path op params content =>
    .ok (.post, { (Request.ofPath path).withOp op with params, file := some ⟨"file", content⟩ })
  | delete path => .ok (.delete, .ofPath path)
  | bootResources => .ok (.get, { path := "boot-resources/" })
  | fabrics => .ok (.get, { path := "fabrics/" })
  | spaces => .ok (.get, { path := "spaces/" })
  | zones => .ok (.get, { path := "zones/" })
  | devices filter => .ok (.get, { path := "devices/", params := filter.params })
  | createDevice device =>
    if device.macAddresses.isEmpty then
      .error (.badRequest "at least one MAC address must be specified" none)
    else .ok (.post, { path := "devices/", op := some "create", params := device.params })
  | machines filter => .ok (.get, { path := "machines/", params := filter.params })
  | allocateMachine constraints =>
    .ok (.post, { path := "machines/", op := some "allocate", params := constraints.params })
  | releaseMachines release =>
    .ok (.post, { path := "machines/", op := some "release", params := release.params })
  | files beginning =>
    .ok (.get, { path := "files/", params := Params.empty.addText "prefix" beginning })
  | getFile filename =>
    if filename.isEmpty then .error (.notValid "missing filename")
    else .ok (.get, .ofPath ("files/" ++ filename))
  | addFile upload =>
    upload.take.map fun content ↦
      (.post, {
        path := "files/"
        op := some "create"
        params := ⟨[("filename", upload.filename)]⟩
        file := some ⟨"file", content⟩ })
  | deleteFile filename =>
    if filename.isEmpty then .error (.notValid "missing filename")
    else .ok (.delete, .ofPath ("files/" ++ filename))

/-- The items that the answer to a request for a list brings. -/
def listed (context : String) (request : Request) (answer : Except TransportError Bytes) :
    Except StepError Yield :=
  ofError .items
    (((Session.valueOf .get request answer).mapError Error.ofUnexpected).bind
      (Session.itemsOf context))

/-- What a step makes of the answer to its call. -/
def outcome (step : Step) (method : Method) (request : Request)
    (answer : Except TransportError Bytes) : Except StepError Yield :=
  let value := Session.valueOf method request answer
  let bytes := Session.bytesOf method request answer
  match step with
  | get _ | getQuery .. | getOp .. | post .. => ofCall .value value
  | postFile .. => ofCall .bytes bytes
  | delete _ => ofCall (fun _ ↦ .nothing) bytes
  | bootResources => listed "boot resources" request answer
  | fabrics => listed "fabrics" request answer
  | spaces => listed "spaces" request answer
  | zones => listed "zones" request answer
  | devices _ => listed "devices" request answer
  | machines _ => listed "machines" request answer
  | files _ => listed "files" request answer
  | createDevice _ => ofError .value (value.mapError OperationClass.creation.translate)
  | allocateMachine _ => ofError .value (value.mapError OperationClass.machineAllocation.translate)
  | releaseMachines _ =>
    ofError (fun _ ↦ .nothing) (value.mapError OperationClass.machineRelease.translate)
  | getFile _ => ofError .value (value.mapError OperationClass.fileFetch.translate)
  | addFile _ => ofError (fun _ ↦ .nothing) (bytes.mapError OperationClass.fileCreation.translate)
  | deleteFile _ => ofError (fun _ ↦ .nothing) (bytes.mapError Error.ofUnexpected)

variable {σ : Type} (s : Session σ)

private theorem error_of_ite {c : Prop} [Decidable c] {ε α : Type} {e e' : ε} {a : α}
    (h : (if c then .error e else .ok a) = Except.error e') : c ∧ e = e' := by
  split at h
  · next hc => exact ⟨hc, Except.error.inj h⟩
  · cases h

private theorem ok_of_ite {c : Prop} [Decidable c] {ε α : Type} {e : ε} {a a' : α}
    (h : (if c then .error e else .ok a) = Except.ok a') : ¬c ∧ a = a' := by
  split at h
  · cases h
  · next hc => exact ⟨hc, Except.ok.inj h⟩

/-- A step that is refused leaves the run as it is. -/
theorem perform_of_refused {step : Step} {e : Error} (h : step.plan = .error e) (run : Run σ) :
    step.perform s run = (.error (.error e), run) := by
  cases step with
  | createDevice device =>
    obtain ⟨hempty, rfl⟩ := error_of_ite h
    simp only [perform, Session.createDevice, hempty, if_true]
    rfl
  | getFile filename =>
    obtain ⟨hempty, rfl⟩ := error_of_ite h
    simp only [perform, Session.getFile, hempty, if_true]
    rfl
  | deleteFile filename =>
    obtain ⟨hempty, rfl⟩ := error_of_ite h
    simp only [perform, Session.deleteFile, hempty, if_true]
    rfl
  | addFile upload =>
    simp only [plan] at h
    cases htake : upload.take with
    | error e' =>
      rw [htake] at h
      obtain rfl := Except.error.inj h
      simp only [perform, Session.addFile, htake]
      rfl
    | ok content =>
      rw [htake] at h
      cases h
  | _ => cases h

private theorem ofError_map_unit {α : Type} (y : Yield) (x : Except Error α) :
    ofError (fun _ ↦ y) (x.map fun _ ↦ ()) = ofError (fun _ ↦ y) x := by
  cases x <;> rfl

private theorem ofCall_map_unit {α : Type} (y : Yield) (x : Except CallError α) :
    ofCall (fun _ ↦ y) (x.map fun _ ↦ ()) = ofCall (fun _ ↦ y) x := by
  cases x <;> rfl

private theorem ofError_mapError_map_unit {ε α : Type} (y : Yield) (f : ε → Error)
    (x : Except ε α) :
    ofError (fun _ ↦ y) ((x.map fun _ ↦ ()).mapError f) = ofError (fun _ ↦ y) (x.mapError f) := by
  cases x <;> rfl

private theorem list_apply (path context : String) (params : Params) (run : Run σ) :
    (ofError .items <$> s.list path context params : Action σ (Except StepError Yield)) run =
      (listed context { Request.ofPath path with params }
          (s.channel .get { Request.ofPath path with params } run.world).1,
        s.afterCall .get { Request.ofPath path with params } run) := by
  rw [Action.map_apply, Session.list, Action.bind_apply, Session.getQuery, Session.callJson_apply]
  rfl

/-- A post of a class is one call. -/
theorem postAs_apply (operations : OperationClass) (path op : String) (params : Params)
    (run : Run σ) :
    s.postAs operations path op params run =
      let request := { (Request.ofPath path).withOp op with params }
      ((Session.valueOf .post request (s.channel .post request run.world).1).mapError
          operations.translate, s.afterCall .post request run) := by
  rw [Session.postAs, Action.bind_apply, Session.post, Session.callJson_apply]
  rfl

/-- An upload whose bytes can be had is one call. -/
theorem addFile_apply {upload : Upload} {content : Bytes} (h : upload.take = .ok content)
    (run : Run σ) :
    s.addFile upload run =
      let request : Request := {
        path := "files/"
        op := some "create"
        params := ⟨[("filename", upload.filename)]⟩
        file := some ⟨"file", content⟩ }
      (((Session.bytesOf .post request (s.channel .post request run.world).1).mapError
          OperationClass.fileCreation.translate).map fun _ ↦ (),
        s.afterCall .post request run) := by
  rw [Session.addFile, h]
  dsimp only
  rw [Action.bind_apply, Session.postFile, Session.call_apply]
  rfl

/-- A step that is not refused makes its call, and something of the answer. -/
theorem perform_of_planned {step : Step} {method : Method} {request : Request}
    (h : step.plan = .ok (method, request)) (run : Run σ) :
    step.perform s run =
      (step.outcome method request (s.channel method request run.world).1,
        s.afterCall method request run) := by
  cases step with
  | get path =>
    cases h
    rw [perform, Action.map_apply, Session.get, Session.callJson_apply]
    rfl
  | getQuery path params =>
    cases h
    rw [perform, Action.map_apply, Session.getQuery, Session.callJson_apply]
    rfl
  | getOp path op =>
    cases h
    rw [perform, Action.map_apply, Session.getOp, Session.callJson_apply]
    rfl
  | post path op params =>
    cases h
    rw [perform, Action.map_apply, Session.post, Session.callJson_apply]
    rfl
  | postFile path op params content =>
    cases h
    rw [perform, Action.map_apply, Session.postFile, Session.call_apply]
    rfl
  | delete path =>
    cases h
    rw [perform, Action.map_apply, Session.delete, Action.bind_apply, Session.call_apply]
    exact Prod.ext (ofCall_map_unit _ _) rfl
  | bootResources =>
    cases h
    exact list_apply s "boot-resources" "boot resources" .empty run
  | fabrics =>
    cases h
    exact list_apply s "fabrics" "fabrics" .empty run
  | spaces =>
    cases h
    exact list_apply s "spaces" "spaces" .empty run
  | zones =>
    cases h
    exact list_apply s "zones" "zones" .empty run
  | devices filter =>
    cases h
    exact list_apply s "devices" "devices" filter.params run
  | machines filter =>
    cases h
    exact list_apply s "machines" "machines" filter.params run
  | files beginning =>
    cases h
    exact list_apply s "files" "files" (Params.empty.addText "prefix" beginning) run
  | createDevice device =>
    obtain ⟨hnonempty, hcall⟩ := ok_of_ite h
    cases hcall
    rw [perform, Action.map_apply, Session.createDevice, if_neg hnonempty, postAs_apply]
    rfl
  | allocateMachine constraints =>
    cases h
    rw [perform, Action.map_apply, Session.allocateMachine, postAs_apply]
    rfl
  | releaseMachines release =>
    cases h
    rw [perform, Action.map_apply, Session.releaseMachines, Action.bind_apply, postAs_apply]
    exact Prod.ext (ofError_map_unit _ _) rfl
  | getFile filename =>
    obtain ⟨hnonempty, hcall⟩ := ok_of_ite h
    cases hcall
    rw [perform, Action.map_apply, Session.getFile, if_neg hnonempty, Action.bind_apply,
      Session.get, Session.callJson_apply]
    rfl
  | addFile upload =>
    simp only [plan] at h
    cases htake : upload.take with
    | error e =>
      rw [htake] at h
      cases h
    | ok content =>
      rw [htake] at h
      cases h
      rw [perform, Action.map_apply, addFile_apply s htake]
      exact Prod.ext (ofError_map_unit _ _) rfl
  | deleteFile filename =>
    obtain ⟨hnonempty, hcall⟩ := ok_of_ite h
    cases hcall
    rw [perform, Action.map_apply, Session.deleteFile, if_neg hnonempty, Action.bind_apply,
      Session.delete, Action.bind_apply, Session.call_apply]
    exact Prod.ext (ofError_mapError_map_unit _ _ _) rfl

end RegionClient.Step
