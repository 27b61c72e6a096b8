import RegionClient.Failure.OperationClass
import RegionClient.Resource.Args
import RegionClient.Resource.Upload
import RegionClient.Session.Basic

/-!
# Operations on resources

What a session can do with the resources of a controller. An operation that is refused for its
arguments makes no call; every other one makes exactly one, and reports its failure by the class
that it belongs to.
-/

namespace RegionClient.Session

variable {σ : Type}

/-- The items of a response that must be a list. Models `into_list`. -/
def itemsOf (context : String) (v : Json.Value) : Except Error (List Json.Value) :=
  match v with
  | .array items => .ok items
  | v => .error (.deserialization context (.ofMismatch "response" (.list .any) v))

/-- Lists what is at a path. Models `list` and `list_query` of `Controller`. -/
def list (s : Session σ) (path context : String) (params : Params) :
    Action σ (Except Error (List Json.Value)) := do
  let outcome ← s.getQuery path params
  return (outcome.mapError Error.ofUnexpected).bind (itemsOf context)

/-- Makes a post whose failures belong to a class. -/
def postAs (s : Session σ) (operations : OperationClass) (path op : String) (params : Params) :
    Action σ (Except Error Json.Value) := do
  let outcome ← s.post path op params
  return outcome.mapError operations.translate

/-- Lists the boot resources. Models `Controller.boot_resources`. -/
def bootResources (s : Session σ) : Action σ (Except Error (List Json.Value)) :=
  s.list "boot-resources" "boot resources" .empty

/-- Lists the fabrics. Models `Controller.fabrics`. -/
def fabrics (s : Session σ) : Action σ (Except Error (List Json.Value)) :=
  s.list "fabrics" "fabrics" .empty

/-- Lists the spaces. Models `Controller.spaces`. -/
def spaces (s : Session σ) : Action σ (Except Error (List Json.Value)) :=
  s.list "spaces" "spaces" .empty

/-- Lists the zones. Models `Controller.zones`. -/
def zones (s : Session σ) : Action σ (Except Error (List Json.Value)) :=
  s.list "zones" "zones" .empty

/-- Lists devices. Models `Controller.devices`. -/
def devices (s : Session σ) (filter : DeviceFilter) :
    Action σ (Except Error (List Json.Value)) :=
  s.list "devices" "devices" filter.params

/-- Creates a device, for which a list of addresses must be given. Models
`Controller.create_device`. -/
def createDevice (s : Session σ) (device : NewDevice) : Action σ (Except Error Json.Value) :=
  if device.macAddresses.isEmpty then
    return .error (.badRequest "at least one MAC address must be specified" none)
  else s.postAs .creation "devices" "create" device.params

/-- Lists machines. Models `Controller.machines`. -/
def machines (s : Session σ) (filter : MachineFilter) :
    Action σ (Except Error (List Json.Value)) :=
  s.list "machines" "machines" filter.params

/-- Allocates a machine. Models `Controller.allocate_machine`. -/
def allocateMachine (s : Session σ) (constraints : MachineConstraints) :
    Action σ (Except Error Json.Value) :=
  s.postAs .machineAllocation "machines" "allocate" constraints.params

/-- Releases machines. Models `Controller.release_machines`. -/
def releaseMachines (s : Session σ) (release : MachineRelease) : Action σ (Except Error Unit) := do
  let outcome ← s.postAs .machineRelease "machines" "release" release.params
  return outcome.map fun _ ↦ ()

/-- Lists the files whose names begin with a text. Models `Controller.files`. -/
def files (s : Session σ) (beginning : String) : Action σ (Except Error (List Json.Value)) :=
  s.list "files" "files" (Params.empty.addText "prefix" beginning)

/-- The path of a file. -/
def filePath (filename : String) : String := "files/" ++ filename

/-- Gets a file. Models `Controller.get_file`. -/
def getFile (s : Session σ) (filename : String) : Action σ (Except Error Json.Value) :=
  if filename.isEmpty then return .error (.notValid "missing filename")
  else do
    let outcome ← s.get (filePath filename)
    return outcome.mapError OperationClass.fileFetch.translate

/-- Uploads a file. Models `Controller.add_file`. -/
def addFile (s : Session σ) (upload : Upload) : Action σ (Except Error Unit) :=
  match upload.take with
  | .error e => return .error e
  | .ok content => do
    let params := Params.empty.add "filename" upload.filename
    let outcome ← s.postFile "files" "create" params content
    return (outcome.mapError OperationClass.fileCreation.translate).map fun _ ↦ ()

/-- Deletes a file. Models `Controller.delete_file`. -/
def deleteFile (s : Session σ) (filename : String) : Action σ (Except Error Unit) :=
  if filename.isEmpty then return .error (.notValid "missing filename")
  else do
    let outcome ← s.delete (filePath filename)
    return outcome.mapError Error.ofUnexpected

end RegionClient.Session
