import RegionClient.Resource.Operations

/-!
# Steps

Everything that can be asked of a session, as data, with what comes of it; and sequences of steps.
-/

namespace RegionClient

/-- What can be asked of a session: a primitive call, or an operation on resources. -/
inductive Step where
  | get (path : String)
  | getQuery (path : String) (params : Params)
  | getOp (path op : String)
  | post (path op : String) (params : Params)
  | postFile (path op : String) (params : Params) (content : Bytes)
  | delete (path : String)
  | bootResources
  | fabrics
  | spaces
  | zones
  | devices (filter : DeviceFilter)
  | createDevice (device : NewDevice)
  | machines (filter : MachineFilter)
  | allocateMachine (constraints : MachineConstraints)
  | releaseMachines (release : MachineRelease)
  | files (beginning : String)
  | getFile (filename : String)
  | addFile (upload : Upload)
  | deleteFile (filename : String)
  deriving DecidableEq, Repr

/-- What a step that succeeds brings. -/
inductive Yield where
  | nothing
  | bytes (content : Bytes)
  | value (v : Json.Value)
  | items (list : List Json.Value)

/-- Why a step fails: a primitive reports the failed call itself. -/
inductive StepError where
  | call (e : CallError)
  | error (e : Error)
  deriving DecidableEq, Repr

namespace Step

variable {σ : Type}

/-- The outcome of a primitive. -/
def ofCall {α : Type} (yields : α → Yield) (outcome : Except CallError α) :
    Except StepError Yield :=
  (outcome.mapError .call).map yields

/-- The outcome of an operation. -/
def ofError {α : Type} (yields : α → Yield) (outcome : Except Error α) : Except StepError Yield :=
  (outcome.mapError .error).map yields

/-- Takes a step. -/
def perform (s : Session σ) : Step → Action σ (Except StepError Yield)
  | get path => ofCall .value <$> s.get path
  | getQuery path params => ofCall .value <$> s.getQuery path params
  | getOp path op => ofCall .value <$> s.getOp path op
  | post path op params => ofCall .value <$> s.post path op params
  | postFile path op params content => ofCall .bytes <$> s.postFile path op params content
  | delete path => ofCall (fun _ ↦ .nothing) <$> s.delete path
  | bootResources => ofError .items <$> s.bootResources
  | fabrics => ofError .items <$> s.fabrics
  | spaces => ofError .items <$> s.spaces
  | zones => ofError .items <$> s.zones
  | devices filter => ofError .items <$> s.devices filter
  | createDevice device => ofError .value <$> s.createDevice device
  | machines filter => ofError .items <$> s.machines filter
  | allocateMachine constraints => ofError .value <$> s.allocateMachine constraints
  | releaseMachines release => ofError (fun _ ↦ .nothing) <$> s.releaseMachines release
  | files beginning => ofError .items <$> s.files beginning
  | getFile filename => ofError .value <$> s.getFile filename
  | addFile upload => ofError (fun _ ↦ .nothing) <$> s.addFile upload
  | deleteFile filename => ofError (fun _ ↦ .nothing) <$> s.deleteFile filename

/-- Takes steps one after the other. -/
def performAll (s : Session σ) (steps : List Step) : Action σ (List (Except StepError Yield)) :=
  steps.mapM (perform s)

end Step

end RegionClient
