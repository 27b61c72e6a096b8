import RegionClient.Failure.Error

/-!
# Operation classes

The same status means different things to different operations. Each class of operations has a
table of the statuses that it gives a kind; every other status is unexpected.
-/

namespace RegionClient

/-- The classes of operations. Models `OperationClass`. -/
inductive OperationClass where
  | credentialCheck
  | creation
  | machineAllocation
  | machineRelease
  | fileFetch
  | fileCreation
  | other
  deriving DecidableEq, Repr

namespace OperationClass

/-- The kinds that a class gives to statuses. Models `OperationClass.rules`. -/
def rules : OperationClass → List (Status × ErrorKind)
  | credentialCheck => [(⟨401⟩, .permissionDenied)]
  | creation => [(⟨400⟩, .badRequest)]
  | machineAllocation => [(⟨409⟩, .noMatch)]
  | machineRelease =>
    [(⟨400⟩, .badRequest), (⟨403⟩, .permissionDenied), (⟨409⟩, .cannotComplete)]
  | fileFetch => [(⟨404⟩, .noMatch)]
  | fileCreation => [(⟨400⟩, .badRequest)]
  | other => []

/-- The kind of a status. Models `OperationClass.classify`. -/
def classify (c : OperationClass) (status : Status) : ErrorKind :=
  (c.rules.lookup status).getD .unexpected

/-- The error of a failed call. Models `OperationClass.translate`. -/
def translate (c : OperationClass) (call : CallError) : Error :=
  match call.status? with
  | some status => .ofCall (c.classify status) call
  | none => .ofUnexpected call

end OperationClass

end RegionClient
