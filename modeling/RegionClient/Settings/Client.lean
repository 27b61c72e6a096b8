/-!
# Client settings

How connections to the controller are made. Times are in milliseconds.
-/

namespace RegionClient

/-- The settings of a client. Models `ClientConfig`. -/
structure ClientSettings where
  timeout : Nat := 30000
  connectTimeout : Nat := 10000
  poolIdleTimeout : Nat := 90000
  poolMaxIdle : Nat := 10
  compression : Bool := true
  tlsVerify : Bool := true
  deriving DecidableEq, Repr

/-- The name under which a client presents itself. Models `USER_AGENT`. -/
def ClientSettings.userAgent : String := "maas-core/0.1.0"

end RegionClient
