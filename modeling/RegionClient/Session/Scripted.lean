import RegionClient.Session.Run

/-!
# Scripted controllers

A connector whose outcomes are given beforehand, one for each channel that is opened and one for
each request that is carried.
-/

namespace RegionClient

/-- The outcomes to come. No outcome for an opening means that it succeeds. -/
structure Script where
  openings : List (Option TransportError) := []
  answers : List (Except TransportError Bytes) := []

namespace Script

/-- Takes the next answer. -/
def answer (script : Script) : Except TransportError Bytes × Script :=
  match script.answers with
  | [] => (.error (.connection "no scripted response"), script)
  | outcome :: answers => (outcome, { script with answers })

/-- Carries requests by the script. -/
def channel : Channel Script := fun _ _ script ↦ script.answer

/-- Opens channels by the script. -/
def connector : Connector Script := fun _ _ _ script ↦
  match script.openings with
  | [] => ({ channel := .ok channel }, script)
  | outcome :: openings =>
    let opened := match outcome with
      | none => .ok channel
      | some e => .error e
    ({ channel := opened }, { script with openings })

end Script

end RegionClient
