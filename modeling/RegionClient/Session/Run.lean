import RegionClient.Session.Log

/-!
# Runs

What sessions are made of: channels that carry requests, connectors that open channels, and runs
that keep the world behind them, the number of requests issued, and a journal of everything that
happened.
-/

namespace RegionClient

/-- Carries one request and brings its answer; the world changes on the way. Models `Transport`. -/
abbrev Channel (σ : Type) : Type :=
  Method → Request → σ → Except TransportError Bytes × σ

/-- What comes of opening a channel. -/
structure Opening (σ : Type) where
  channel : Except TransportError (Channel σ)
  log : List LogEvent := []

/-- Opens a channel to the API of one version. Models `Connector`. -/
abbrev Connector (σ : Type) : Type :=
  (baseUrl apiKey : String) → Version → σ → Opening σ × σ

/-- An entry of the journal. -/
inductive Event where
  | opened (baseUrl apiKey : String) (version : Version)
  | called (number : UInt64) (method : Method) (request : Request)
  | logged (event : LogEvent)

/-- The state of a run. -/
structure Run (σ : Type) where
  world : σ
  issued : UInt64 := 0
  journal : List Event := []

namespace Run

variable {σ : Type}

/-- The log events of a run. -/
def log (run : Run σ) : List LogEvent :=
  run.journal.filterMap fun
    | .logged event => some event
    | _ => none

/-- The run without its journal. -/
def forget (run : Run σ) : Run σ := { run with journal := [] }

end Run

/-- Something done in a run. -/
abbrev Action (σ α : Type) : Type := StateM (Run σ) α

namespace Action

variable {σ : Type}

/-- Writes entries into the journal. -/
def record (events : List Event) : Action σ Unit :=
  modify fun run ↦ { run with journal := run.journal ++ events }

/-- Logs an event. -/
def log (event : LogEvent) : Action σ Unit := record [.logged event]

/-- Takes the next number of a request. Models `RequestSequencer.next_id`. -/
def takeNumber : Action σ UInt64 :=
  modifyGet fun run ↦ (run.issued + 1, { run with issued := run.issued + 1 })

/-- Opens a channel. -/
def openChannel (connector : Connector σ) (baseUrl apiKey : String) (version : Version) :
    Action σ (Except TransportError (Channel σ)) := do
  record [.opened baseUrl apiKey version]
  let opening ← modifyGet fun run ↦
    let (opening, world) := connector baseUrl apiKey version run.world
    (opening, { run with world })
  record (opening.log.map .logged)
  return opening.channel

/-- Makes a call under a number. -/
def carry (channel : Channel σ) (number : UInt64) (method : Method) (request : Request) :
    Action σ (Except TransportError Bytes) := do
  record [.called number method request]
  modifyGet fun run ↦
    let (outcome, world) := channel method request run.world
    (outcome, { run with world })

end Action

end RegionClient
