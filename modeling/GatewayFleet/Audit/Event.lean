import GatewayFleet.Audit.Timestamp
import GatewayFleet.Disk
import GatewayFleet.Json.Printer
import GatewayFleet.Policy.Fragment

/-! What is recorded about a change or a render, and the log that holds one record a line. The log
lies beside the inventory. -/

namespace GatewayFleet.Audit

inductive Deed
  | agentAdd | agentRemove | render
deriving DecidableEq

def Deed.name : Deed → String
  | .agentAdd => "agent_add"
  | .agentRemove => "agent_remove"
  | .render => "render"

def Deed.ofName? : String → Option Deed
  | "agent_add" => some .agentAdd
  | "agent_remove" => some .agentRemove
  | "render" => some .render
  | _ => none

structure Event where
  time : Timestamp
  deed : Deed
  actor : String
  instanceId : Option String
  details : Value
deriving DecidableEq

def Event.toFields (e : Event) : Fields Value :=
  [("ts", .string e.time.text), ("action", .string e.deed.name), ("actor", .string e.actor)] ++
    Policy.optional "instance" (e.instanceId.map .string) ++ [("details", e.details)]

def Event.line (e : Event) : String := Json.compact (.mapping e.toFields)

structure Stamp where
  time : Timestamp
  actor : String
deriving DecidableEq

def Stamp.event (s : Stamp) (deed : Deed) (instanceId : String) (details : Fields Value) : Event :=
  ⟨s.time, deed, s.actor, some instanceId, .mapping details⟩

def logFor (dir : Path) : Path :=
  (dir.join (.ofString ".fleetconf")).join (.ofString "events.ndjson")

/-- Adds a record to the log, which is created if it is not there. -/
def record (dir : Path) (e : Event) : Disk Unit := do
  let log := logFor dir
  Disk.requireDirectory .createLogDirectory log.directory
  Disk.change .openLog log (·.append log (e.line ++ "\n").toUTF8)

end GatewayFleet.Audit
