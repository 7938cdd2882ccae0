import GatewayFleet.Audit.Event
import GatewayFleet.Gateway.Configuration

/-! The files that rendering leaves behind: two copies of the resolved configuration, a summary
that alone carries the time, and the policies in force. -/

namespace GatewayFleet.Gateway

open Audit (Timestamp)

def Summary.toValue (instanceId : String) (time : Timestamp) (counts : Counts) : Value :=
  .mapping ([("instance", .string instanceId), ("rendered_at", .string time.text)] ++
    counts.toFields)

def writeValue (l : Location) (v : Value) : Disk Unit := Disk.replaceText l.toPath (Json.pretty v)

def makeDirectories (p : Placement) : Disk Unit :=
  p.directories.forM fun l => Disk.makeDirectories .createDirectory l.toPath

def writeConfiguration (p : Placement) (config : Value) : Disk Unit := do
  writeValue p.resolvedConfig config
  writeValue p.mountedConfig config

def writeSummary (p : Placement) (time : Timestamp) (counts : Counts) : Disk Unit :=
  writeValue p.renderSummary (Summary.toValue p.id time counts)

def writePolicies (p : Placement) (policies : List Policy.Summary) : Disk Unit :=
  writeValue p.effectivePolicy (.list (policies.map (·.toValue)))

end GatewayFleet.Gateway
