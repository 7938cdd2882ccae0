import GatewayFleet.Audit.Event
import GatewayFleet.Audit.EventReader
import GatewayFleet.Audit.Timestamp
import GatewayFleet.Command.Grammar
import GatewayFleet.Command.Help
import GatewayFleet.Command.Invocation
import GatewayFleet.Command.Reach
import GatewayFleet.Command.Run
import GatewayFleet.Disk
import GatewayFleet.Failure
import GatewayFleet.Fields
import GatewayFleet.Fleet.Account
import GatewayFleet.Fleet.Admission
import GatewayFleet.Fleet.Discovery
import GatewayFleet.Fleet.Document
import GatewayFleet.Fleet.Field
import GatewayFleet.Fleet.Issue
import GatewayFleet.Fleet.Model
import GatewayFleet.Fleet.Record
import GatewayFleet.Fleet.Roster
import GatewayFleet.Fleet.Storage
import GatewayFleet.Fleet.Verdict
import GatewayFleet.Gateway.Artifact
import GatewayFleet.Gateway.Configuration
import GatewayFleet.Gateway.Overlay
import GatewayFleet.Gateway.Placeholder
import GatewayFleet.Gateway.Placement
import GatewayFleet.Json.Fault
import GatewayFleet.Json.Printer
import GatewayFleet.Json.Reader
import GatewayFleet.Json.Skip
import GatewayFleet.Layer.Body
import GatewayFleet.Layer.Dialect
import GatewayFleet.Layer.Include
import GatewayFleet.Main
import GatewayFleet.Number.Binary64
import GatewayFleet.Number.Layout
import GatewayFleet.Path
import GatewayFleet.Policy.Catalogue
import GatewayFleet.Policy.Compliance
import GatewayFleet.Policy.Effective
import GatewayFleet.Policy.Fragment
import GatewayFleet.Proofs.Json.Token
import GatewayFleet.Text.Blank
import GatewayFleet.Text.Invisible
import GatewayFleet.Tree
import GatewayFleet.Value
import GatewayFleet.Value.Describe
import GatewayFleet.Value.Merge
import GatewayFleet.Yaml.Glyph
import GatewayFleet.Yaml.Lexer
import GatewayFleet.Yaml.Node
import GatewayFleet.Yaml.Printer
import GatewayFleet.Yaml.Reader
import GatewayFleet.Yaml.Scalar
import GatewayFleet.Yaml.Text
import GatewayFleet.Yaml.Token
import GatewayFleet.Proofs.Json.LiteralText
import GatewayFleet.Proofs.Json.NumberText
import GatewayFleet.Proofs.Json.Acceptance
import GatewayFleet.Proofs.Layer.Commas
import GatewayFleet.Proofs.Layer.Writing
import GatewayFleet.Proofs.Layer.Reduction
import GatewayFleet.Proofs.Layer.Decoration
import GatewayFleet.Proofs.Layer.Idempotence
import GatewayFleet.Proofs.Layer.Stretches
import GatewayFleet.Proofs.Layer.Preservation
import GatewayFleet.Proofs.Layer.Reachability
import GatewayFleet.Proofs.Layer.Chain
import GatewayFleet.Proofs.Layer.Composition
import GatewayFleet.Proofs.Fleet.WrittenForm
import GatewayFleet.Proofs.Fleet.Admission
import GatewayFleet.Proofs.Members
import GatewayFleet.Proofs.Value.Merging
import GatewayFleet.Proofs.Fleet.Canonical
import GatewayFleet.Proofs.Fleet.Soundness
import GatewayFleet.Proofs.Policy.Layering
import GatewayFleet.Proofs.Policy.Compliance
import GatewayFleet.Proofs.Fleet.Rereading
import GatewayFleet.Proofs.Path.Naming
import GatewayFleet.Proofs.Path.Canonical
import GatewayFleet.Proofs.Tree.Walking
import GatewayFleet.Proofs.Tree.Changing
import GatewayFleet.Proofs.Tree.Keeping
import GatewayFleet.Proofs.Disk.Running
import GatewayFleet.Proofs.Disk.Replacement
import GatewayFleet.Proofs.Json.SingleLine
import GatewayFleet.Proofs.Audit.Recording
import GatewayFleet.Proofs.Tree.Reaching
import GatewayFleet.Proofs.Command.Mutation
import GatewayFleet.Proofs.Gateway.Artifacts
import GatewayFleet.Proofs.Command.Rendering
import GatewayFleet.Proofs.Fleet.Loading
import GatewayFleet.Proofs.Layer.Agreement
import GatewayFleet.Proofs.Command.Isolation
import GatewayFleet.Proofs.Command.Rerendering
import GatewayFleet.Proofs.Value.Ways
import GatewayFleet.Proofs.Gateway.Expansion
import GatewayFleet.Proofs.Gateway.Precedence
import GatewayFleet.Proofs.Fleet.Registration
import GatewayFleet.Proofs.Fleet.Editing
import GatewayFleet.Proofs.Fleet.Bookkeeping
import GatewayFleet.Proofs.Fleet.Retention
import GatewayFleet.Proofs.Fleet.Alteration
import GatewayFleet.Proofs.Command.Succession
import GatewayFleet.Proofs.Policy.Newcomers
import GatewayFleet.Proofs.Fleet.Pruning
import GatewayFleet.Proofs.Fleet.Reporting
import GatewayFleet.Proofs.Fleet.Sharing
import GatewayFleet.Proofs.Fleet.Collisions
import GatewayFleet.Proofs.Json.Recovery
import GatewayFleet.Proofs.Json.Indentation
import GatewayFleet.Proofs.Audit.Decoding
import GatewayFleet.Proofs.Command.Logging
import GatewayFleet.Proofs.Deduplication
import GatewayFleet.Proofs.Value.Folding
import GatewayFleet.Proofs.Value.Regrouping
import GatewayFleet.Proofs.Gateway.Interchange
import GatewayFleet.Proofs.Gateway.Scanning
import GatewayFleet.Proofs.Gateway.Substitution
import GatewayFleet.Proofs.Command.Attribution
import GatewayFleet.Proofs.Layer.Cycle
import GatewayFleet.Proofs.Fleet.Rearrangement
import GatewayFleet.Proofs.Fleet.Placing
import GatewayFleet.Proofs.Fleet.Entries
import GatewayFleet.Proofs.Fleet.Faults
import GatewayFleet.Proofs.Fleet.Ports
import GatewayFleet.Proofs.Policy.Inheritance
import GatewayFleet.Proofs.Fleet.Dismissal
import GatewayFleet.Proofs.Fleet.Shrinking
import GatewayFleet.Proofs.Command.Removal
import GatewayFleet.Proofs.Fleet.Forms
import GatewayFleet.Proofs.Fleet.Spelling
import GatewayFleet.Proofs.Text.Distinct
import GatewayFleet.Proofs.Path.Folding
import GatewayFleet.Proofs.Disk.Atomicity
import GatewayFleet.Proofs.Gateway.Presence
