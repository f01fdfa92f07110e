import Playbook.Answer
import Playbook.Archive
import Playbook.Archive.Bytes
import Playbook.Binding
import Playbook.Calls
import Playbook.Catalog
import Playbook.CommandLine
import Playbook.Computation
import Playbook.Computation.Merit
import Playbook.Computation.Run
import Playbook.Database
import Playbook.Decimal.Double
import Playbook.Decimal.Reading
import Playbook.Decimal.Shortest
import Playbook.Definition.Project
import Playbook.Definition.Runner
import Playbook.Definition.Step
import Playbook.Definition.Timestamp
import Playbook.Dict
import Playbook.Disk
import Playbook.Document
import Playbook.Execution
import Playbook.Failure
import Playbook.Host
import Playbook.Interval
import Playbook.Item
import Playbook.Journal
import Playbook.Json.Basic
import Playbook.Json.Decode
import Playbook.Json.Draft
import Playbook.Json.Printer
import Playbook.Loop
import Playbook.Main
import Playbook.Message
import Playbook.Namespace
import Playbook.Npy
import Playbook.Path
import Playbook.Proofs.Algorithm
import Playbook.Proofs.Algorithm.Directories
import Playbook.Proofs.Algorithm.Reloading
import Playbook.Proofs.Answer
import Playbook.Proofs.Archive
import Playbook.Proofs.Binding
import Playbook.Proofs.Catalog
import Playbook.Proofs.Check
import Playbook.Proofs.Congruence
import Playbook.Proofs.Database.Adding
import Playbook.Proofs.Database.Arrival
import Playbook.Proofs.Database.Change
import Playbook.Proofs.Database.Columns
import Playbook.Proofs.Database.Entries
import Playbook.Proofs.Database.Failing
import Playbook.Proofs.Database.Merging
import Playbook.Proofs.Database.Restoring
import Playbook.Proofs.Database.RowOrder
import Playbook.Proofs.Database.Updating
import Playbook.Proofs.Database.Writing
import Playbook.Proofs.Definition.Codec
import Playbook.Proofs.Definition.Persistence
import Playbook.Proofs.Definition.Plan
import Playbook.Proofs.Dict
import Playbook.Proofs.Disk
import Playbook.Proofs.Dispatch
import Playbook.Proofs.Document
import Playbook.Proofs.Effect
import Playbook.Proofs.Execution
import Playbook.Proofs.InFlight
import Playbook.Proofs.Interval
import Playbook.Proofs.Item
import Playbook.Proofs.Item.Documents
import Playbook.Proofs.Json.Codec
import Playbook.Proofs.Json.Distinct
import Playbook.Proofs.Keeping
import Playbook.Proofs.Loop
import Playbook.Proofs.Merit
import Playbook.Proofs.Message
import Playbook.Proofs.Namespace
import Playbook.Proofs.Namespace.Binding
import Playbook.Proofs.Namespace.Paths
import Playbook.Proofs.Naming
import Playbook.Proofs.Npy.Header
import Playbook.Proofs.Npy.Reader
import Playbook.Proofs.Npy.Shape
import Playbook.Proofs.Output
import Playbook.Proofs.Path
import Playbook.Proofs.Path.Apart
import Playbook.Proofs.Path.Components
import Playbook.Proofs.Prototype
import Playbook.Proofs.Prototype.Marks
import Playbook.Proofs.Registry
import Playbook.Proofs.Registry.Free
import Playbook.Proofs.Registry.Resuming
import Playbook.Proofs.Runner
import Playbook.Proofs.Schedule
import Playbook.Proofs.Script.Apart
import Playbook.Proofs.Script.Batch
import Playbook.Proofs.Script.Course
import Playbook.Proofs.Script.Crossing
import Playbook.Proofs.Script.Filling
import Playbook.Proofs.Script.Jobs
import Playbook.Proofs.Script.Reaping
import Playbook.Proofs.Script.Removing
import Playbook.Proofs.Script.Sparing
import Playbook.Proofs.Sentinel
import Playbook.Proofs.Sequence
import Playbook.Proofs.Sequence.Dependence
import Playbook.Proofs.Sequence.Flattening
import Playbook.Proofs.Sequence.Gathering
import Playbook.Proofs.Sequence.Leaves
import Playbook.Proofs.Sequence.Rebuilding
import Playbook.Proofs.Sequence.Sufficiency
import Playbook.Proofs.Sequence.Visiting
import Playbook.Proofs.Sources
import Playbook.Proofs.Stopping
import Playbook.Proofs.Template
import Playbook.Proofs.Text
import Playbook.Proofs.Value
import Playbook.Proofs.Value.Alike
import Playbook.Proofs.World
import Playbook.Prototype
import Playbook.Registry
import Playbook.Runner.Basic
import Playbook.Runner.Module
import Playbook.Runner.Run
import Playbook.Runner.Script
import Playbook.Sentinel
import Playbook.Session
import Playbook.Settings
import Playbook.Shell.Fields
import Playbook.Shell.Run
import Playbook.Shell.Syntax
import Playbook.Shell.Tools
import Playbook.Template
import Playbook.Text
import Playbook.Text.DecimalDigit
import Playbook.Token
import Playbook.Value
import Playbook.World
import Playbook.Yaml.Reader
import Playbook.Yaml.Scalar
