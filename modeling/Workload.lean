import Workload.Action
import Workload.Action.Document
import Workload.Command
import Workload.CommandLine.Options
import Workload.CommandLine.Scan
import Workload.CommandLine.Usage
import Workload.Config
import Workload.Config.Document
import Workload.Container.Basic
import Workload.Decimal.Double
import Workload.Decimal.Shortest
import Workload.Docker.Client
import Workload.Docker.Program
import Workload.Docker.Provider
import Workload.Docker.Runtime
import Workload.Documents
import Workload.Drawn
import Workload.Duration
import Workload.Environment
import Workload.Expression.Condition
import Workload.Expression.Interpolation
import Workload.Expression.Range
import Workload.Fault
import Workload.Files
import Workload.Files.Glob
import Workload.Files.Path
import Workload.Hooks
import Workload.Limits
import Workload.Main
import Workload.Named
import Workload.Proofs.Account
import Workload.Proofs.Addresses
import Workload.Proofs.Agenda
import Workload.Proofs.Aliases
import Workload.Proofs.Alike
import Workload.Proofs.Amounts
import Workload.Proofs.ArgumentLists
import Workload.Proofs.Ascent
import Workload.Proofs.Blocks
import Workload.Proofs.Blockwise
import Workload.Proofs.Carrying
import Workload.Proofs.Changeover
import Workload.Proofs.Channels
import Workload.Proofs.Chronicles
import Workload.Proofs.Collections
import Workload.Proofs.CommandLines
import Workload.Proofs.Comparisons
import Workload.Proofs.Control
import Workload.Proofs.Counter
import Workload.Proofs.Counts
import Workload.Proofs.Course
import Workload.Proofs.Crews
import Workload.Proofs.Decisions
import Workload.Proofs.Deltas
import Workload.Proofs.Doubles
import Workload.Proofs.Draining
import Workload.Proofs.Durations
import Workload.Proofs.Effects
import Workload.Proofs.Endings
import Workload.Proofs.Exits
import Workload.Proofs.Expansions
import Workload.Proofs.Flattening
import Workload.Proofs.Frames
import Workload.Proofs.Growth
import Workload.Proofs.Handouts
import Workload.Proofs.Hosts
import Workload.Proofs.Idleness
import Workload.Proofs.Includes
import Workload.Proofs.Inheritance
import Workload.Proofs.Isolation
import Workload.Proofs.Iterations
import Workload.Proofs.Launches
import Workload.Proofs.Lines
import Workload.Proofs.Literals
import Workload.Proofs.Loop
import Workload.Proofs.Moves
import Workload.Proofs.Namesakes
import Workload.Proofs.NestedTests
import Workload.Proofs.OneReading
import Workload.Proofs.Opening
import Workload.Proofs.Origins
import Workload.Proofs.Overlong
import Workload.Proofs.Overrides
import Workload.Proofs.Pairs
import Workload.Proofs.Passes
import Workload.Proofs.Placeholders
import Workload.Proofs.Polling
import Workload.Proofs.Ports
import Workload.Proofs.Provisioning
import Workload.Proofs.Quotes
import Workload.Proofs.Quoting
import Workload.Proofs.Reading
import Workload.Proofs.Receivers
import Workload.Proofs.Reevaluation
import Workload.Proofs.Refusals
import Workload.Proofs.Removals
import Workload.Proofs.Rendering
import Workload.Proofs.Resolution
import Workload.Proofs.Restarts
import Workload.Proofs.Rests
import Workload.Proofs.Scalars
import Workload.Proofs.ScopeChanges
import Workload.Proofs.Script
import Workload.Proofs.Spans
import Workload.Proofs.Steps
import Workload.Proofs.Straight
import Workload.Proofs.Subshells
import Workload.Proofs.Tables
import Workload.Proofs.Tallies
import Workload.Proofs.Texts
import Workload.Proofs.Twins
import Workload.Proofs.Unrolling
import Workload.Proofs.Waiting
import Workload.Proofs.Watchdog
import Workload.Proofs.Watchers
import Workload.Proofs.Writing
import Workload.Provider.OnDemand
import Workload.Provider.Spec
import Workload.Provider.Static
import Workload.Rehearsal
import Workload.Rehearsal.Faults
import Workload.Report
import Workload.Run.Control
import Workload.Run.Dispatch
import Workload.Run.Job
import Workload.Run.Passes
import Workload.Run.Resolve
import Workload.Run.Schedule
import Workload.Run.State
import Workload.Run.Step
import Workload.Scope
import Workload.Session
import Workload.Session.Plan
import Workload.Shell.Arithmetic
import Workload.Shell.Builtin
import Workload.Shell.Builtin.Basic
import Workload.Shell.Builtin.Getopts
import Workload.Shell.Builtin.Names
import Workload.Shell.Builtin.Places
import Workload.Shell.Builtin.Reading
import Workload.Shell.Builtin.Settings
import Workload.Shell.Builtin.Signals
import Workload.Shell.Builtin.Variables
import Workload.Shell.Bytes
import Workload.Shell.Command
import Workload.Shell.Escape
import Workload.Shell.Expand
import Workload.Shell.Fields
import Workload.Shell.Format
import Workload.Shell.Grammar
import Workload.Shell.Parser
import Workload.Shell.Pattern
import Workload.Shell.Programs.Basic
import Workload.Shell.Programs.Call
import Workload.Shell.Programs.Characters
import Workload.Shell.Programs.Difference
import Workload.Shell.Programs.Edit
import Workload.Shell.Programs.Edit.Run
import Workload.Shell.Programs.Edit.Script
import Workload.Shell.Programs.Encode
import Workload.Shell.Programs.Evaluate
import Workload.Shell.Programs.Lines
import Workload.Shell.Programs.Order
import Workload.Shell.Programs.Search
import Workload.Shell.Programs.Select
import Workload.Shell.Programs.Sequence
import Workload.Shell.Programs.Tree
import Workload.Shell.Reader
import Workload.Shell.Real
import Workload.Shell.Regex
import Workload.Shell.Run
import Workload.Shell.Run.Call
import Workload.Shell.Run.Compound
import Workload.Shell.Run.Condition
import Workload.Shell.Run.Process
import Workload.Shell.Run.Program
import Workload.Shell.Run.Redirection
import Workload.Shell.Run.Simple
import Workload.Shell.Source
import Workload.Shell.State
import Workload.Shell.System
import Workload.Shell.Test
import Workload.Shell.Token
import Workload.Shell.Value
import Workload.Shell.Word
import Workload.Template
import Workload.Text
import Workload.Topology
import Workload.Topology.Document
import Workload.Yaml.Decode
import Workload.Yaml.Node
import Workload.Yaml.Node.Parser
import Workload.Yaml.Plain
import Workload.Yaml.Token
import Workload.Yaml.Token.Cursor
import Workload.Yaml.Token.Lexer
import Workload.Yaml.Token.Scalar
import Workload.Yaml.Value
import Workload.Yaml.Writer
