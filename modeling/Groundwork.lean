import Groundwork.AppGraph
import Groundwork.CommandLine.Grammar
import Groundwork.CommandLine.Invocation
import Groundwork.CommandLine.Program
import Groundwork.CommandLine.Reader
import Groundwork.Compile
import Groundwork.Compile.Hook
import Groundwork.Compile.Journal
import Groundwork.Compile.Scope
import Groundwork.Component
import Groundwork.Config.Basic
import Groundwork.Config.Check
import Groundwork.Config.Codec
import Groundwork.Config.Document
import Groundwork.Config.Dotenv
import Groundwork.Config.Override
import Groundwork.Context
import Groundwork.Data.Decode
import Groundwork.Data.Table
import Groundwork.Data.Value
import Groundwork.Decimal.Reading
import Groundwork.Decimal.Shortest
import Groundwork.Definition.Basic
import Groundwork.Definition.Build
import Groundwork.Definition.Codec
import Groundwork.Definition.Outputs
import Groundwork.Effect.Ambient
import Groundwork.Effect.Program
import Groundwork.Failure
import Groundwork.Failure.Kind
import Groundwork.File.Call
import Groundwork.File.Path
import Groundwork.File.Tree
import Groundwork.Graph.Basic
import Groundwork.Graph.Codec
import Groundwork.Graph.Order
import Groundwork.Guard
import Groundwork.Guard.Error
import Groundwork.Guard.Eval
import Groundwork.Guard.Expr
import Groundwork.Guard.Lexer
import Groundwork.Guard.Parser
import Groundwork.Guard.Token
import Groundwork.Hash.Sha256
import Groundwork.Infrastructure.Graph
import Groundwork.Infrastructure.Node
import Groundwork.Infrastructure.Status
import Groundwork.Interchange.Fault
import Groundwork.Interchange.Readable
import Groundwork.Interchange.Request
import Groundwork.Interchange.Shown
import Groundwork.Json.Numeral
import Groundwork.Json.Reader
import Groundwork.Json.Token
import Groundwork.Json.Writer
import Groundwork.Key
import Groundwork.Log
import Groundwork.Log.Filter
import Groundwork.Main
import Groundwork.Path
import Groundwork.Plan
import Groundwork.Plan.Fingerprint
import Groundwork.Plan.Journal
import Groundwork.Plan.Unchanged
import Groundwork.Plugin.Container
import Groundwork.Plugin.Container.Model
import Groundwork.Plugin.Fleet
import Groundwork.Plugin.Kind
import Groundwork.Plugin.Reply
import Groundwork.Plugin.Wire
import Groundwork.Proofs.Compile.Closed
import Groundwork.Proofs.Compile.Declarations
import Groundwork.Proofs.Compile.Dependencies
import Groundwork.Proofs.Compile.Linking
import Groundwork.Proofs.Compile.Locality
import Groundwork.Proofs.Compile.Naming
import Groundwork.Proofs.Compile.Stages
import Groundwork.Proofs.Compile.Visibility
import Groundwork.Proofs.Component.Resolution
import Groundwork.Proofs.Config.Names
import Groundwork.Proofs.Data.Decode
import Groundwork.Proofs.Data.Outcome
import Groundwork.Proofs.Data.Sorted
import Groundwork.Proofs.Data.Table
import Groundwork.Proofs.Decimal.Digits
import Groundwork.Proofs.Definition.Building
import Groundwork.Proofs.Definition.RoundTrip
import Groundwork.Proofs.Effect.Endings
import Groundwork.Proofs.Effect.Sharing
import Groundwork.Proofs.File.Below
import Groundwork.Proofs.File.Names
import Groundwork.Proofs.File.Walk
import Groundwork.Proofs.Graph.Contents
import Groundwork.Proofs.Graph.Leftover
import Groundwork.Proofs.Graph.Order
import Groundwork.Proofs.Graph.Storage
import Groundwork.Proofs.Guard.Acceptance
import Groundwork.Proofs.Guard.Grammar
import Groundwork.Proofs.Guard.Paths
import Groundwork.Proofs.Guard.Scopes
import Groundwork.Proofs.Infrastructure.Changes
import Groundwork.Proofs.Infrastructure.Renaming
import Groundwork.Proofs.Json.Compact
import Groundwork.Proofs.Json.Numerals
import Groundwork.Proofs.Json.RoundTrip
import Groundwork.Proofs.Plan.Contents
import Groundwork.Proofs.Plan.Deletions
import Groundwork.Proofs.Plan.Fingerprint
import Groundwork.Proofs.Plan.Fixpoint
import Groundwork.Proofs.Plan.Integrity
import Groundwork.Proofs.Plan.Reproduction
import Groundwork.Proofs.Plan.Resolution
import Groundwork.Proofs.Plan.Resumption
import Groundwork.Proofs.Plan.Retention
import Groundwork.Proofs.Plan.Search
import Groundwork.Proofs.Plan.Successor
import Groundwork.Proofs.Plan.Validity
import Groundwork.Proofs.Plugin.Fleet
import Groundwork.Proofs.Plugin.Reply
import Groundwork.Proofs.Reconcile.Bracket
import Groundwork.Proofs.Reconcile.Calls
import Groundwork.Proofs.Reconcile.Clients
import Groundwork.Proofs.Reference.ReadBack
import Groundwork.Proofs.Reference.Renaming
import Groundwork.Proofs.Run.Answers
import Groundwork.Proofs.Run.Completion
import Groundwork.Proofs.Run.Courses
import Groundwork.Proofs.Run.Delivery
import Groundwork.Proofs.Run.Independence
import Groundwork.Proofs.Run.Inputs
import Groundwork.Proofs.Run.Invariant
import Groundwork.Proofs.Run.Ledger
import Groundwork.Proofs.Run.Machine
import Groundwork.Proofs.Run.Rest
import Groundwork.Proofs.Run.Safety
import Groundwork.Proofs.Run.Snapshots
import Groundwork.Proofs.Run.Story
import Groundwork.Proofs.Run.Truth
import Groundwork.Proofs.State.Agreement
import Groundwork.Proofs.State.Apart
import Groundwork.Proofs.State.Cabinet
import Groundwork.Proofs.State.Contents
import Groundwork.Proofs.State.Depth
import Groundwork.Proofs.State.Documents
import Groundwork.Proofs.State.Exclusion
import Groundwork.Proofs.State.Honest
import Groundwork.Proofs.State.OneStore
import Groundwork.Proofs.State.Operations
import Groundwork.Proofs.State.Places
import Groundwork.Proofs.State.Taking
import Groundwork.Proofs.Template.Asking
import Groundwork.Proofs.Template.Composition
import Groundwork.Proofs.Template.Filling
import Groundwork.Proofs.Template.Pieces
import Groundwork.Proofs.Template.Recoloring
import Groundwork.Proofs.Template.Replacing
import Groundwork.Proofs.Template.Rewriting
import Groundwork.Proofs.Template.Settling
import Groundwork.Proofs.Template.Splicing
import Groundwork.Proofs.Template.Substitution
import Groundwork.Proofs.Template.Tidy
import Groundwork.Proofs.Template.Unescaping
import Groundwork.Proofs.Time.RoundTrip
import Groundwork.Proofs.Variable.Meaning
import Groundwork.Proofs.Variable.Order
import Groundwork.Proofs.Variable.Schema
import Groundwork.Proofs.Variable.Values
import Groundwork.Reconcile
import Groundwork.Reference
import Groundwork.Report
import Groundwork.Report.Grid
import Groundwork.Run
import Groundwork.Run.Journal
import Groundwork.Run.Progress
import Groundwork.Run.Rehearsal
import Groundwork.State.Bucket
import Groundwork.State.Bucket.Model
import Groundwork.State.Key
import Groundwork.State.Local
import Groundwork.State.Lock
import Groundwork.State.Record
import Groundwork.State.Rehearsal
import Groundwork.State.Store
import Groundwork.Template
import Groundwork.Terminal
import Groundwork.Text.Alphanumeric
import Groundwork.Text.Blank
import Groundwork.Text.Case
import Groundwork.Text.Digit
import Groundwork.Text.Mask
import Groundwork.Text.Quoted
import Groundwork.Text.Search
import Groundwork.Text.Width
import Groundwork.Time.Instant
import Groundwork.Variable.Metadata
import Groundwork.Variable.Order
import Groundwork.Variable.Resolve
import Groundwork.Yaml.Block
import Groundwork.Yaml.Flow
