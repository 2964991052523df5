import Reflection.Arena
import Reflection.Artifact
import Reflection.Artifact.Rendering
import Reflection.Batch
import Reflection.Batch.Report
import Reflection.Binary64
import Reflection.ClassIndex
import Reflection.ClassIndex.Order
import Reflection.ClassIndex.Tables
import Reflection.CommandLine
import Reflection.Context
import Reflection.Context.Loop
import Reflection.Context.Queue
import Reflection.Declaration
import Reflection.Declaration.Bracket
import Reflection.Declaration.ClassBody
import Reflection.Declaration.ClassHead
import Reflection.Declaration.Constant
import Reflection.Declaration.Enumeration
import Reflection.Declaration.Function
import Reflection.Declaration.Header
import Reflection.Declaration.Property
import Reflection.Declaration.StringLiteral
import Reflection.Dispatcher
import Reflection.Dispatcher.Connection
import Reflection.Dispatcher.Emission
import Reflection.Dispatcher.Invocation
import Reflection.Dispatcher.Link
import Reflection.Dispatcher.Object
import Reflection.Dispatcher.Overview
import Reflection.FileTree
import Reflection.Json
import Reflection.Json.Fields
import Reflection.Json.Library
import Reflection.Json.Reader
import Reflection.Json.Standard
import Reflection.Json.Writer
import Reflection.Machine
import Reflection.Machine.Act
import Reflection.Machine.Frame
import Reflection.Machine.Shared
import Reflection.Machine.Step
import Reflection.Main
import Reflection.Member
import Reflection.MetaClass
import Reflection.Options
import Reflection.Path
import Reflection.Proofs.Arena
import Reflection.Proofs.Artifact.Encoding
import Reflection.Proofs.Artifact.Rendering
import Reflection.Proofs.Batch.Accounts
import Reflection.Proofs.Batch.BasesFirst
import Reflection.Proofs.Batch.Building
import Reflection.Proofs.Batch.Compiling
import Reflection.Proofs.Batch.FileOrder
import Reflection.Proofs.Batch.Isolation
import Reflection.Proofs.Batch.Loading
import Reflection.Proofs.Batch.Outputs
import Reflection.Proofs.Checks
import Reflection.Proofs.ClassIndex.ByName
import Reflection.Proofs.ClassIndex.ClassInfo
import Reflection.Proofs.ClassIndex.DeclaredTexts
import Reflection.Proofs.ClassIndex.NotifySignals
import Reflection.Proofs.ClassIndex.Order
import Reflection.Proofs.ClassIndex.Scopes
import Reflection.Proofs.ClassIndex.Tables
import Reflection.Proofs.Context.Holders
import Reflection.Proofs.Context.Waiting
import Reflection.Proofs.Declaration.Enumerations
import Reflection.Proofs.Declaration.Enumerators
import Reflection.Proofs.Declaration.Evaluation
import Reflection.Proofs.Declaration.Functions
import Reflection.Proofs.Declaration.Members
import Reflection.Proofs.Declaration.Nesting
import Reflection.Proofs.Declaration.Notes
import Reflection.Proofs.Declaration.ParameterTexts
import Reflection.Proofs.Declaration.Progress
import Reflection.Proofs.Declaration.Reading
import Reflection.Proofs.Declaration.Templates
import Reflection.Proofs.Declaration.Written
import Reflection.Proofs.Declaration.WrittenMembers
import Reflection.Proofs.Dispatcher.Connecting
import Reflection.Proofs.Dispatcher.Counts
import Reflection.Proofs.Dispatcher.Links
import Reflection.Proofs.Dispatcher.Matching
import Reflection.Proofs.Dispatcher.Order
import Reflection.Proofs.Dispatcher.Relinking
import Reflection.Proofs.Dispatcher.Removal
import Reflection.Proofs.Dispatcher.Snapshot
import Reflection.Proofs.Dispatcher.Typing
import Reflection.Proofs.Dispatcher.Views
import Reflection.Proofs.FileTree
import Reflection.Proofs.Json.Reading
import Reflection.Proofs.Lists
import Reflection.Proofs.Machine.Accounts
import Reflection.Proofs.Machine.Bindings
import Reflection.Proofs.Machine.Blocking
import Reflection.Proofs.Machine.Changes
import Reflection.Proofs.Machine.ClientCode
import Reflection.Proofs.Machine.Completions
import Reflection.Proofs.Machine.Connecting
import Reflection.Proofs.Machine.Cutting
import Reflection.Proofs.Machine.Delivery
import Reflection.Proofs.Machine.Destruction
import Reflection.Proofs.Machine.Emission
import Reflection.Proofs.Machine.Executions
import Reflection.Proofs.Machine.Fifo
import Reflection.Proofs.Machine.Handles
import Reflection.Proofs.Machine.Invocations
import Reflection.Proofs.Machine.Links
import Reflection.Proofs.Machine.LoopContexts
import Reflection.Proofs.Machine.Moves
import Reflection.Proofs.Machine.Order
import Reflection.Proofs.Machine.Queues
import Reflection.Proofs.Machine.Relinking
import Reflection.Proofs.Machine.Removal
import Reflection.Proofs.Machine.Runs
import Reflection.Proofs.Machine.Serving
import Reflection.Proofs.Machine.Single
import Reflection.Proofs.Machine.Stack
import Reflection.Proofs.Machine.Stakes
import Reflection.Proofs.Machine.Traffic
import Reflection.Proofs.Machine.Turn
import Reflection.Proofs.Machine.Views
import Reflection.Proofs.MetaClass.Lineage
import Reflection.Proofs.MetaClass.Places
import Reflection.Proofs.Path
import Reflection.Proofs.Registry.Additions
import Reflection.Proofs.Registry.Atomicity
import Reflection.Proofs.Registry.Consistency
import Reflection.Proofs.Registry.Growth
import Reflection.Proofs.Registry.Inheritance
import Reflection.Proofs.Registry.Loading
import Reflection.Proofs.Registry.Reregistration
import Reflection.Proofs.Signature.Chopping
import Reflection.Proofs.Signature.NormalForm
import Reflection.Proofs.Signature.Outline
import Reflection.Proofs.Signature.ParameterNames
import Reflection.Proofs.Signature.Qualifiers
import Reflection.Proofs.Signature.Rendering
import Reflection.Proofs.Signature.Spelling
import Reflection.Proofs.Signature.Splitting
import Reflection.Proofs.Signature.Tokens
import Reflection.Proofs.Signature.TypeForms
import Reflection.Proofs.Source.Bytes
import Reflection.Proofs.Source.Characters
import Reflection.Proofs.Source.Lexemes
import Reflection.Proofs.Source.Lookahead
import Reflection.Proofs.Source.Spacing
import Reflection.Proofs.Source.Tiling
import Reflection.Proofs.Table.Building
import Reflection.Proofs.Table.Interning
import Reflection.Proofs.Table.Validity
import Reflection.Proofs.Text.RawString
import Reflection.Registry
import Reflection.Scenario.Plan
import Reflection.Scenario.Session
import Reflection.Scenario.Step
import Reflection.Scenario.Template
import Reflection.Scenario.Workspace
import Reflection.Signature
import Reflection.Signature.TypeText
import Reflection.Source.Scan
import Reflection.Source.Token
import Reflection.Table
import Reflection.Table.Builder
import Reflection.Table.Encoding
import Reflection.Text.Blank
import Reflection.Text.Digits
import Reflection.Text.Duration
import Reflection.Text.Hidden
import Reflection.Text.Quoted
import Reflection.Text.RawString
import Reflection.Variant
