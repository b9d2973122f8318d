import IncrementalC.Analysis.Lowering
import IncrementalC.Analysis.Problem
import IncrementalC.Analysis.Program
import IncrementalC.Analysis.Scope
import IncrementalC.AtExit.Registry
import IncrementalC.Code.References
import IncrementalC.Code.Unit
import IncrementalC.Compilation.Checker
import IncrementalC.Compilation.Compiler
import IncrementalC.Compilation.Scope
import IncrementalC.Config.Basic
import IncrementalC.Config.Written
import IncrementalC.Declaration.Table
import IncrementalC.Diagnostic
import IncrementalC.Engine.Basic
import IncrementalC.Engine.Execution
import IncrementalC.Engine.Reachability
import IncrementalC.Engine.Unloading
import IncrementalC.Files.Path
import IncrementalC.Files.Tree
import IncrementalC.Host.Native
import IncrementalC.Host.Trace
import IncrementalC.Input.Balance
import IncrementalC.Input.Scan
import IncrementalC.Input.GeneratedName
import IncrementalC.Input.Wrapping
import IncrementalC.Library.Loader
import IncrementalC.Library.Resolver
import IncrementalC.LogLevel
import IncrementalC.Machine.Address
import IncrementalC.Machine.Evaluation
import IncrementalC.Machine.Fault
import IncrementalC.Machine.Module
import IncrementalC.Operator
import IncrementalC.Session.Basic
import IncrementalC.Session.Loading
import IncrementalC.Session.Running
import IncrementalC.Session.Snippets
import IncrementalC.Session.Submission
import IncrementalC.Source.LineWindow
import IncrementalC.Source.Position
import IncrementalC.Syntax.Grammar
import IncrementalC.Syntax.Parser
import IncrementalC.Syntax.Tree
import IncrementalC.Text.Blank
import IncrementalC.Text.Keyed
import IncrementalC.Text.NameSet
import IncrementalC.Token.Basic
import IncrementalC.Token.Lexer
import IncrementalC.Toml.Document
import IncrementalC.Toml.Entries
import IncrementalC.Toml.Reader
import IncrementalC.Toml.Scalar
import IncrementalC.Toml.Writer
import IncrementalC.Transaction.Basic
import IncrementalC.Transaction.Log
import IncrementalC.Value
import IncrementalC.Proofs.Analysis.Congruence
import IncrementalC.Proofs.Declaration.Index
import IncrementalC.Proofs.Declaration.Renumbering
import IncrementalC.Proofs.Analysis.Extension
import IncrementalC.Proofs.Analysis.Renumbering
import IncrementalC.Proofs.Compilation.Reading
import IncrementalC.Proofs.Compilation.Accounting
import IncrementalC.Proofs.Analysis.Definition
import IncrementalC.Proofs.Compilation.Operation
import IncrementalC.Proofs.Compilation.Renumbering
import IncrementalC.Proofs.Compilation.Rollback
import IncrementalC.Proofs.Machine.Storage
import IncrementalC.Proofs.Lowering.Meaning
import IncrementalC.Proofs.Lowering.Storage
import IncrementalC.Proofs.Lowering.Expression
import IncrementalC.Proofs.Analysis.Scope
import IncrementalC.Proofs.Lowering.Frames
import IncrementalC.Proofs.Lowering.Fitting
import IncrementalC.Proofs.Lowering.SourceToCode
import IncrementalC.Proofs.Lowering.CodeToSource
import IncrementalC.Proofs.Lowering.Function
import IncrementalC.Proofs.Lowering.Program
import IncrementalC.Proofs.Syntax.Readers
import IncrementalC.Proofs.Syntax.Grammar
import IncrementalC.Proofs.Syntax.Soundness
import IncrementalC.Proofs.Syntax.Completeness
import IncrementalC.Proofs.Syntax.Program
import IncrementalC.Proofs.Library.Resolver
import IncrementalC.Proofs.Machine.Hosting
import IncrementalC.Proofs.Machine.Descent
import IncrementalC.Proofs.Machine.Module
import IncrementalC.Proofs.Machine.Running
import IncrementalC.Proofs.Engine.Running
import IncrementalC.Proofs.Engine.Search
import IncrementalC.Proofs.AtExit.History
import IncrementalC.Proofs.Engine.AtExit
import IncrementalC.Proofs.Engine.Conservation
import IncrementalC.Proofs.Engine.Callbacks
import IncrementalC.Proofs.Engine.State
import IncrementalC.Proofs.Engine.Precedence
import IncrementalC.Proofs.Engine.WellFormed
import IncrementalC.Proofs.Engine.Courses
import IncrementalC.Proofs.Engine.Breakdown
import IncrementalC.Proofs.Engine.Binding
import IncrementalC.Proofs.Engine.Journal
import IncrementalC.Proofs.Engine.Recording
import IncrementalC.Proofs.Engine.Initialization
import IncrementalC.Proofs.Engine.Unloading
import IncrementalC.Proofs.Engine.Steps
import IncrementalC.Proofs.Engine.Bindings
import IncrementalC.Proofs.Engine.Names
import IncrementalC.Proofs.Compilation.Sound
import IncrementalC.Proofs.Compilation.Assertions
import IncrementalC.Proofs.Session.Operation
import IncrementalC.Proofs.Session.Sound
import IncrementalC.Proofs.Session.Steps
import IncrementalC.Proofs.Session.Performing
import IncrementalC.Proofs.Session.Initialization
import IncrementalC.Proofs.Session.Resolution
import IncrementalC.Proofs.Session.Agreement
import IncrementalC.Proofs.Session.Entries
import IncrementalC.Proofs.Session.Definitions
import IncrementalC.Proofs.Token.Continuation
import IncrementalC.Proofs.Token.Trivia
import IncrementalC.Proofs.Token.Segmentation
import IncrementalC.Proofs.Syntax.Continuation
import IncrementalC.Proofs.Syntax.Unfinished
import IncrementalC.Proofs.Input.Joining
import IncrementalC.Proofs.Syntax.Brackets
import IncrementalC.Proofs.Input.Brackets
import IncrementalC.Proofs.Input.Wrapping
import IncrementalC.Proofs.Compilation.Chunks
import IncrementalC.Proofs.Session.Chunks
import IncrementalC.Proofs.Session.Isolation
import IncrementalC.Proofs.Session.AtExit
import IncrementalC.Proofs.Session.Breakdown
import IncrementalC.Proofs.Token.Relocation
import IncrementalC.Proofs.Syntax.Relocation
import IncrementalC.Proofs.Syntax.Braces
import IncrementalC.Proofs.Input.Placement
import IncrementalC.Proofs.Syntax.Nesting
import IncrementalC.Proofs.Analysis.Items
import IncrementalC.Proofs.Input.Enclosure
import IncrementalC.Proofs.Syntax.Unclosed
import IncrementalC.Proofs.Input.Balance
import IncrementalC.Proofs.Input.Comments
import IncrementalC.Proofs.Session.Placement
import IncrementalC.Proofs.Session.Dependents
import IncrementalC.Proofs.Analysis.Ownership
import IncrementalC.Proofs.Session.Names
import IncrementalC.Proofs.Lowering.Typing
import IncrementalC.Proofs.Lowering.Returning
import IncrementalC.Proofs.Analysis.Units
import IncrementalC.Proofs.Analysis.Kinds
import IncrementalC.Proofs.Compilation.Units
import IncrementalC.Proofs.Compilation.Scopes
import IncrementalC.Proofs.Engine.Supplying
import IncrementalC.Proofs.Session.Supplying
import IncrementalC.Proofs.Compilation.Naming
import IncrementalC.Proofs.Compilation.Discarding
import IncrementalC.Proofs.Engine.Containment
import IncrementalC.Proofs.Engine.Reversal
import IncrementalC.Proofs.Session.Running
import IncrementalC.Proofs.Session.Keeping
import IncrementalC.Proofs.Session.Observing
import IncrementalC.Proofs.Session.Reversal
import IncrementalC.Proofs.Session.Loading
import IncrementalC.Proofs.Machine.Symbols
import IncrementalC.Proofs.Machine.Agreement
import IncrementalC.Proofs.Machine.CallDepth
import IncrementalC.Proofs.Engine.Rebinding
import IncrementalC.Proofs.Engine.Reaching
import IncrementalC.Proofs.Engine.Orderly
import IncrementalC.Proofs.Engine.Blocking
import IncrementalC.Proofs.Engine.Reporting
import IncrementalC.Proofs.Session.Requesting
import IncrementalC.Proofs.Source.LineWindow
import IncrementalC.Proofs.Input.Window
import IncrementalC.Proofs.Token.Stretches
import IncrementalC.Proofs.Syntax.Reporting
import IncrementalC.Proofs.Syntax.Spans
import IncrementalC.Proofs.Analysis.Places
import IncrementalC.Proofs.Compilation.Reports
import IncrementalC.Proofs.Session.Submitting
import IncrementalC.Proofs.Session.Continuing
import IncrementalC.Proofs.Session.Reporting
import IncrementalC.Proofs.Library.History
import IncrementalC.Proofs.Library.Holding
import IncrementalC.Proofs.Engine.Natives
import IncrementalC.Proofs.Input.Endings
import IncrementalC.Proofs.Input.FreshNames
import IncrementalC.Proofs.Machine.Extension
import IncrementalC.Proofs.Engine.Likeness
import IncrementalC.Proofs.Engine.Querying
import IncrementalC.Proofs.Session.Querying
import IncrementalC.Proofs.Declaration.History
import IncrementalC.Proofs.Code.Occurrences
import IncrementalC.Proofs.Machine.Demands
import IncrementalC.Proofs.Syntax.Walking
import IncrementalC.Proofs.Syntax.Advancing
