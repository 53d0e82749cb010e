import AssetBake.Text.Lowercase
import AssetBake.Text.Utf8
import AssetBake.Text.Quoted
import AssetBake.Text.Blank
import AssetBake.Text.Lines
import AssetBake.Text.EditDistance
import AssetBake.Path
import AssetBake.Failure
import AssetBake.Key.Registry
import AssetBake.Literal
import AssetBake.Header
import AssetBake.Exclude
import AssetBake.Diff.Middle
import AssetBake.Diff.Script
import AssetBake.Diff.Compact
import AssetBake.Diff.Hunk
import AssetBake.Terminal
import AssetBake.Diff.Unified
import AssetBake.Outcome
import AssetBake.Report.Summary
import AssetBake.Report.Annotation
import AssetBake.Report.Complaint
import AssetBake.Report.Json
import AssetBake.Log
import AssetBake.Config
import AssetBake.Config.Environment
import AssetBake.Config.Warning
import AssetBake.Report.Event
import AssetBake.Toml.Binary64
import AssetBake.Toml.Value
import AssetBake.Toml.Scalar
import AssetBake.Toml.Document
import AssetBake.Toml.Parser
import AssetBake.Toml.Excerpt
import AssetBake.Config.Decode
import AssetBake.Config.Load
import AssetBake.CommandLine
import AssetBake.CommandLine.Parser
import AssetBake.FileTree
import AssetBake.FileTree.Resolve
import AssetBake.FileTree.Replace
import AssetBake.FileTree.Edit
import AssetBake.Walk
import AssetBake.Job
import AssetBake.Log.Filter
import AssetBake.Config.File
import AssetBake.Session
import AssetBake.Main
import AssetBake.Proofs.Text.Utf8
import AssetBake.Proofs.Path.Names
import AssetBake.Proofs.Header.RoundTrip
import AssetBake.Proofs.Literal.Characters
import AssetBake.Proofs.Literal.Recovery
import AssetBake.Proofs.Literal.Phases
import AssetBake.Proofs.Exclude.Roots
import AssetBake.Proofs.FileTree.Following
import AssetBake.Proofs.FileTree.Replacing
import AssetBake.Proofs.FileTree.ReadingBack
import AssetBake.Proofs.Walk.Visiting
import AssetBake.Proofs.Walk.Order
import AssetBake.Proofs.Walk.Exactness
import AssetBake.Proofs.Walk.Growing
import AssetBake.Proofs.Job.Planning
import AssetBake.Proofs.Job.Collecting
import AssetBake.Proofs.Job.Atomicity
import AssetBake.Proofs.Job.Agreement
import AssetBake.Proofs.Job.Fixpoint
import AssetBake.Proofs.Key.Derivation
import AssetBake.Proofs.Job.Policies
import AssetBake.Proofs.Config.Fields
import AssetBake.Proofs.Text.Lowercase
import AssetBake.Proofs.CommandLine.Uses
import AssetBake.Proofs.Config.Layers
import AssetBake.Proofs.CommandLine.Sides
import AssetBake.Proofs.CommandLine.Switches
import AssetBake.Proofs.Report.Lines
import AssetBake.Proofs.Session.EventStream
import AssetBake.Proofs.Header.Lexer
import AssetBake.Proofs.Header.Preprocessor
import AssetBake.Proofs.Header.Tokens
import AssetBake.Proofs.Config.Validation
import AssetBake.Proofs.Header.Declaration
import AssetBake.Proofs.Key.Separation
import AssetBake.Proofs.Path.NormalForm
import AssetBake.Proofs.Exclude.Appending
import AssetBake.Proofs.Walk.Narrowing
import AssetBake.Proofs.Job.Narrowing
import AssetBake.Proofs.Walk.Descending
import AssetBake.Proofs.Walk.Sights
import AssetBake.Proofs.FileTree.Passing
import AssetBake.Proofs.Walk.Hiding
import AssetBake.Proofs.Report.Annotation
import AssetBake.Proofs.FileTree.Writing
import AssetBake.Proofs.Diff.Fitting
import AssetBake.Proofs.Diff.Moving
import AssetBake.Proofs.Diff.Hunks
import AssetBake.Proofs.Diff.Reader
import AssetBake.Proofs.Diff.Patch
import AssetBake.Proofs.Job.Staleness
import AssetBake.Proofs.Literal.Delimiters
import AssetBake.Proofs.Text.EditDistance
import AssetBake.Proofs.Config.Suggestion
import AssetBake.Proofs.Report.Reader
import AssetBake.Proofs.Report.Records
import AssetBake.Proofs.Toml.Entries
import AssetBake.Proofs.Toml.Reading
import AssetBake.Proofs.Config.FirstLines
import AssetBake.Proofs.Config.Locating
import AssetBake.Proofs.Config.Unknown
import AssetBake.Proofs.Config.Warnings
