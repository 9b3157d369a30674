import BuildPipeline.Block.Basic
import BuildPipeline.Block.Commands
import BuildPipeline.Block.Definition
import BuildPipeline.Block.Registry
import BuildPipeline.Build.Naming
import BuildPipeline.Build.Progress
import BuildPipeline.Build.Start
import BuildPipeline.Build.Status
import BuildPipeline.BuildNode
import BuildPipeline.BuildSpec.Basic
import BuildPipeline.BuildSpec.Compile
import BuildPipeline.BuildSpec.Render
import BuildPipeline.Config.Fingerprint
import BuildPipeline.Config.Load
import BuildPipeline.Config.Merge
import BuildPipeline.Config.Settings
import BuildPipeline.Digest.Sha256
import BuildPipeline.Document.Shape
import BuildPipeline.Document.Text
import BuildPipeline.Document.Value
import BuildPipeline.Engine.Context
import BuildPipeline.Engine.Dispatch
import BuildPipeline.Engine.Journal
import BuildPipeline.Engine.Run
import BuildPipeline.Failure.Basic
import BuildPipeline.Failure.Fault
import BuildPipeline.Failure.Payload
import BuildPipeline.Failure.Report
import BuildPipeline.Files.Error
import BuildPipeline.Files.Path
import BuildPipeline.Files.Tree
import BuildPipeline.Graph.Basic
import BuildPipeline.Graph.FieldName
import BuildPipeline.Graph.Plan
import BuildPipeline.Graph.Prune
import BuildPipeline.Json.KeyOrder
import BuildPipeline.Json.Reader
import BuildPipeline.Json.Writer
import BuildPipeline.Number.Binary64
import BuildPipeline.Number.Display
import BuildPipeline.Number.PowerOfTwo
import BuildPipeline.Number.Reader
import BuildPipeline.Number.Shortest
import BuildPipeline.Proofs.AcceptedSettings
import BuildPipeline.Proofs.Atomicity
import BuildPipeline.Proofs.AttemptReports
import BuildPipeline.Proofs.Attempts
import BuildPipeline.Proofs.AuditTrail
import BuildPipeline.Proofs.BlockIndexes
import BuildPipeline.Proofs.BuildNodes
import BuildPipeline.Proofs.BuildProgress
import BuildPipeline.Proofs.BuildStarts
import BuildPipeline.Proofs.Calendar
import BuildPipeline.Proofs.Confinement
import BuildPipeline.Proofs.ContextLog
import BuildPipeline.Proofs.Cycles
import BuildPipeline.Proofs.Delays
import BuildPipeline.Proofs.Deposits
import BuildPipeline.Proofs.DepthFirst
import BuildPipeline.Proofs.DocumentKinds
import BuildPipeline.Proofs.DocumentLaws
import BuildPipeline.Proofs.DocumentNames
import BuildPipeline.Proofs.Durations
import BuildPipeline.Proofs.EventLog
import BuildPipeline.Proofs.Expansion
import BuildPipeline.Proofs.FailFast
import BuildPipeline.Proofs.FieldSpellings
import BuildPipeline.Proofs.FileTrees
import BuildPipeline.Proofs.Fingerprints
import BuildPipeline.Proofs.GraphLaws
import BuildPipeline.Proofs.Handover
import BuildPipeline.Proofs.Interleavings
import BuildPipeline.Proofs.IsoMoments
import BuildPipeline.Proofs.Json.KeySorting
import BuildPipeline.Proofs.Json.ReadBack
import BuildPipeline.Proofs.Json.ReadDocuments
import BuildPipeline.Proofs.Json.Reordering
import BuildPipeline.Proofs.Json.Serializable
import BuildPipeline.Proofs.Json.WrittenDocuments
import BuildPipeline.Proofs.Json.WrittenNumbers
import BuildPipeline.Proofs.Json.WrittenScalars
import BuildPipeline.Proofs.JsonLaws
import BuildPipeline.Proofs.LineGroups
import BuildPipeline.Proofs.LoadedConfigs
import BuildPipeline.Proofs.Lockstep
import BuildPipeline.Proofs.LowerLaws
import BuildPipeline.Proofs.MergeConflicts
import BuildPipeline.Proofs.MergeLaws
import BuildPipeline.Proofs.NodeAccounts
import BuildPipeline.Proofs.NodeEffects
import BuildPipeline.Proofs.NodeSteps
import BuildPipeline.Proofs.NormalForms
import BuildPipeline.Proofs.Number.FloatBits
import BuildPipeline.Proofs.Number.Products
import BuildPipeline.Proofs.Number.Rounding
import BuildPipeline.Proofs.Number.ShortestDigits
import BuildPipeline.Proofs.OverrideAlgebra
import BuildPipeline.Proofs.Persistence
import BuildPipeline.Proofs.PlanAgreement
import BuildPipeline.Proofs.PlanLaws
import BuildPipeline.Proofs.ProgressReports
import BuildPipeline.Proofs.PrunedGraphs
import BuildPipeline.Proofs.Reachability
import BuildPipeline.Proofs.RecordLaws
import BuildPipeline.Proofs.RecordReplay
import BuildPipeline.Proofs.RecordSteps
import BuildPipeline.Proofs.RecordStorage
import BuildPipeline.Proofs.Registrations
import BuildPipeline.Proofs.Reportable
import BuildPipeline.Proofs.RetryPaths
import BuildPipeline.Proofs.RoundTrip
import BuildPipeline.Proofs.RunFilings
import BuildPipeline.Proofs.RunLaws
import BuildPipeline.Proofs.Schedule
import BuildPipeline.Proofs.SessionLaws
import BuildPipeline.Proofs.SharedTrees
import BuildPipeline.Proofs.SilentGaps
import BuildPipeline.Proofs.SpecDocuments
import BuildPipeline.Proofs.SpecSections
import BuildPipeline.Proofs.StoreEquivalence
import BuildPipeline.Proofs.StoreLaws
import BuildPipeline.Proofs.StoreUpdates
import BuildPipeline.Proofs.StoredRuns
import BuildPipeline.Proofs.Strictness
import BuildPipeline.Proofs.TableLaws
import BuildPipeline.Proofs.TagFilters
import BuildPipeline.Proofs.TopologicalPlan
import BuildPipeline.Proofs.TrialLaws
import BuildPipeline.Proofs.Yaml.ContentLaws
import BuildPipeline.Proofs.Yaml.CursorLaws
import BuildPipeline.Proofs.Yaml.DoubleQuotes
import BuildPipeline.Proofs.Yaml.LexerLaws
import BuildPipeline.Proofs.Yaml.LexerRuns
import BuildPipeline.Proofs.Yaml.ParserLaws
import BuildPipeline.Proofs.Yaml.PhysicalLines
import BuildPipeline.Proofs.Yaml.PlainScalars
import BuildPipeline.Proofs.Yaml.QuotedScalars
import BuildPipeline.Proofs.Yaml.ReadKeys
import BuildPipeline.Proofs.Yaml.SingleQuotes
import BuildPipeline.Proofs.Yaml.WrittenContent
import BuildPipeline.Proofs.Yaml.WrittenGlyphs
import BuildPipeline.Proofs.Yaml.WrittenNodes
import BuildPipeline.Proofs.Yaml.WrittenNumbers
import BuildPipeline.Proofs.Yaml.WrittenScalars
import BuildPipeline.Proofs.Yaml.WrittenTokens
import BuildPipeline.Record.Basic
import BuildPipeline.Retry.Policy
import BuildPipeline.Retry.Trial
import BuildPipeline.Store.Basic
import BuildPipeline.Store.Directory
import BuildPipeline.Store.Error
import BuildPipeline.Store.Memory
import BuildPipeline.Table
import BuildPipeline.Text.Blank
import BuildPipeline.Text.Digit
import BuildPipeline.Text.Hex
import BuildPipeline.Text.LowerCase
import BuildPipeline.Text.Newline
import BuildPipeline.Text.Printable
import BuildPipeline.Text.Quoted
import BuildPipeline.Text.Search
import BuildPipeline.Text.UpperCase
import BuildPipeline.Text.Utf8
import BuildPipeline.Time.Calendar
import BuildPipeline.Time.Iso
import BuildPipeline.Time.Moment
import BuildPipeline.Time.Span
import BuildPipeline.Trigger.Basic
import BuildPipeline.Trigger.Deployment
import BuildPipeline.Validation
import BuildPipeline.Yaml.Content
import BuildPipeline.Yaml.Cursor
import BuildPipeline.Yaml.Error
import BuildPipeline.Yaml.Fold
import BuildPipeline.Yaml.Literal
import BuildPipeline.Yaml.Node
import BuildPipeline.Yaml.Node.Reader
import BuildPipeline.Yaml.Reader
import BuildPipeline.Yaml.Style
import BuildPipeline.Yaml.Tag
import BuildPipeline.Yaml.Token
import BuildPipeline.Yaml.Token.Lexer
import BuildPipeline.Yaml.Token.Scalar
import BuildPipeline.Yaml.Writer
