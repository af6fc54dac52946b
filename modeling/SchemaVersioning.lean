import SchemaVersioning.Analysis
import SchemaVersioning.Analysis.Data
import SchemaVersioning.Analysis.Journal
import SchemaVersioning.Binding
import SchemaVersioning.Codec
import SchemaVersioning.Codec.Shape
import SchemaVersioning.Codec.Step
import SchemaVersioning.CommandLine.Argument
import SchemaVersioning.CommandLine.Command
import SchemaVersioning.CommandLine.PlainText
import SchemaVersioning.CommandLine.Report
import SchemaVersioning.Config
import SchemaVersioning.Config.Data
import SchemaVersioning.Declaration
import SchemaVersioning.Declaration.Data
import SchemaVersioning.Declaration.Reading
import SchemaVersioning.Diagnostic
import SchemaVersioning.Diagnostic.Data
import SchemaVersioning.Dispatch
import SchemaVersioning.Dispatch.Journal
import SchemaVersioning.Display
import SchemaVersioning.Failure
import SchemaVersioning.Family
import SchemaVersioning.Family.Build
import SchemaVersioning.Family.Data
import SchemaVersioning.Family.Discovery
import SchemaVersioning.Family.Interruption
import SchemaVersioning.Family.Problem
import SchemaVersioning.Family.Synthesis
import SchemaVersioning.Family.VersionName
import SchemaVersioning.Json.Reader
import SchemaVersioning.Json.Writer
import SchemaVersioning.Loading.Compilation
import SchemaVersioning.Loading.Document
import SchemaVersioning.Loading.StageError
import SchemaVersioning.Loading.Workspace
import SchemaVersioning.Main
import SchemaVersioning.Number.Binary64
import SchemaVersioning.Proofs.BoundFamilies
import SchemaVersioning.Proofs.Containers
import SchemaVersioning.Proofs.Dispatching
import SchemaVersioning.Proofs.IllegibleContainers
import SchemaVersioning.Proofs.Leakage
import SchemaVersioning.Proofs.Legibility
import SchemaVersioning.Proofs.LegibleReferences
import SchemaVersioning.Proofs.Naming
import SchemaVersioning.Proofs.Numbering
import SchemaVersioning.Proofs.Order
import SchemaVersioning.Proofs.Outcome
import SchemaVersioning.Proofs.Places
import SchemaVersioning.Proofs.Resolution
import SchemaVersioning.Proofs.Tables
import SchemaVersioning.Proofs.Upgrades
import SchemaVersioning.Proofs.VersionNames
import SchemaVersioning.Proofs.Walks
import SchemaVersioning.Reading.Checked
import SchemaVersioning.Reading.Issue
import SchemaVersioning.Reading.Nesting
import SchemaVersioning.Reading.Object
import SchemaVersioning.Reading.Scalar
import SchemaVersioning.Reference
import SchemaVersioning.Reference.Data
import SchemaVersioning.Reference.Index
import SchemaVersioning.Reference.Interruption
import SchemaVersioning.Reference.Resolution
import SchemaVersioning.RemoteCall
import SchemaVersioning.Rule.FunctorFamilies
import SchemaVersioning.Rule.StableTypes
import SchemaVersioning.Rule.VersionLeaks
import SchemaVersioning.Stage
import SchemaVersioning.Telemetry.Block
import SchemaVersioning.Telemetry.Journal
import SchemaVersioning.Telemetry.Tracer
import SchemaVersioning.Text.DecimalDigit
import SchemaVersioning.Text.IntegerText
import SchemaVersioning.Text.LowerCase
import SchemaVersioning.Text.NameSet
import SchemaVersioning.Text.Printable
import SchemaVersioning.Text.Quoted
import SchemaVersioning.Text.Surrogate
import SchemaVersioning.Text.Utf8
import SchemaVersioning.Value
import SchemaVersioning.Yaml.Assembly
import SchemaVersioning.Yaml.Cursor
import SchemaVersioning.Yaml.Document
import SchemaVersioning.Yaml.Moment
import SchemaVersioning.Yaml.Node
import SchemaVersioning.Yaml.Number
import SchemaVersioning.Yaml.Scalar
import SchemaVersioning.Yaml.ScalarText
import SchemaVersioning.Yaml.Tag
import SchemaVersioning.Yaml.Token
import SchemaVersioning.Yaml.Token.Lexer
import SchemaVersioning.Proofs.BoundCalls
import SchemaVersioning.Proofs.AliasArguments
import SchemaVersioning.Proofs.LatestMembers
import SchemaVersioning.Proofs.ShippedVersions
import SchemaVersioning.Proofs.Scoping
import SchemaVersioning.Proofs.SeparateUnits
import SchemaVersioning.Proofs.TestModules
import SchemaVersioning.Proofs.GeneratedAliases
import SchemaVersioning.Proofs.ReorderedContainers
import SchemaVersioning.Proofs.EnclosingContexts
import SchemaVersioning.Proofs.RoundTrips
import SchemaVersioning.Proofs.DecoderCalls
import SchemaVersioning.Proofs.JsonReading
import SchemaVersioning.Proofs.ShapeValues
import SchemaVersioning.Proofs.Utf8
import SchemaVersioning.Proofs.CodecRoundTrips
import SchemaVersioning.Proofs.Refusals
import SchemaVersioning.Proofs.LoadFailures
import SchemaVersioning.Proofs.PlainOutput
import SchemaVersioning.Proofs.Verdicts
import SchemaVersioning.Proofs.UnknownBuffers
import SchemaVersioning.Proofs.Grounds
import SchemaVersioning.Proofs.AliasExemptions
import SchemaVersioning.Proofs.TestDependencies
import SchemaVersioning.Proofs.Suggestions
import SchemaVersioning.Proofs.CanonicalNames
import SchemaVersioning.Proofs.ParameterizedFamilies
import SchemaVersioning.Proofs.Discovery
import SchemaVersioning.Proofs.Escapes
import SchemaVersioning.Proofs.BindableFamilies
import SchemaVersioning.Proofs.CodecFailures
import SchemaVersioning.Proofs.VersionReferences
import SchemaVersioning.Proofs.WellFormedAnswers
import SchemaVersioning.Proofs.ReportOrder
import SchemaVersioning.Proofs.NumberingGaps
import SchemaVersioning.Proofs.Expansions
import SchemaVersioning.Proofs.BlockTrees
import SchemaVersioning.Proofs.SpanRuns
import SchemaVersioning.Proofs.SpanHistories
import SchemaVersioning.Proofs.SpanNesting
import SchemaVersioning.Proofs.VersionLookup
import SchemaVersioning.Proofs.Shorthand
import SchemaVersioning.Proofs.OperationNames
