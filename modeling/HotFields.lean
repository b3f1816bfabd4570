import HotFields.Program.Basic
import HotFields.Program.Validate
import HotFields.Program.Uses
import HotFields.Program.Query
import HotFields.Program.Builder
import HotFields.Log
import HotFields.Options.Basic
import HotFields.Analysis.Access
import HotFields.Analysis.Table
import HotFields.Analysis.Report
import HotFields.Analysis.Resolve
import HotFields.Analysis.Walk
import HotFields.Analysis.Pass
import HotFields.Analysis.Parallel
import HotFields.Number.Binary64
import HotFields.Number.Shortest
import HotFields.Text.Digit
import HotFields.Text.Shown
import HotFields.Text.Quoted
import HotFields.Datum
import HotFields.Json.Reader
import HotFields.Json.Text
import HotFields.Json.Number
import HotFields.Json.Value
import HotFields.Json.Skip
import HotFields.Json.Record
import HotFields.Json.Printer
import HotFields.Program.FromDatum
import HotFields.Program.Record
import HotFields.Program.Json
import HotFields.Yaml.Cursor
import HotFields.Yaml.ScalarText
import HotFields.Yaml.Property
import HotFields.Yaml.Token
import HotFields.Yaml.Node
import HotFields.Yaml.Typed
import HotFields.Yaml.Decode
import HotFields.Program.Yaml
import HotFields.Files
import HotFields.Program.Load
import HotFields.Toml.Table
import HotFields.Toml.Reader
import HotFields.Toml.Text
import HotFields.Toml.Scalar
import HotFields.Toml.Document
import HotFields.Options.Toml
import HotFields.Timing
import HotFields.Command.Arguments
import HotFields.Command.Filter
import HotFields.Command.Run
import HotFields.Main
import HotFields.Proofs.Ascending
import HotFields.Proofs.TableCounts
import HotFields.Proofs.ChainAccesses
import HotFields.Proofs.ChainPositions
import HotFields.Proofs.WalkTrace
import HotFields.Proofs.PassRun
import HotFields.Proofs.CountFormula
import HotFields.Proofs.QuietWalk
import HotFields.Proofs.ParallelAgreement
import HotFields.Proofs.ValidReferences
import HotFields.Proofs.UseLists
import HotFields.Proofs.WalkAgreement
import HotFields.Proofs.ScopeLimitation
import HotFields.Proofs.OptionOrder
import HotFields.Proofs.JsonScalars
import HotFields.Proofs.JsonContainers
import HotFields.Proofs.JsonRecords
import HotFields.Proofs.ProgramRoundTrip
import HotFields.Proofs.LayoutIndependence
import HotFields.Proofs.Renumbering
import HotFields.Proofs.RenumberedWalk
import HotFields.Proofs.StrictAnalysis
import HotFields.Proofs.LookupSafety
import HotFields.Proofs.MaterializedAddress
import HotFields.Proofs.PassHooks
import HotFields.Proofs.SharedUpdates
import HotFields.Proofs.ProgramGrowth
import HotFields.Proofs.BuilderDiscipline
import HotFields.Proofs.ChainComposition
import HotFields.Proofs.ScopePartition
import HotFields.Proofs.WalkHistory
import HotFields.Proofs.CommandStages
import HotFields.Proofs.FirstDangling
import HotFields.Proofs.ExactUses
import HotFields.Proofs.IndexValues
import HotFields.Proofs.TableMerging
import HotFields.Proofs.TableTotals
import HotFields.Proofs.ClassifiedOnce
import HotFields.Proofs.ByteOrder
import HotFields.Proofs.ReportReading
import HotFields.Proofs.ResolvedOptions
import HotFields.Proofs.BuilderSteps
import HotFields.Proofs.BuilderPlacement
import HotFields.Proofs.TableRuns
