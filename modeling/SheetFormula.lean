import SheetFormula.Batch
import SheetFormula.CommandLine.Run
import SheetFormula.Diagnostic.Report
import SheetFormula.Entries.Decode
import SheetFormula.Entries.Encode
import SheetFormula.Formula.Output
import SheetFormula.Log.Message
import SheetFormula.Main
import SheetFormula.Settings.Load
import SheetFormula.Store
import SheetFormula.Tree.Decode
import SheetFormula.Watch
import SheetFormula.Proofs.Formula.Body
import SheetFormula.Proofs.Formula.Acceptance
import SheetFormula.Proofs.Formula.Reader
import SheetFormula.Proofs.Formula.ReadBack
import SheetFormula.Proofs.Formula.MemberModes
import SheetFormula.Proofs.Formula.Outline
import SheetFormula.Proofs.Formula.Output
import SheetFormula.Proofs.Formula.Runs
import SheetFormula.Proofs.Formula.Unit
import SheetFormula.Proofs.Json.Number
import SheetFormula.Proofs.Json.RoundTrip
import SheetFormula.Proofs.Tree.RoundTrip
import SheetFormula.Proofs.Fault
import SheetFormula.Proofs.Tree.Soundness
import SheetFormula.Proofs.Failures
import SheetFormula.Proofs.Entries.Json
import SheetFormula.Proofs.Path
import SheetFormula.Proofs.Store.Tables
import SheetFormula.Proofs.FileTree
import SheetFormula.Proofs.Store.Runs
import SheetFormula.Proofs.Store.Backends
import SheetFormula.Proofs.CommandLine.Build
import SheetFormula.Proofs.Batch.Delivery
import SheetFormula.Proofs.CommandLine.Handling
import SheetFormula.Proofs.CommandLine.Reporting
import SheetFormula.Proofs.CommandLine.Overwriting
import SheetFormula.Proofs.Watch.Debouncing
import SheetFormula.Proofs.Watch.Following
import SheetFormula.Proofs.Growth
import SheetFormula.Proofs.CleanPath
import SheetFormula.Proofs.CommandLine.Writing
import SheetFormula.Proofs.CommandLine.Repeating
import SheetFormula.Proofs.CommandLine.Finding
import SheetFormula.Proofs.Formula.Chains
import SheetFormula.Proofs.Formula.Names
import SheetFormula.Proofs.Formula.Values
import SheetFormula.Proofs.Formula.Contexts
import SheetFormula.Proofs.Formula.Marks
import SheetFormula.Proofs.Watch.Agreement
import SheetFormula.Proofs.Json.Extension
import SheetFormula.Proofs.Settings.References
import SheetFormula.Proofs.Store.Truncation
import SheetFormula.Proofs.Instant
import SheetFormula.Proofs.Store.Chronology
import SheetFormula.Proofs.Store.Consistency
import SheetFormula.Proofs.Store.Transactions
import SheetFormula.Proofs.Yaml.Scalar
import SheetFormula.Proofs.Yaml.Writer
import SheetFormula.Proofs.Yaml.Token
import SheetFormula.Proofs.Yaml.Node
import SheetFormula.Proofs.Entries.Yaml
import SheetFormula.Proofs.Settings.Validation
import SheetFormula.Proofs.Watch.Output
import SheetFormula.Proofs.Diagnostic.Report
