import HaxeMacro.Codec.Fragment
import HaxeMacro.Config.File
import HaxeMacro.Listing.Stage
import HaxeMacro.Proofs.Codec.Replace
import HaxeMacro.Proofs.Codec.RoundTrip
import HaxeMacro.Proofs.Parser.Expressions
import HaxeMacro.Proofs.Printing.Reprint
import HaxeMacro.Proofs.Parser.Literals
import HaxeMacro.Proofs.Parser.Rebase
import HaxeMacro.Proofs.Printing.Lists
import HaxeMacro.Proofs.Printing.ReadTypes
import HaxeMacro.Proofs.Dependency.EdgeMap
import HaxeMacro.Proofs.Engine.Queued
import HaxeMacro.Proofs.Parser.Climbing
import HaxeMacro.Proofs.Filter.Rounds
import HaxeMacro.Proofs.Engine.Publication
import HaxeMacro.Proofs.Engine.Lifecycle
import HaxeMacro.Proofs.Engine.Stranding
import HaxeMacro.Proofs.Engine.Remembered
import HaxeMacro.Proofs.Engine.Noted
import HaxeMacro.Proofs.Engine.Modes
import HaxeMacro.Proofs.Engine.Transparency
import HaxeMacro.Proofs.Engine.RestArguments
import HaxeMacro.Proofs.Evaluator.Closures
import HaxeMacro.Proofs.Evaluator.Constants
import HaxeMacro.Proofs.Evaluator.Overflow
import HaxeMacro.Proofs.Codec.Reencoding
import HaxeMacro.Proofs.Parser.Spans
import HaxeMacro.Proofs.Fragment.Quotes
import HaxeMacro.Proofs.Evaluator.Scopes
import HaxeMacro.Proofs.Filter.Snapshots
import HaxeMacro.Proofs.Filter.Reflush
import HaxeMacro.Proofs.Filter.Hoisting
import HaxeMacro.Proofs.Filter.Renaming
import HaxeMacro.Proofs.Filter.Boxing
import HaxeMacro.Proofs.Filter.Reports
import HaxeMacro.Proofs.Filter.Initializers
import HaxeMacro.Proofs.Filter.Dependencies
import HaxeMacro.Proofs.Codec.Descriptors
import HaxeMacro.Proofs.Value.Signs
import HaxeMacro.Proofs.Printing.Quoting
import HaxeMacro.Proofs.Engine.Filling
import HaxeMacro.Proofs.Diagnostic.Report
import HaxeMacro.Proofs.Evaluator.Logic
import HaxeMacro.Proofs.Compilation.Signature
import HaxeMacro.Proofs.Parser.Order
import HaxeMacro.Proofs.Fragment.Visitors
import HaxeMacro.Proofs.Filter.Collisions
import HaxeMacro.Proofs.Parser.Progress
