import SourceIr.Cli.Outcome
import SourceIr.Main
import SourceIr.Syntax.Node.Printer
import SourceIr.Proofs.Comptime
import SourceIr.Proofs.Flow.Unit
import SourceIr.Proofs.Joins.Unit
import SourceIr.Proofs.Destination.Unit
import SourceIr.Proofs.Trim.Unit
import SourceIr.Proofs.Policy
import SourceIr.Proofs.Pass.Unit
import SourceIr.Proofs.Nesting.Levels
import SourceIr.Proofs.Nesting.Unit
import SourceIr.Proofs.Lexical.Status
import SourceIr.Proofs.Lexical.Names
import SourceIr.Proofs.Lexical.Hygiene
import SourceIr.Proofs.Decl.Units
import SourceIr.Proofs.Decl.Visible
import SourceIr.Proofs.Decl.Complete
import SourceIr.Proofs.Decl.Primitive
import SourceIr.Proofs.Enclosure.Basic
import SourceIr.Proofs.Enclosure.Control
import SourceIr.Proofs.Enclosure.Unit
import SourceIr.Proofs.Retouch.Unit
import SourceIr.Proofs.Decl.Order
import SourceIr.Proofs.Verdict.Check
import SourceIr.Proofs.Syntax.RoundTrip
import SourceIr.Proofs.Formed
import SourceIr.Proofs.Upkeep.Child
import SourceIr.Proofs.Upkeep.Complete
import SourceIr.Proofs.Charge.Unit
import SourceIr.Proofs.Scope.Known
import SourceIr.Proofs.Scope.Index
import SourceIr.Proofs.Scope.Declare
import SourceIr.Proofs.Scope.Exit
import SourceIr.Proofs.Stream.History
import SourceIr.Proofs.Course.Unit
import SourceIr.Proofs.Course.Binders
import SourceIr.Proofs.Course.Framed
import SourceIr.Proofs.Course.Cascade
import SourceIr.Proofs.Effect.Idle
import SourceIr.Proofs.Inspection.Loops
import SourceIr.Proofs.Inspection.Naming
