import Scriptorium.Engine.Callers
import Scriptorium.Main
import Scriptorium.Proofs.Grammar.Taking
import Scriptorium.Repository.Faults
import Scriptorium.Proofs.Target.Operands
import Scriptorium.Proofs.Target.Statements
import Scriptorium.Proofs.Expression.Tree
import Scriptorium.Proofs.Text.Numeral
import Scriptorium.Proofs.Decimal.Text
import Scriptorium.Proofs.Expression.Agreement
import Scriptorium.Proofs.Expression.Terms
import Scriptorium.Proofs.Expression.Scope
import Scriptorium.Proofs.Name.Discriminator
import Scriptorium.Proofs.Script.Checking
import Scriptorium.Proofs.Script.Stepwise
import Scriptorium.Proofs.Record.Inquiry
import Scriptorium.Proofs.Script.Matches
import Scriptorium.Proofs.Script.Sound
import Scriptorium.Proofs.Script.Occurrences
import Scriptorium.Proofs.Script.Walk
import Scriptorium.Proofs.Decimal.Shortest
import Scriptorium.Proofs.Json.Escape
import Scriptorium.Proofs.Json.Numeral
import Scriptorium.Proofs.Json.Number
import Scriptorium.Proofs.Json.Reading
import Scriptorium.Proofs.Json.Tagged
import Scriptorium.Proofs.Name.Segments
import Scriptorium.Proofs.Unit.Reread
import Scriptorium.Proofs.Unit.Program
import Scriptorium.Proofs.Unit.Payload
import Scriptorium.Proofs.Engine.Seeding
import Scriptorium.Proofs.Target.Primitive
import Scriptorium.Proofs.Unit.Compilation
import Scriptorium.Proofs.Engine.Sources
import Scriptorium.Proofs.Engine.Standalone
import Scriptorium.Proofs.Engine.Compiled
import Scriptorium.Proofs.Run.Interpretation
import Scriptorium.Proofs.Run.Simulation
import Scriptorium.Proofs.Run.Refinement
import Scriptorium.Proofs.Unit.Loading
import Scriptorium.Proofs.Unit.Lookups
import Scriptorium.Proofs.Decimal.Number
import Scriptorium.Proofs.Value.Sound
import Scriptorium.Proofs.Expression.Typing
import Scriptorium.Proofs.Variable.Agreement
import Scriptorium.Proofs.Variable.Sound
import Scriptorium.Proofs.Target.Soundness
import Scriptorium.Proofs.Run.Soundness
import Scriptorium.Proofs.Repository.Memory
import Scriptorium.Proofs.Repository.Interruption
import Scriptorium.Proofs.Generation.Reading
import Scriptorium.Proofs.Catalog.Operation
import Scriptorium.Proofs.Catalog.Atomicity
import Scriptorium.Proofs.Engine.Reading
import Scriptorium.Proofs.Catalog.Storing
import Scriptorium.Proofs.Catalog.Frame
import Scriptorium.Proofs.Engine.Resolution
import Scriptorium.Proofs.Run.Lockstep
import Scriptorium.Proofs.Run.Alike
import Scriptorium.Proofs.Engine.Coherent
import Scriptorium.Proofs.Catalog.History
import Scriptorium.Proofs.Catalog.Agreement
import Scriptorium.Proofs.Engine.Failure
import Scriptorium.Proofs.Catalog.Editing
import Scriptorium.Proofs.Unit.Manifest
import Scriptorium.Proofs.Run.Inputs
import Scriptorium.Proofs.Engine.UpToDate
import Scriptorium.Proofs.Catalog.Serving
import Scriptorium.Proofs.Repository.Sharing
import Scriptorium.Proofs.Generation.Watching
import Scriptorium.Proofs.Unit.Contents
import Scriptorium.Proofs.Unit.RoundTrip
import Scriptorium.Proofs.Unit.Restoring
import Scriptorium.Proofs.Repository.Threads
import Scriptorium.Proofs.Repository.Serializability
import Scriptorium.Proofs.Generation.Succession
import Scriptorium.Proofs.Engine.Missing
import Scriptorium.Proofs.Engine.Callers
import Scriptorium.Proofs.Engine.Contest
import Scriptorium.Proofs.Expression.Language
import Scriptorium.Proofs.Expression.Blame
import Scriptorium.Proofs.Expression.Variables
import Scriptorium.Proofs.Run.Recompilation
import Scriptorium.Proofs.Unit.Faults
import Scriptorium.Proofs.Unit.Mirror
import Scriptorium.Proofs.Grammar.Inversion
import Scriptorium.Proofs.Target.Layout
import Scriptorium.Proofs.Value.Parts
import Scriptorium.Proofs.Target.Counting
import Scriptorium.Proofs.Target.Safety
import Scriptorium.Proofs.Target.Exact
import Scriptorium.Proofs.Target.Scanning
import Scriptorium.Proofs.Value.Built
import Scriptorium.Proofs.Variable.Calls
import Scriptorium.Proofs.Variable.Paths
import Scriptorium.Proofs.Name.Spelling
import Scriptorium.Proofs.Expression.Quoted
import Scriptorium.Proofs.Script.Layout
import Scriptorium.Proofs.Script.Reading
import Scriptorium.Proofs.Name.Human
import Scriptorium.Proofs.Value.Coercion
import Scriptorium.Proofs.Record.Fields
