import ScriptEngine.Main
import ScriptEngine.Proofs.Execution.Isolation
import ScriptEngine.Proofs.Json.Documents
import ScriptEngine.Proofs.Number.Rounding
import ScriptEngine.Proofs.Number.Scaling
import ScriptEngine.Proofs.Number.ShortestDecimal
import ScriptEngine.Proofs.Json.Numbers
import ScriptEngine.Proofs.Files.Writing
import ScriptEngine.Proofs.Json.Decimals
import ScriptEngine.Proofs.Library.Encoding
import ScriptEngine.Proofs.Library.Persistence
import ScriptEngine.Proofs.Source.Lexemes
import ScriptEngine.Proofs.Program.Relocation
import ScriptEngine.Proofs.Program.Writing
import ScriptEngine.Proofs.Program.Running
import ScriptEngine.Proofs.Program.Operands
import ScriptEngine.Proofs.Program.Expressions
import ScriptEngine.Proofs.Program.Statements
import ScriptEngine.Proofs.Program.RoundTrip
import ScriptEngine.Proofs.Source.Tiling
import ScriptEngine.Proofs.Program.Parallel
import ScriptEngine.Proofs.Program.Agreement
import ScriptEngine.Proofs.Program.Layout
import ScriptEngine.Proofs.Source.Joining
import ScriptEngine.Proofs.Program.Joining
import ScriptEngine.Proofs.Execution.Transfer
import ScriptEngine.Proofs.Library.Carrying
import ScriptEngine.Proofs.Execution.Revision
import ScriptEngine.Proofs.Execution.RevisedRuns
import ScriptEngine.Proofs.Execution.CallLimit
import ScriptEngine.Proofs.Execution.Joining
import ScriptEngine.Proofs.Execution.Regime
import ScriptEngine.Proofs.Value.Printing
import ScriptEngine.Proofs.Execution.Shapes
import ScriptEngine.Proofs.Execution.Names
import ScriptEngine.Proofs.Execution.Control
import ScriptEngine.Proofs.Number.Bits
import ScriptEngine.Proofs.Value.Keys
import ScriptEngine.Proofs.Value.Entries
import ScriptEngine.Proofs.Value.Correspondence
import ScriptEngine.Proofs.Execution.Enumeration
import ScriptEngine.Proofs.Number.Integers
import ScriptEngine.Proofs.Library.RoundTrip
import ScriptEngine.Proofs.Program.Grammatical
import ScriptEngine.Proofs.Program.Yielding
import ScriptEngine.Proofs.Execution.Agreeing
import ScriptEngine.Proofs.Execution.Targets
import ScriptEngine.Proofs.Execution.Obedience
import ScriptEngine.Proofs.Library.Obedience
import ScriptEngine.Proofs.Execution.Confinement
import ScriptEngine.Proofs.Execution.Reachability
import ScriptEngine.Proofs.Registry.Building
import ScriptEngine.Proofs.Registry.Installing
import ScriptEngine.Proofs.Registry.Sessions
import ScriptEngine.Proofs.Source.Quoting
import ScriptEngine.Proofs.Program.Heights
import ScriptEngine.Proofs.Source.Places
import ScriptEngine.Proofs.Program.Chains
import ScriptEngine.Proofs.Program.Spacing
import ScriptEngine.Proofs.Execution.Callbacks
import ScriptEngine.Proofs.Execution.Snapshots
import ScriptEngine.Proofs.Program.Progress
import ScriptEngine.Proofs.Program.Looping
import ScriptEngine.Proofs.Program.Borders
import ScriptEngine.Proofs.Program.Modifiers
import ScriptEngine.Proofs.Execution.Fuel
import ScriptEngine.Proofs.Execution.Negation
import ScriptEngine.Proofs.Execution.Errors
import ScriptEngine.Proofs.Execution.Quiet
import ScriptEngine.Proofs.Library.Encodable
import ScriptEngine.Proofs.Library.Formatting
import ScriptEngine.Proofs.Text.Splitting
import ScriptEngine.Proofs.Library.Collections
import ScriptEngine.Proofs.Library.ArrayEdits
import ScriptEngine.Proofs.Library.Splitting
import ScriptEngine.Proofs.Library.Clock
import ScriptEngine.Proofs.Execution.Scoping
import ScriptEngine.Proofs.Registry.Registrations
import ScriptEngine.Proofs.Library.Storing
import ScriptEngine.Proofs.Number.Line
import ScriptEngine.Proofs.Value.SharedKeys
