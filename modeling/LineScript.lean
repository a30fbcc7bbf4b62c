import LineScript.Console
import LineScript.Main
import LineScript.Proofs.Expr.Placeholders
import LineScript.Proofs.Keyword.Map
import LineScript.Proofs.Keyword.Suggestions
import LineScript.Proofs.Machine.BlockEnds
import LineScript.Proofs.Machine.Frames
import LineScript.Proofs.Machine.Structural
import LineScript.Proofs.Machine.Termination
import LineScript.Proofs.Machine.Scopes
import LineScript.Proofs.Machine.Loops
import LineScript.Proofs.Machine.Lookups
import LineScript.Proofs.Machine.Sessions
import LineScript.Proofs.Machine.Confinement
import LineScript.Proofs.Machine.Backtraces
import LineScript.Proofs.Machine.Constants
import LineScript.Proofs.Machine.Returns
import LineScript.Proofs.Machine.Limits
import LineScript.Proofs.Machine.Relocation
import LineScript.Proofs.Program.Region
import LineScript.Proofs.Program.Extraction
import LineScript.Proofs.Expr.Groups
import LineScript.Proofs.Text.Arguments
import LineScript.Proofs.Machine.Arguments
import LineScript.Proofs.Number.Doubles
import LineScript.Proofs.Number.Decimal
import LineScript.Proofs.Number.ReadBack
import LineScript.Proofs.Expr.ReadBack
import LineScript.Proofs.Text.LiteralEnds
import LineScript.Proofs.Expr.Splitting
import LineScript.Proofs.Expr.Rounds
import LineScript.Proofs.Number.Grammar
import LineScript.Proofs.Machine.Sinks
import LineScript.Proofs.Machine.FailedLines
import LineScript.Proofs.Machine.Output
import LineScript.Proofs.Machine.Declarations
import LineScript.Proofs.Value.Equality
import LineScript.Proofs.Machine.Functions
import LineScript.Proofs.Expr.HandsOn
import LineScript.Proofs.Machine.HandedOn
import LineScript.Proofs.Machine.Identity
import LineScript.Proofs.Program.MatchingEnd
import LineScript.Proofs.Diagnostic.Renderings
import LineScript.Proofs.Files.Discovery
