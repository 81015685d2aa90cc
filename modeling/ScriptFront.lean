import ScriptFront.Text.Backspace
import ScriptFront.Main
import ScriptFront.Parser.Command
import ScriptFront.Token.Cursor
import ScriptFront.Tree.Equality
import ScriptFront.Proofs.Consistency
import ScriptFront.Proofs.Lookahead
import ScriptFront.Proofs.MaximalMunch
import ScriptFront.Proofs.RoundTrip
import ScriptFront.Proofs.Position
import ScriptFront.Proofs.Gaps
import ScriptFront.Proofs.Recovery
import ScriptFront.Proofs.BadTokens
import ScriptFront.Proofs.ReportOrder
import ScriptFront.Proofs.Concatenation
import ScriptFront.Proofs.Height
import ScriptFront.Proofs.Viable
import ScriptFront.Proofs.FirstReport
import ScriptFront.Proofs.Agreement
import ScriptFront.Proofs.OperatorTree
import ScriptFront.Proofs.Termination
import ScriptFront.Proofs.Readability
import ScriptFront.Proofs.Depth
import ScriptFront.Proofs.Braces
