import Lsl.Main
import Lsl.Peg.Independence
import Lsl.Session
import Lsl.Syntax.Same
import Lsl.Proofs.Peg.Derivation
import Lsl.Proofs.Peg.Progress
import Lsl.Proofs.Grammar.Termination
import Lsl.Proofs.Peg.First
import Lsl.Proofs.Grammar.First
import Lsl.Proofs.Peg.Scan
import Lsl.Proofs.Convert.Build
import Lsl.Proofs.Grammar.Gap
import Lsl.Proofs.Grammar.Shape
import Lsl.Proofs.Program
import Lsl.Proofs.Layout
import Lsl.Proofs.Concatenation
import Lsl.Proofs.Trace
import Lsl.Proofs.Command
import Lsl.Proofs.Syntax.Convention
import Lsl.Proofs.Syntax.Grouping
import Lsl.Proofs.Syntax.Parts
import Lsl.Proofs.Syntax.Editing
import Lsl.Proofs.Session
import Lsl.Proofs.Syntax.Clash
import Lsl.Proofs.Syntax.Tokens
import Lsl.Proofs.Syntax.Slots
import Lsl.Proofs.Convert.Delivery
import Lsl.Proofs.Arguments
import Lsl.Proofs.ClosingAngle
import Lsl.Proofs.Indentation
import Lsl.Proofs.Printing
import Lsl.Proofs.Stability
import Lsl.Proofs.Announcement
import Lsl.Proofs.Syntax.Fields
import Lsl.Proofs.Syntax.Undo
import Lsl.Proofs.Convert.Vocabulary
import Lsl.Proofs.Matching
import Lsl.Proofs.Lexicon
