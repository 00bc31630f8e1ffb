import GoTrivia.Main
import GoTrivia.Proofs.Decorating.AnyText
import GoTrivia.Proofs.Decorating.Carrying
import GoTrivia.Proofs.Decorating.Consulting
import GoTrivia.Proofs.Decorating.Enclosing
import GoTrivia.Proofs.Decorating.Outlines
import GoTrivia.Proofs.Grammar.Headers
import GoTrivia.Proofs.Grammar.Precedence
import GoTrivia.Proofs.Grammar.Separators
import GoTrivia.Proofs.Grammar.Transcript
import GoTrivia.Proofs.Printing.ClosedLists
import GoTrivia.Proofs.Printing.FailingClosed
import GoTrivia.Proofs.Printing.LineStructure
import GoTrivia.Proofs.Printing.Merging
import GoTrivia.Proofs.Printing.Nesting
import GoTrivia.Proofs.Printing.Programs
import GoTrivia.Proofs.Printing.Shifting
import GoTrivia.Proofs.Printing.WordGaps
import GoTrivia.Proofs.Restoring.Dropping
import GoTrivia.Proofs.Restoring.Editing
import GoTrivia.Proofs.Restoring.Structure
import GoTrivia.Proofs.Token.Literals
import GoTrivia.Proofs.Token.Respacing
import GoTrivia.Proofs.Token.Semicolons
import GoTrivia.Token.Cursor
import GoTrivia.Tree.Path
