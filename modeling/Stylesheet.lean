import Stylesheet.Binary64.Bits
import Stylesheet.Main
import Stylesheet.Proofs.Compile.FixedPoint
import Stylesheet.Proofs.Compile.LaterLines
import Stylesheet.Proofs.Compile.Positions
import Stylesheet.Proofs.Compile.Regular
import Stylesheet.Proofs.Lexeme.Lookahead
import Stylesheet.Proofs.Lexeme.Rejoin
import Stylesheet.Proofs.Statement.Composition
import Stylesheet.Proofs.Value.Nesting
import Stylesheet.Proofs.Value.Stacks
import Stylesheet.Proofs.Value.Discipline
import Stylesheet.Proofs.Node.Frame
import Stylesheet.Proofs.Node.Outline
import Stylesheet.Proofs.Statement.Lexemes
import Stylesheet.Proofs.Value.WellFormed
import Stylesheet.Proofs.Node.WellFormed
import Stylesheet.Proofs.Node.Styles
import Stylesheet.Proofs.Node.Comments
import Stylesheet.Proofs.Statement.Totality
import Stylesheet.Proofs.Node.Visibility
import Stylesheet.Proofs.Value.Formula
import Stylesheet.Proofs.Value.Precedence
import Stylesheet.Proofs.Value.Deferred
import Stylesheet.Proofs.Binary64
import Stylesheet.Proofs.Value.Sign
import Stylesheet.Proofs.Text.Spacing
import Stylesheet.Proofs.Statement.WellFormed
import Stylesheet.Proofs.Node.Preorder
import Stylesheet.Proofs.Node.Inlining
import Stylesheet.Proofs.Value.Borrowing
import Stylesheet.Proofs.Value.Verbatim
import Stylesheet.Proofs.Node.Arguments
import Stylesheet.Proofs.Value.Substitution
import Stylesheet.Proofs.Value.Colors
import Stylesheet.Proofs.Statement.Boundary
import Stylesheet.Proofs.Node.Acyclic
import Stylesheet.Proofs.Text.NormalForm
import Stylesheet.Proofs.Binary64.Decimal
import Stylesheet.Proofs.Value.Numbers
import Stylesheet.Proofs.Text.Position
import Stylesheet.Proofs.Text.Strings
