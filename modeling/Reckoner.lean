import Reckoner.Main
import Reckoner.Expression
import Reckoner.Grammar
import Reckoner.Proofs.Lexeme.Boundaries
import Reckoner.Proofs.Grammar.Neighbours
import Reckoner.Proofs.Reading.Acceptance
import Reckoner.Proofs.Reading.Grammar
import Reckoner.Proofs.Reading.Parentheses
import Reckoner.Proofs.Expression.Climbing
import Reckoner.Proofs.Machine.Evaluation
import Reckoner.Proofs.Machine.Safety
import Reckoner.Proofs.Calculator.Relocation
import Reckoner.Proofs.Calculator.Substitution
import Reckoner.Proofs.Lexeme.Rows
import Reckoner.Proofs.Reading.Completion
import Reckoner.Proofs.Binary64.Ratio
import Reckoner.Proofs.Binary64.ReadBack
import Reckoner.Proofs.Calculator.Pointing
import Reckoner.Proofs.Binary64.Patterns
import Reckoner.Proofs.Calculator.Display
import Reckoner.Proofs.Reading.Viability
import Reckoner.Proofs.Reading.ZeroOperand
import Reckoner.Proofs.Grammar.Matching
import Reckoner.Proofs.Reading.Pairing
import Reckoner.Proofs.Text.Lines
import Reckoner.Proofs.Reading.Products
import Reckoner.Proofs.Session.OneLine
import Reckoner.Proofs.Session.Routes
import Reckoner.Proofs.Session.Alignment
import Reckoner.Proofs.Calculator.Retyping
import Reckoner.Proofs.Calculator.Alphabet
import Reckoner.Proofs.Machine.Frame
import Reckoner.Proofs.Machine.Ledger
import Reckoner.Proofs.Machine.Conservation
import Reckoner.Proofs.Machine.RankOrder
import Reckoner.Proofs.Machine.Blocks
import Reckoner.Proofs.Machine.Shape
import Reckoner.Proofs.Calculator.Splitting
import Reckoner.Proofs.Binary64.Grid
import Reckoner.Proofs.Binary64.Nearest
import Reckoner.Proofs.Decimal.Numerals
import Reckoner.Proofs.Calculator.Numerals
import Reckoner.Proofs.Binary64.Integers
import Reckoner.Proofs.Binary64.WholeText
import Reckoner.Proofs.Expression.Frontier
import Reckoner.Proofs.Expression.Integers
import Reckoner.Proofs.Calculator.Integers
