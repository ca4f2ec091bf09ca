/-
# The calculator

A calculator is a table of ranks.  It keeps nothing between two lines.

A line is scanned into lexemes, the lexemes are read into tokens, and the tokens are worked out.
Scanning never fails; the first fault of the other two is the line's fault.
-/
import Reckoner.Lexeme.Scan
import Reckoner.Token.Reading
import Reckoner.Machine

namespace Reckoner

/-- A calculator with a table of ranks for its operators. -/
structure Calculator where
  ranks : Ranks := .standard
  deriving DecidableEq

namespace Calculator

/-- The tokens of a line, numbers read and unwritten products put in. -/
def tokens (line : String) : Except SyntaxError (List (Placed Token)) :=
  Token.read (Lexeme.scan line)

/-- The value of a line. -/
def evaluate (calculator : Calculator) (line : String) : Except Fault Binary64 := do
  let tokens ← (tokens line).mapError .form
  (Token.value calculator.ranks tokens).mapError .run

end Calculator

end Reckoner
