/-
# Operators and their ranks

The calculator has five operators that stand between two operands and one sign that stands in
front of an operand.  Each is written with one character.

* **Glyphs.**  Subtraction is written with the minus sign U+2212, so the hyphen stays free for
  negation; multiplication and division have their printed signs.
* **Ranks.**  Operators come in three tiers, additive, multiplicative and power, and a table gives
  each tier a rank.  A higher rank binds tighter, equal ranks group from the left.  Negation
  belongs to the power tier.
-/
import Reckoner.Binary64.Arithmetic

namespace Reckoner

/-! ## 1. Operators -/

/-- What stands between two operands. -/
inductive Operator where
  | add
  | subtract
  | multiply
  | divide
  | power
  deriving DecidableEq, Repr

namespace Operator

/-- The operators, tier by tier. -/
def all : List Operator := [.add, .subtract, .multiply, .divide, .power]

/-- The character that an operator is written with. -/
def glyph : Operator → Char
  | .add => '+'
  | .subtract => '−'
  | .multiply => '×'
  | .divide => '÷'
  | .power => '^'

/-- The value of two operands joined by an operator. -/
def apply : Operator → Binary64 → Binary64 → Binary64
  | .add, x, y => x + y
  | .subtract, x, y => x - y
  | .multiply, x, y => x * y
  | .divide, x, y => x / y
  | .power, x, y => x ^ y

end Operator

/-! ## 2. Ranks -/

/-- The ranks of the three tiers: sums and differences, products and quotients, and powers and
negation. -/
structure Ranks where
  additive : Nat
  multiplicative : Nat
  power : Nat
  deriving DecidableEq, Repr

namespace Ranks

/-- Powers before products before sums. -/
def standard : Ranks := ⟨1, 2, 3⟩

/-- The rank of an operator's tier. -/
def ofOperator (ranks : Ranks) : Operator → Nat
  | .add | .subtract => ranks.additive
  | .multiply | .divide => ranks.multiplicative
  | .power => ranks.power

/-- The rank of negation. -/
def ofNegation (ranks : Ranks) : Nat := ranks.power

end Ranks

end Reckoner
