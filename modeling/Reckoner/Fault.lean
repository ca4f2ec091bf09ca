/-
# What can go wrong

A line can be refused for its form, or halt while it is worked out.  The two are told apart by
type.

* **Syntax errors** are found before anything is computed.  Each names the symbol it is about and
  the offset where that symbol begins.
* **Run errors** arise while tokens are worked out.  A character without a meaning is one.  The
  other two can only come from a token stream that no check has passed: an operator finds no
  operand, or there is no operator to apply.

`message` words a fault for the user, and its `kind` is what the screen shows.
-/

namespace Reckoner

/-! ## 1. Syntax errors -/

/-- Why a row of lexemes is no expression.  The text and the offset are those of the symbol that the
error is about: of one that the symbol in front does not admit, of the innermost parenthesis still
open at the end, of the number written `0` behind an operator. -/
inductive SyntaxError where
  | emptyExpression
  | unexpectedToken (text : String) (offset : Nat)
  | unexpectedEnd (text : String) (offset : Nat)
  | missingLeftOperand (text : String) (offset : Nat)
  | unmatchedClosing (offset : Nat)
  | unclosedOpening (offset : Nat)
  | invalidNumber (text : String) (offset : Nat)
  | zeroOperand (offset : Nat)
  deriving DecidableEq

/-! ## 2. Run errors -/

/-- Why a token stream has no value: a character without a meaning was reached, an operator or the end
found no operand, or there was nothing to apply, or only an opening parenthesis.  Tokens that have
been read meet no more than the first. -/
inductive RunError where
  | unknownOperator (character : Char) (offset : Nat)
  | operandUnderflow
  | nothingToApply
  deriving DecidableEq

/-! ## 3. Faults -/

/-- Why a line has no value. -/
inductive Fault where
  | form (error : SyntaxError)
  | run (error : RunError)
  deriving DecidableEq

/-- The two words that the screen knows for a fault. -/
inductive FaultKind where
  | syntactic
  | mathematical
  deriving DecidableEq

/-- What the screen shows. -/
def FaultKind.label : FaultKind → String
  | .syntactic => "Syntax Error"
  | .mathematical => "Math Error"

/-- A zero behind an operator is a mathematical fault, all else is one of form. -/
def SyntaxError.kind : SyntaxError → FaultKind
  | .zeroOperand _ => .mathematical
  | _ => .syntactic

/-- The wording of a syntax error. -/
def SyntaxError.message : SyntaxError → String
  | .emptyExpression => "Error: Empty expression."
  | .unexpectedToken text offset => s!"Error at offset {offset}: Unexpected token '{text}'."
  | .unexpectedEnd text offset =>
    s!"Error at offset {offset}: Unexpected end of input after '{text}'."
  | .missingLeftOperand text offset =>
    s!"Error at offset {offset}: '{text}' is missing its left operand."
  | .unmatchedClosing offset => s!"Error at offset {offset}: Unmatched closing parenthesis."
  | .unclosedOpening offset =>
    s!"Error at offset {offset}: Opening parenthesis is never closed."
  | .invalidNumber text offset => s!"Error at offset {offset}: Invalid number '{text}'."
  | .zeroOperand offset => s!"Error at offset {offset}: Operator followed by a literal zero."

/-- The wording of a run error. -/
def RunError.message : RunError → String
  | .unknownOperator character offset =>
    s!"Error at offset {offset}: Unknown operator '{character}'."
  | .operandUnderflow => "internal error: entered unreachable code: operand stack underflow"
  | .nothingToApply => "internal error: entered unreachable code: no operator to apply"

/-- The kind of a fault. -/
def Fault.kind : Fault → FaultKind
  | .form error => error.kind
  | .run _ => .syntactic

/-- The wording of a fault. -/
def Fault.message : Fault → String
  | .form error => error.message
  | .run error => error.message

end Reckoner
