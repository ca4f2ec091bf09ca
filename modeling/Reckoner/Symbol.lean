/-
# Symbols

A line is a row of symbols: numbers, operators, negation signs, parentheses, and characters that
mean nothing to the calculator.  Before and after a line is checked, only its numbers differ: a
`Lexeme` holds a number as it is written, a `Token` holds its value.  Both are one type, `Symbol`,
over the type of the numbers.

* **Text.**  Every symbol but a number is a single character, its glyph; `ofGlyph` and `text` go
  back and forth (`text_ofGlyph`).
* **Neighbours.**  Which symbols may stand side by side depends on their kinds alone.  `admits` is
  that table: after an operand comes an operator or a parenthesis, after an operator an operand,
  and a product may be left unwritten in front of an opening parenthesis.
* **Places.**  A symbol of a line comes with its offset, counted in bytes of UTF-8.
-/
import Reckoner.Operator
import Reckoner.Binary64.Text

namespace Reckoner

/-! ## 1. Symbols -/

/-- An element of a line whose numbers are held as an `α`.  An unknown one is a character without a
meaning. -/
inductive Symbol (α : Type) where
  | number (value : α)
  | operator (op : Operator)
  | negation
  | opening
  | closing
  | unknown (character : Char)
  deriving DecidableEq

/-- A symbol as it is written. -/
abbrev Lexeme : Type := Symbol String

/-- A symbol whose number, if it is one, has been read. -/
abbrev Token : Type := Symbol Binary64

namespace Symbol

variable {α β : Type}

/-! ## 2. Text -/

/-- The symbol that a character which is no part of a number stands for. -/
def ofGlyph (character : Char) : Symbol α :=
  match character with
  | '+' => .operator .add
  | '−' => .operator .subtract
  | '×' => .operator .multiply
  | '÷' => .operator .divide
  | '^' => .operator .power
  | '-' => .negation
  | '(' => .opening
  | ')' => .closing
  | other => .unknown other

/-- The text of a symbol, given the text of numbers. -/
def text (ofNumber : α → String) : Symbol α → String
  | .number value => ofNumber value
  | .operator op => String.singleton op.glyph
  | .negation => "-"
  | .opening => "("
  | .closing => ")"
  | .unknown character => String.singleton character

/-- A character is the text of its symbol. -/
theorem text_ofGlyph (ofNumber : α → String) (character : Char) :
    (ofGlyph character : Symbol α).text ofNumber = String.singleton character := by
  unfold ofGlyph
  split <;> rfl

/-! ## 3. Neighbours -/

/-- Numbers and opening parentheses: the symbols an operand without a sign begins with. -/
def startsAtom : Symbol α → Bool
  | .number _ | .opening => true
  | _ => false

/-- The symbols an operand begins with. -/
def startsOperand : Symbol α → Bool
  | .number _ | .negation | .opening => true
  | _ => false

/-- The symbols an operand ends with. -/
def endsOperand : Symbol α → Bool
  | .number _ | .closing => true
  | _ => false

/-- The symbols that may stand right after an operand: an operator, a closing parenthesis, or an
opening one, with a product left unwritten between them. -/
def followsOperand : Symbol α → Bool
  | .operator _ | .opening | .closing => true
  | _ => false

/-- The symbols that need something on their left. -/
def needsLeft : Symbol α → Bool
  | .operator _ | .closing => true
  | _ => false

/-- The symbols that need something on their right. -/
def needsRight : Symbol α → Bool
  | .operator _ | .negation | .opening => true
  | _ => false

/-- Whether `here` lets `next` stand right behind it. -/
def admits (here : Symbol α) (next : Symbol β) : Bool :=
  match here with
  | .number _ | .closing => next.followsOperand
  | .operator _ | .opening => next.startsOperand
  | .negation => next.startsAtom
  | .unknown _ => true

end Symbol

/-! ## 4. Lexemes and tokens -/

namespace Lexeme

/-- The lexeme as it is written. -/
def text (lexeme : Lexeme) : String := Symbol.text id lexeme

/-- The number written `0`.  No other way to write zero counts. -/
def isLiteralZero : Lexeme → Bool
  | .number text => text == "0"
  | _ => false

end Lexeme

namespace Token

/-- The token's glyph, or its number as a token stream shows it. -/
def text (token : Token) : String := Symbol.text (Binary64.write .stream) token

end Token

/-! ## 5. Places -/

/-- A symbol with the offset of its first byte in the line. -/
structure Placed (σ : Type) where
  item : σ
  offset : Nat
  deriving DecidableEq

/-- The tokens of a stream, one space apart. -/
def Token.streamText (tokens : List (Placed Token)) : String :=
  " ".intercalate (tokens.map fun token => token.item.text)

end Reckoner
