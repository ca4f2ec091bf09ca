/-
# The grammar of rows

Which rows of symbols are expressions depends on the kinds of their symbols alone, never on the
numbers.  `Derives` says it with three kinds of phrases.

* **An atom** is a number or an expression in parentheses.
* **A term** is an atom, with or without a negation in front of it.
* **An expression** is a term, or a shorter expression joined to a term by an operator.

A line may leave a product unwritten in front of a parenthesis, and a token stream may not.  One
grammar serves both: its parameter says whether an expression and one in parentheses may stand
side by side.
-/
import Reckoner.Symbol

namespace Reckoner

/-- The kinds of phrases. -/
inductive Phrase where
  | atom
  | term
  | expression
  deriving DecidableEq

/-- The rows that are phrases of a kind.  With `loose`, a product may be left unwritten. -/
inductive Derives {α : Type} (loose : Bool) : Phrase → List (Symbol α) → Prop where
  | number (value : α) : Derives loose .atom [.number value]
  | parentheses {inner : List (Symbol α)} (h : Derives loose .expression inner) :
    Derives loose .atom (.opening :: inner ++ [.closing])
  | plain {row : List (Symbol α)} (h : Derives loose .atom row) : Derives loose .term row
  | negated {row : List (Symbol α)} (h : Derives loose .atom row) :
    Derives loose .term (.negation :: row)
  | single {row : List (Symbol α)} (h : Derives loose .term row) : Derives loose .expression row
  | joined {left right : List (Symbol α)} (op : Operator) (hl : Derives loose .expression left)
    (hr : Derives loose .term right) : Derives loose .expression (left ++ .operator op :: right)
  | unwritten {left inner : List (Symbol α)} (h : loose = true)
    (hl : Derives loose .expression left) (hi : Derives loose .expression inner) :
    Derives loose .expression (left ++ .opening :: inner ++ [.closing])

end Reckoner
