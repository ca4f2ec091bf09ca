/-
# Expressions

What a row of tokens means is a tree: numbers at the leaves, and at each node a negation or an
operator over the values below it.  How a row groups into a tree depends on the ranks, and
`ofTokens?` reads the tree off by precedence climbing.

* **An operand** is a number, an expression in parentheses, or a negation.  A negation takes in
  what follows it up to the first operator that does not bind tighter than negation itself.
* **An operator** of at least the rank asked for takes all to its left as its left operand, and on
  its right whatever binds tighter than it does.  So equal ranks group from the left.

This is the meaning of a row that the two stacks of the machine work out without building the
tree.
-/
import Reckoner.Symbol

namespace Reckoner

/-- A tree of operators over numbers. -/
inductive Expression where
  | number (value : Binary64)
  | negation (operand : Expression)
  | operation (op : Operator) (left right : Expression)
  deriving DecidableEq

namespace Expression

/-! ## 1. Value -/

/-- The value of a tree. -/
def value : Expression → Binary64
  | .number value => value
  | .negation operand => -operand.value
  | .operation op left right => op.apply left.value right.value

/-! ## 2. Reading a tree off a row

Each function takes as much of a row as it can use and gives back the rest.  The first argument
bounds how deep they may call each other; `ofTokens?` allows two calls for each token and two more,
which is always enough. -/

mutual

/-- The operand that a row begins with. -/
def operand? (ranks : Ranks) : Nat → List Token → Option (Expression × List Token)
  | _ + 1, .number value :: rest => some (.number value, rest)
  | depth + 1, .negation :: rest =>
    match climb? ranks depth (ranks.ofNegation + 1) rest with
    | some (operand, rest) => some (.negation operand, rest)
    | none => none
  | depth + 1, .opening :: rest =>
    match climb? ranks depth 0 rest with
    | some (inner, .closing :: rest) => some (inner, rest)
    | _ => none
  | _, _ => none

/-- The expression that a row begins with, made of operators of rank `least` or higher. -/
def climb? (ranks : Ranks) : Nat → Nat → List Token → Option (Expression × List Token)
  | depth + 1, least, row =>
    match operand? ranks depth row with
    | some (left, rest) => extend? ranks depth least left rest
    | none => none
  | 0, _, _ => none

/-- The expression whose first operand is `left`, with the operators of rank `least` or higher that
follow it. -/
def extend? (ranks : Ranks) :
    Nat → Nat → Expression → List Token → Option (Expression × List Token)
  | depth + 1, least, left, .operator op :: rest =>
    if least ≤ ranks.ofOperator op then
      match climb? ranks depth (ranks.ofOperator op + 1) rest with
      | some (right, rest) => extend? ranks depth least (.operation op left right) rest
      | none => none
    else some (left, .operator op :: rest)
  | _ + 1, _, left, rest => some (left, rest)
  | 0, _, _, _ => none

end

/-- The tree of a whole row, if it is the row of an expression. -/
def ofTokens? (ranks : Ranks) (row : List Token) : Option Expression :=
  match climb? ranks (2 * row.length + 2) 0 row with
  | some (expression, []) => some expression
  | _ => none

end Expression

end Reckoner
