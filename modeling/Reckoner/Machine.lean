/-
# Working tokens out with two stacks

Tokens are worked out from left to right with a stack of operands and a stack of what is pending:
operators that wait for their right operand, negations, and a mark for every open parenthesis.
Both stacks are lists with the top in front.

* **A number** becomes an operand; **an opening parenthesis** and **a negation** become pending at
  once, since nothing on their left waits for them.
* **An operator** first applies all pending ones of its own rank or a higher one, down to the
  nearest open parenthesis, and then becomes pending itself.  Equal ranks therefore group from the
  left.
* **A closing parenthesis** applies what is pending down to its opening one and removes that.
  Where nothing is open it applies all there is.
* **The end** applies what is left; the top operand is the value.

Any token stream may be given.  One that no reading has produced can run out of operands, or leave
a parenthesis to be applied at the end; both are run errors.
-/
import Reckoner.Symbol
import Reckoner.Fault

namespace Reckoner

/-! ## 1. The two stacks -/

/-- What can be pending: an operator that has its left operand, a negation that waits for its
operand, or the mark of an open parenthesis. -/
inductive Pending where
  | operator (op : Operator)
  | negation
  | opening
  deriving DecidableEq

namespace Pending

/-- The rank of what is pending; an open parenthesis has none. -/
def rank? (ranks : Ranks) : Pending → Option Nat
  | .operator op => some (ranks.ofOperator op)
  | .negation => some ranks.ofNegation
  | .opening => none

/-- Whether this is applied before an operator of rank `rank` becomes pending. -/
def precedes (ranks : Ranks) (rank : Nat) (pending : Pending) : Bool :=
  (pending.rank? ranks).any (rank ≤ ·)

/-- The character it is written with. -/
def glyph : Pending → Char
  | .operator op => op.glyph
  | .negation => '-'
  | .opening => '('

/-- Applies this to the operands on top: the right operand lies above the left one. -/
def apply : Pending → List Binary64 → Except RunError (List Binary64)
  | .operator op, y :: x :: operands => .ok (op.apply x y :: operands)
  | .negation, x :: operands => .ok (-x :: operands)
  | .opening, _ => .error .nothingToApply
  | _, _ => .error .operandUnderflow

end Pending

/-- The two stacks, their tops in front. -/
structure Machine where
  pending : List Pending := []
  operands : List Binary64 := []
  deriving DecidableEq

namespace Machine

/-- Both stacks empty. -/
def start : Machine := {}

/-- The machine with one more operand. -/
def pushOperand (machine : Machine) (value : Binary64) : Machine :=
  { machine with operands := value :: machine.operands }

/-- The machine with one more thing pending. -/
def pushPending (machine : Machine) (pending : Pending) : Machine :=
  { machine with pending := pending :: machine.pending }

/-! ## 2. Applying what is pending -/

/-- Applies what is pending on top.  This is what the loops below do again and again
(`applyWhile_eq_applyTop`). -/
def applyTop : Machine → Except RunError Machine
  | ⟨[], _⟩ => .error .nothingToApply
  | ⟨top :: below, operands⟩ => (top.apply operands).map (⟨below, ·⟩)

/-- Applies from the top as long as `ready` holds of what is there. -/
def applyWhile (ready : Pending → Bool) :
    List Pending → List Binary64 → Except RunError Machine
  | [], operands => .ok ⟨[], operands⟩
  | top :: below, operands =>
    if ready top then
      match top.apply operands with
      | .ok values => applyWhile ready below values
      | .error error => .error error
    else .ok ⟨top :: below, operands⟩

/-! ## 3. Tokens -/

/-- What one token does. -/
def step (ranks : Ranks) (machine : Machine) (token : Placed Token) : Except RunError Machine :=
  match token.item with
  | .number value => .ok (machine.pushOperand value)
  | .operator op =>
    (applyWhile (·.precedes ranks (ranks.ofOperator op)) machine.pending machine.operands).map
      (·.pushPending (.operator op))
  | .negation => .ok (machine.pushPending .negation)
  | .opening => .ok (machine.pushPending .opening)
  | .closing =>
    (applyWhile (· != .opening) machine.pending machine.operands).map
      fun closed => { closed with pending := closed.pending.tail }
  | .unknown character => .error (.unknownOperator character token.offset)

/-- What a row of tokens does. -/
def run (ranks : Ranks) (machine : Machine) (tokens : List (Placed Token)) :
    Except RunError Machine :=
  tokens.foldlM (step ranks) machine

/-- Applies all that is pending. -/
def drain (machine : Machine) : Except RunError Machine :=
  applyWhile (fun _ => true) machine.pending machine.operands

/-- The operand on top.  What lies below it is not looked at: the check that nothing does is a debug
assertion, and the release build is modelled. -/
def result (machine : Machine) : Except RunError Binary64 :=
  match machine.operands with
  | value :: _ => .ok value
  | [] => .error .operandUnderflow

end Machine

/-- The value of a token stream. -/
def Token.value (ranks : Ranks) (tokens : List (Placed Token)) : Except RunError Binary64 := do
  let machine ← Machine.start.run ranks tokens
  let drained ← machine.drain
  drained.result

end Reckoner
