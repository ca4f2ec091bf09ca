/-
# Reading lexemes into tokens

Reading checks a row of lexemes and turns it into the tokens that are worked out: numbers are
read, and products that are left unwritten in front of a parenthesis are put in.

The lexemes are taken from left to right, each with a look at its neighbours, and the first
problem ends the reading.  For a lexeme the questions are, in this order:

1. does it need a left neighbour and have none;
2. does it need a right neighbour and have none, or have one that it does not admit;
3. is it an operator in front of the number written `0`;
4. is it a number that cannot be read, or a closing parenthesis with nothing to close.

After the last lexeme every parenthesis has to be closed.  A character without a meaning passes:
it is for whoever works the tokens out to refuse it.
-/
import Reckoner.Symbol
import Reckoner.Fault

namespace Reckoner

/-! ## 1. What a reader remembers -/

/-- The state of reading between two lexemes: the last of them, the offsets of the parentheses that
are open, the innermost first, and the tokens so far, the newest first. -/
structure Reading where
  last? : Option Lexeme := none
  opened : List Nat := []
  tokens : List (Placed Token) := []

namespace Reading

/-- Nothing read yet. -/
def start : Reading := {}

/-- The state after a lexeme that becomes one token. -/
def emit (reading : Reading) (lexeme : Placed Lexeme) (token : Token) : Reading :=
  { reading with
    last? := some lexeme.item
    tokens := ⟨token, lexeme.offset⟩ :: reading.tokens }

/-! ## 2. One lexeme -/

/-- A problem between a lexeme and its neighbours, if there is one. -/
def neighbourError? (last? : Option Lexeme) (here : Placed Lexeme)
    (next? : Option (Placed Lexeme)) : Option SyntaxError :=
  if here.item.needsLeft && last?.isNone then
    some (.missingLeftOperand here.item.text here.offset)
  else
    match next? with
    | none =>
      if here.item.needsRight then some (.unexpectedEnd here.item.text here.offset) else none
    | some next =>
      if !here.item.admits next.item then some (.unexpectedToken next.item.text next.offset)
      else
        match here.item with
        | .operator _ => if next.item.isLiteralZero then some (.zeroOperand next.offset) else none
        | _ => none

/-- Reads a lexeme whose neighbours are in order. -/
def take (reading : Reading) (here : Placed Lexeme) : Except SyntaxError Reading :=
  match here.item with
  | .number text =>
    match Binary64.ofText? text with
    | some value => .ok (reading.emit here (.number value))
    | none => .error (.invalidNumber text here.offset)
  | .operator op => .ok (reading.emit here (.operator op))
  | .negation => .ok (reading.emit here .negation)
  | .opening =>
    let joined :=
      if reading.last?.any Symbol.endsOperand then reading.emit here (.operator .multiply)
      else reading
    .ok { joined.emit here .opening with opened := here.offset :: reading.opened }
  | .closing =>
    match reading.opened with
    | [] => .error (.unmatchedClosing here.offset)
    | _ :: outer => .ok { reading.emit here .closing with opened := outer }
  | .unknown character => .ok (reading.emit here (.unknown character))

/-- Checks a lexeme against its neighbours and reads it. -/
def step (reading : Reading) (here : Placed Lexeme) (next? : Option (Placed Lexeme)) :
    Except SyntaxError Reading :=
  match neighbourError? reading.last? here next? with
  | some error => .error error
  | none => reading.take here

/-! ## 3. A row of lexemes -/

/-- Reads a row of lexemes, stopping at the first problem. -/
def run (reading : Reading) : List (Placed Lexeme) → Except SyntaxError Reading
  | [] => .ok reading
  | here :: rest =>
    match reading.step here rest.head? with
    | .ok after => after.run rest
    | .error error => .error error

/-- The tokens in order, once no parenthesis is left open. -/
def finish (reading : Reading) : Except SyntaxError (List (Placed Token)) :=
  match reading.opened with
  | [] => .ok reading.tokens.reverse
  | innermost :: _ => .error (.unclosedOpening innermost)

end Reading

/-- The tokens of a row of lexemes, or what is wrong with it. -/
def Token.read (lexemes : List (Placed Lexeme)) : Except SyntaxError (List (Placed Token)) :=
  match lexemes with
  | [] => .error .emptyExpression
  | _ =>
    match Reading.start.run lexemes with
    | .ok reading => reading.finish
    | .error error => .error error

end Reckoner
