/-
# The nearest number to a decimal, and the shortest decimal of a number

A decimal is read as the number nearest to it.  Many decimals are read as the same number, and the
shortest of them is the one to show.

A quantum is `2 ^ -1074`, which is `5 ^ 1074` parts of `10 ^ -1074`.  Such a part is called a
*grain* here.  Every finite number is a whole number of grains, so finding its shortest decimal is
a question about naturals.

* **Shortest.**  Dropping digits is moving to a coarser grid of decimals.  The grids are tried
  from the coarsest, a power of ten above the number, to the finest, a single grain; the first
  with a decimal that reads back is taken.  If any decimal of a grid reads back, one of the
  number's two neighbours on that grid does, so no other needs a look.
* **Nearest.**  Of two neighbours that read back the nearer is taken, the upper one on a tie.
-/
import Reckoner.Binary64.Rounding
import Reckoner.Decimal

namespace Reckoner

namespace Binary64

/-! ## 1. From decimals -/

/-- The number of the given sign nearest to a decimal. -/
def ofDecimal (negative : Bool) (decimal : Decimal) : Binary64 :=
  ofRatio negative (decimal.numerator * quantaPerUnit) decimal.denominator

/-! ## 2. Grains -/

/-- How many grains make up a quantum. -/
def grainsPerQuantum : Nat := Nat.pow 5 places

/-- Whether a decimal of `grains` grains is read as the magnitude of `quanta` quanta. -/
def readsBack (quanta grains : Nat) : Bool := roundQuanta grains grainsPerQuantum == quanta

/-! ## 3. To the shortest decimal -/

/-- The neighbour of `exact` on the grid of multiples of `step`, counted in steps, that reads back
as `quanta`: the nearer one if both do, the upper one if they are equally near. -/
def neighbour? (quanta exact step : Nat) : Option Nat :=
  let below := exact / step
  let above := below + 1
  match readsBack quanta (below * step), readsBack quanta (above * step) with
  | true, true => some (if above * step - exact ≤ exact - below * step then above else below)
  | true, false => some below
  | false, true => some above
  | false, false => none

/-- The first decimal that reads back on the grids of `10 ^ dropped` grains, `10 ^ (dropped - 1)`
grains, and so on down to the single grain, where `exact` itself is a decimal. -/
def shortestFrom (quanta exact : Nat) : Nat → Decimal
  | 0 => ⟨exact, -places⟩
  | dropped + 1 =>
    match neighbour? quanta exact (Nat.pow 10 (dropped + 1)) with
    | some steps => ⟨steps, (dropped + 1 : Nat) - places⟩
    | none => shortestFrom quanta exact dropped

/-- As many decimal digits as a number can have, or one more: a binary digit is worth less than
0.30103 decimal ones. -/
def digitBound (n : Nat) : Nat := (n.log2 + 1) * 30103 / 100000 + 1

/-- The shortest decimal that is read as the magnitude of `quanta` quanta. -/
def shortest (quanta : Nat) : Decimal :=
  let exact := quanta * grainsPerQuantum
  shortestFrom quanta exact (digitBound exact)

end Binary64

end Reckoner
