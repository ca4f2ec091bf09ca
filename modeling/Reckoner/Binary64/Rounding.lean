/-
# Rounding a ratio to the nearest binary64 number

Arithmetic and the reading of number texts both end in the same step: an exact ratio of naturals,
counted in quanta, has to become a number of the format.  `ofRatio` does it.

* **Nearest, ties to even.**  The ratio is measured in units of the spacing that belongs to its
  whole part, and that measure is rounded to the nearest whole number, a tie going to the even one.
* **A carry needs no care.**  Rounding up may reach the next power of two, where the spacing
  doubles; that power is a multiple of the wider spacing too (`spacing_dvd_roundQuanta`).
* **Overflow is decided after rounding.**  What rounds to the limit or beyond is infinite.
-/
import Reckoner.Binary64.Basic

namespace Reckoner

/-! ## 1. Rounding a quotient to a whole number -/

/-- The whole number nearest to `num / den`; of two equally near, the even one. -/
def roundDiv (num den : Nat) : Nat :=
  let quotient := num / den
  let twice := 2 * (num % den)
  if twice < den ∨ (twice = den ∧ quotient % 2 = 0) then quotient else quotient + 1

theorem roundDiv_le (num den : Nat) : roundDiv num den ≤ num / den + 1 := by
  simp only [roundDiv]
  split <;> omega

namespace Binary64

/-! ## 2. Rounding a ratio to the format's grid -/

/-- The magnitude, in quanta, nearest to `num / den` quanta when magnitudes have no upper bound. -/
def roundQuanta (num den : Nat) : Nat :=
  roundDiv num (den * spacing (num / den)) * spacing (num / den)

/-- The whole part of a ratio, measured in its own spacing, has at most 53 bits. -/
theorem div_mul_spacing_lt (num den : Nat) :
    num / (den * spacing (num / den)) < pow2 53 := by
  rw [← Nat.div_div_eq_div_mul, Nat.div_lt_iff_lt_mul (spacing_pos _), spacing, ← pow2_add]
  exact Nat.lt_of_lt_of_le (lt_pow2_log2 _) (pow2_le_pow2 (by omega))

/-- **Rounding lands on the grid**, also where it carries into the next power of two. -/
theorem spacing_dvd_roundQuanta (num den : Nat) :
    spacing (roundQuanta num den) ∣ roundQuanta num den :=
  spacing_dvd_mul _
    (Nat.le_trans (roundDiv_le _ _) (Nat.succ_le_of_lt (div_mul_spacing_lt num den)))

/-- The number of the given sign nearest to `num / den` quanta: ties go to the even significand,
and what reaches the limit is infinite. -/
def ofRatio (negative : Bool) (num den : Nat) : Binary64 :=
  if h : roundQuanta num den < limit then
    .finite negative (roundQuanta num den) ⟨h, spacing_dvd_roundQuanta num den⟩
  else
    .infinite negative

end Binary64

end Reckoner
