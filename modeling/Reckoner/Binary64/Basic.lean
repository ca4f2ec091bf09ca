/-
# Binary64 numbers as whole numbers of quanta

Every finite number of the binary64 format is a whole multiple of its smallest positive number,
`2 ^ -1074`, here called a *quantum*.  So a finite number is kept as a sign and a natural number of
quanta, and what the format rounds away is said by one condition on that natural number:

* **Spacing.**  Neighbours of a magnitude of `q` quanta lie `spacing q` quanta apart, the power of
  two that leaves 53 significant bits.  Below `2 ^ 53` quanta the spacing is a single quantum, so
  subnormal numbers need no case of their own.
* **Representable.**  A magnitude belongs to the format when it is a multiple of its own spacing
  and stays below `limit`, which is `2 ^ 1024` counted in quanta.

Both zeros are kept apart by the sign.  There is one `nan`: its sign and payload are never seen.
-/

namespace Reckoner

namespace Binary64

/-! ## 1. Powers of two -/

/-- The power of two with this exponent. -/
def pow2 (exponent : Nat) : Nat := Nat.pow 2 exponent

theorem pow2_pos (exponent : Nat) : 0 < pow2 exponent := Nat.two_pow_pos exponent

theorem pow2_add (i j : Nat) : pow2 (i + j) = pow2 i * pow2 j := Nat.pow_add 2 i j

theorem pow2_le_pow2 {i j : Nat} (h : i ≤ j) : pow2 i ≤ pow2 j :=
  Nat.pow_le_pow_right Nat.two_pos h

theorem pow2_dvd_pow2 {i j : Nat} (h : i ≤ j) : pow2 i ∣ pow2 j := Nat.pow_dvd_pow 2 h

theorem log2_pow2 (exponent : Nat) : (pow2 exponent).log2 = exponent := Nat.log2_two_pow

theorem lt_pow2_log2 (n : Nat) : n < pow2 (n.log2 + 1) := Nat.lt_log2_self

theorem log2_lt_iff {n exponent : Nat} (h : n ≠ 0) : n.log2 < exponent ↔ n < pow2 exponent :=
  Nat.log2_lt h

/-! ## 2. Which magnitudes the format holds -/

/-- How many quanta neighbours of a magnitude of `quanta` quanta lie apart: the power of two that
leaves 53 significant bits. -/
def spacing (quanta : Nat) : Nat := pow2 (quanta.log2 - 52)

/-- How many binary places a finite number needs behind the point: a quantum is `2 ^ -places`. -/
def places : Nat := 1074

/-- How many quanta make up the number one. -/
def quantaPerUnit : Nat := pow2 places

/-- The first magnitude that is too large to be finite, `2 ^ 1024`, in quanta. -/
def limit : Nat := pow2 (1024 + places)

/-- A magnitude is in the format when it is below the limit and a multiple of its own spacing. -/
def Representable (quanta : Nat) : Prop := quanta < limit ∧ spacing quanta ∣ quanta

instance (quanta : Nat) : Decidable (Representable quanta) :=
  inferInstanceAs (Decidable (_ ∧ _))

theorem spacing_pos (quanta : Nat) : 0 < spacing quanta := pow2_pos _

theorem quantaPerUnit_pos : 0 < quantaPerUnit := pow2_pos _

theorem limit_pos : 0 < limit := pow2_pos _

/-- **Multiples of a power of two with at most 53 bits are on their own grid.**  The case
`significand = pow2 53` is the carry of a rounding up. -/
theorem spacing_dvd_mul {significand : Nat} (exponent : Nat) (h : significand ≤ pow2 53) :
    spacing (significand * pow2 exponent) ∣ significand * pow2 exponent := by
  by_cases h0 : significand = 0
  · simp [h0]
  have hne : significand * pow2 exponent ≠ 0 :=
    Nat.mul_ne_zero h0 (Nat.ne_of_gt (pow2_pos _))
  by_cases hlt : significand < pow2 53
  · have hlog : (significand * pow2 exponent).log2 < 53 + exponent := by
      rw [log2_lt_iff hne, pow2_add]
      exact Nat.mul_lt_mul_of_pos_right hlt (pow2_pos _)
    exact Nat.dvd_trans (pow2_dvd_pow2 (by omega)) (Nat.dvd_mul_left _ _)
  · have heq : significand * pow2 exponent = pow2 (53 + exponent) := by
      rw [Nat.le_antisymm h (Nat.le_of_not_lt hlt), pow2_add]
    rw [heq, spacing, log2_pow2]
    exact pow2_dvd_pow2 (by omega)

theorem representable_zero : Representable 0 := ⟨limit_pos, Nat.dvd_zero _⟩

end Binary64

/-! ## 3. The numbers -/

/-- A number of the binary64 format.  A finite one is a sign and a whole number of quanta, and `nan`
is the result of an operation that has none. -/
inductive Binary64 where
  | nan
  | infinite (negative : Bool)
  | finite (negative : Bool) (quanta : Nat) (representable : Binary64.Representable quanta)
  deriving DecidableEq

namespace Binary64

/-- The zero of a sign. -/
def zero (negative : Bool) : Binary64 := .finite negative 0 representable_zero

instance : Inhabited Binary64 := ⟨zero false⟩

/-- Neither infinite nor `nan`. -/
def isFinite : Binary64 → Bool
  | .finite .. => true
  | _ => false

/-- Either zero. -/
def isZero : Binary64 → Bool
  | .finite _ quanta _ => quanta == 0
  | _ => false

end Binary64

end Reckoner
