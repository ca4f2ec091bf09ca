/-
# The sixty-four bits of a binary64 number

A bit pattern is a sign bit followed by 63 bits that order magnitudes: counting up from zero, each
pattern stands for the next magnitude of the format, until the infinity and, above it, `nan`.

* **Writing.**  The magnitudes fall into runs of `2 ^ 52`, and the spacing doubles from run to run.
  So a magnitude of `q` quanta has the place `(log2 q - 52) * 2 ^ 52 + q / spacing q`.
* **Reading.**  The first two runs share the spacing of one quantum, and their places are their
  magnitudes.  In run `e` beyond them the low 52 bits follow a leading one, shifted by `e - 1`.

Every pattern above the infinity is read as `nan`, and `nan` is written as the quiet pattern
without a sign.
-/
import Reckoner.Binary64.Basic

namespace Reckoner

namespace Binary64

/-! ## 1. Magnitudes -/

/-- How many patterns a run has, `2 ^ 52`. -/
def runLength : Nat := pow2 52

/-- The place of the infinity among the patterns of magnitudes: behind 2047 runs. -/
def infinityPlace : Nat := 2047 * runLength

/-- The place of a magnitude, given in quanta, among the patterns of magnitudes. -/
def placeOfQuanta (quanta : Nat) : Nat :=
  (quanta.log2 - 52) * runLength + quanta / spacing quanta

/-- The magnitude, in quanta, at a place below the infinity's. -/
def quantaAtPlace (place : Nat) : Nat :=
  if place < 2 * runLength then place
  else (runLength + place % runLength) * pow2 (place / runLength - 1)

theorem representable_quantaAtPlace {place : Nat} (h : place < infinityPlace) :
    Representable (quantaAtPlace place) := by
  have hrun : 0 < runLength := pow2_pos _
  have htwo : 2 * runLength = pow2 53 := rfl
  unfold quantaAtPlace
  split
  · rename_i hlow
    rw [htwo] at hlow
    have hexp : 53 ≤ 1024 + places := by unfold places; omega
    refine ⟨Nat.lt_of_lt_of_le hlow (pow2_le_pow2 hexp), ?_⟩
    simpa [pow2] using spacing_dvd_mul 0 (Nat.le_of_lt hlow)
  · have hlow : runLength + place % runLength < pow2 53 := by
      have := Nat.mod_lt place hrun
      omega
    have hrow : place / runLength < 2047 := (Nat.div_lt_iff_lt_mul hrun).mpr h
    have hexp : 53 + (place / runLength - 1) ≤ 1024 + places := by unfold places; omega
    refine ⟨?_, spacing_dvd_mul _ (Nat.le_of_lt hlow)⟩
    calc (runLength + place % runLength) * pow2 (place / runLength - 1)
        < pow2 53 * pow2 (place / runLength - 1) :=
          Nat.mul_lt_mul_of_pos_right hlow (pow2_pos _)
      _ = pow2 (53 + (place / runLength - 1)) := (pow2_add _ _).symm
      _ ≤ limit := pow2_le_pow2 hexp

/-! ## 2. Numbers -/

/-- The weight of the sign bit. -/
def signWeight : Nat := pow2 63

/-- The bit pattern of a number. -/
def toBits : Binary64 → UInt64
  | .nan => .ofNat (infinityPlace + pow2 51)
  | .infinite negative => .ofNat ((if negative then signWeight else 0) + infinityPlace)
  | .finite negative quanta _ =>
    .ofNat ((if negative then signWeight else 0) + placeOfQuanta quanta)

/-- The number that a bit pattern stands for. -/
def ofBits (bits : UInt64) : Binary64 :=
  let negative := decide (signWeight ≤ bits.toNat)
  let place := bits.toNat % signWeight
  if h : place < infinityPlace then
    .finite negative (quantaAtPlace place) (representable_quantaAtPlace h)
  else if place = infinityPlace then .infinite negative
  else .nan

end Binary64

end Reckoner
