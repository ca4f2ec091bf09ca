/-
# Bit patterns of finite numbers

A finite number has one bit pattern, the one that it is read from (`Binary64.toBits_ofBits`).  The
places of magnitudes carry the argument: in the first two runs a place is its magnitude, and in a
later run the leading one, which the place leaves out, fixes the spacing.
-/
import Reckoner.Binary64.Bits

namespace Reckoner.Binary64

/-! ## 1. Places -/

theorem runLength_pos : 0 < runLength := pow2_pos _

/-- A magnitude of the first two runs lies a single quantum from its neighbours. -/
theorem spacing_of_lt {quanta : Nat} (h : quanta < 2 * runLength) :
    quanta.log2 - 52 = 0 ∧ spacing quanta = 1 := by
  have hlog : quanta.log2 - 52 = 0 := by
    by_cases h0 : quanta = 0
    · rw [h0]
      rfl
    · have hlt : quanta.log2 < 53 := (log2_lt_iff h0).mpr h
      omega
  rw [spacing, hlog]
  exact ⟨rfl, rfl⟩

theorem log2_shifted {fraction : Nat} (h : fraction < runLength) (shift : Nat) :
    ((runLength + fraction) * pow2 shift).log2 = 52 + shift := by
  have hlow : pow2 (52 + shift) ≤ (runLength + fraction) * pow2 shift := by
    rw [pow2_add]
    exact Nat.mul_le_mul_right _ (Nat.le_add_right _ _)
  have hhigh : (runLength + fraction) * pow2 shift < pow2 (53 + shift) := by
    have hbits : runLength + fraction < pow2 53 := by
      rw [show pow2 53 = 2 * runLength from rfl]
      omega
    rw [pow2_add]
    exact Nat.mul_lt_mul_of_pos_right hbits (pow2_pos _)
  have hne : (runLength + fraction) * pow2 shift ≠ 0 :=
    Nat.ne_of_gt (Nat.lt_of_lt_of_le (pow2_pos _) hlow)
  rw [Nat.log2_eq_iff hne, Nat.add_right_comm]
  exact ⟨hlow, hhigh⟩

/-- **A place is the place of its magnitude.** -/
theorem placeOfQuanta_quantaAtPlace (place : Nat) :
    placeOfQuanta (quantaAtPlace place) = place := by
  rw [quantaAtPlace]
  split
  case isTrue hlow =>
    obtain ⟨hlog, hspacing⟩ := spacing_of_lt hlow
    rw [placeOfQuanta, hlog, hspacing, Nat.zero_mul, Nat.zero_add, Nat.div_one]
  case isFalse hhigh =>
    have hrun : 2 ≤ place / runLength :=
      (Nat.le_div_iff_mul_le runLength_pos).mpr (Nat.le_of_not_lt hhigh)
    have hlog := log2_shifted (Nat.mod_lt place runLength_pos) (place / runLength - 1)
    have hnext : (place / runLength - 1).succ = place / runLength := by omega
    rw [placeOfQuanta, spacing, hlog, Nat.add_sub_cancel_left, Nat.mul_div_cancel _ (pow2_pos _),
      ← Nat.add_assoc, ← Nat.succ_mul, hnext]
    exact Nat.div_add_mod' place runLength

/-! ## 2. Patterns -/

/-- **A finite number has the bits that it is read from.** -/
theorem toBits_ofBits {bits : UInt64} (h : (ofBits bits).isFinite) :
    (ofBits bits).toBits = bits := by
  have hplace : bits.toNat % signWeight < infinityPlace := by
    rw [ofBits] at h
    split at h
    · assumption
    · split at h <;> cases h
  rw [ofBits, dif_pos hplace, toBits, placeOfQuanta_quantaAtPlace]
  have hsign : (if decide (signWeight ≤ bits.toNat) then signWeight else 0)
      + bits.toNat % signWeight = bits.toNat := by
    have hbits : bits.toNat < 2 * signWeight := bits.toNat_lt
    by_cases hnegative : signWeight ≤ bits.toNat
    · rw [if_pos (by simpa using hnegative), Nat.mod_eq_sub_mod hnegative,
        Nat.mod_eq_of_lt (by omega)]
      omega
    · rw [if_neg (by simpa using hnegative), Nat.mod_eq_of_lt (by omega), Nat.zero_add]
  rw [hsign, UInt64.ofNat_toNat]

theorem exists_eq_zero_of_isZero {x : Binary64} (h : x.isZero) : ∃ negative, x = zero negative := by
  cases x with
  | nan => cases h
  | infinite negative => cases h
  | finite negative quanta hq =>
    obtain rfl : quanta = 0 := beq_iff_eq.mp h
    exact ⟨negative, rfl⟩

theorem toBits_zero (negative : Bool) :
    (zero negative).toBits = if negative then 0x8000000000000000 else 0 := by
  cases negative <;> decide +kernel

end Reckoner.Binary64
