/-
# Rounding sees the ratio alone

A ratio of naturals can be written in many ways.  How it is rounded does not depend on the way
(`Binary64.roundQuanta_congr`), and a magnitude of the format is rounded to itself
(`Binary64.roundQuanta_of_representable`).
-/
import Reckoner.Binary64.Rounding

namespace Reckoner

/-- A factor on both sides of a quotient makes no difference to its rounding. -/
theorem roundDiv_mul_right (num den : Nat) {factor : Nat} (h : 0 < factor) :
    roundDiv (num * factor) (den * factor) = roundDiv num den := by
  have hless : 2 * (num % den * factor) < den * factor ↔ 2 * (num % den) < den := by
    rw [← Nat.mul_assoc]
    exact Nat.mul_lt_mul_right h
  have hequal : 2 * (num % den * factor) = den * factor ↔ 2 * (num % den) = den := by
    rw [← Nat.mul_assoc]
    exact Nat.mul_left_inj (Nat.ne_of_gt h)
  simp only [roundDiv, Nat.mul_div_mul_right _ _ h, Nat.mul_mod_mul_right, hless, hequal]

theorem roundDiv_of_dvd {num den : Nat} (hden : 0 < den) (h : den ∣ num) :
    roundDiv num den = num / den := by
  simp [roundDiv, Nat.mod_eq_zero_of_dvd h, hden]

namespace Binary64

variable {num den num' den' quanta : Nat}

theorem roundQuanta_mul_right (num den : Nat) {factor : Nat} (h : 0 < factor) :
    roundQuanta (num * factor) (den * factor) = roundQuanta num den := by
  rw [roundQuanta, roundQuanta, Nat.mul_div_mul_right _ _ h, Nat.mul_right_comm,
    roundDiv_mul_right _ _ h]

/-- **Equal ratios are rounded alike.** -/
theorem roundQuanta_congr (hden : 0 < den) (hden' : 0 < den') (h : num * den' = num' * den) :
    roundQuanta num den = roundQuanta num' den' := by
  calc roundQuanta num den
      = roundQuanta (num * den') (den * den') := (roundQuanta_mul_right num den hden').symm
    _ = roundQuanta (num' * den) (den' * den) := by rw [h, Nat.mul_comm den]
    _ = roundQuanta num' den' := roundQuanta_mul_right num' den' hden

/-- **A magnitude of the format is rounded to itself.** -/
theorem roundQuanta_of_representable (h : Representable quanta) (hden : 0 < den) :
    roundQuanta (quanta * den) den = quanta := by
  have hone : roundQuanta (quanta * den) (1 * den) = roundQuanta quanta 1 :=
    roundQuanta_mul_right quanta 1 hden
  rw [Nat.one_mul] at hone
  rw [hone, roundQuanta, Nat.div_one, Nat.one_mul, roundDiv_of_dvd (spacing_pos _) h.2,
    Nat.div_mul_cancel h.2]

theorem ofRatio_eq_finite (negative : Bool) (h : Representable quanta)
    (hround : roundQuanta num den = quanta) :
    ofRatio negative num den = .finite negative quanta h := by
  subst hround
  rw [ofRatio, dif_pos h.1]

theorem eq_finite_of_ofRatio {negative : Bool} (h : (ofRatio negative num den).isFinite) :
    ∃ quanta hquanta, ofRatio negative num den = .finite negative quanta hquanta := by
  unfold ofRatio at h ⊢
  split
  · next hlt => exact ⟨_, ⟨hlt, spacing_dvd_roundQuanta num den⟩, rfl⟩
  · next hlt =>
    rw [dif_neg hlt] at h
    cases h

end Binary64

end Reckoner
