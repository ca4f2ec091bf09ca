/-
# The nearest number to a value

What a value that is not negative is rounded to is the finite number nearest to it, with an even
significand on a tie, unless the value is too large (`Binary64.isRounding_ofRatio`).  That no
magnitude of the format is nearer is known of the grid; the numbers below zero are further away
still (`Binary64.abs_sub_le_abs_signed_sub`).

* **Too large** is what lies halfway between the largest finite number and the limit, or beyond.
* **Too small** is what lies halfway between zero and the first number above it, or below.
* **In order.**  A larger value is not rounded to a smaller number (`Binary64.le_ofRatio`).
-/
import Mathlib.Algebra.Order.Ring.Abs
import Reckoner.Binary64.Arithmetic
import Reckoner.Proofs.Binary64.Grid

namespace Reckoner.Binary64

variable {quanta quanta' num den num' den' : Nat} {ratio value value' : ℚ} {negative : Bool}

/-! ## 1. Values of numbers -/

/-- The value of a finite number.  The others have none, and count as zero. -/
def toRat : Binary64 → ℚ
  | .finite negative quanta _ => signed negative quanta / quantaPerUnit
  | _ => 0

/-- Whether the significand of a finite number is even. -/
def IsEven : Binary64 → Prop
  | .finite _ quanta _ => significand quanta % 2 = 0
  | _ => False

/-- The number is the finite one nearest to a value, and it has the even significand if another one
is as near. -/
structure Nearest (value : ℚ) (x : Binary64) : Prop where
  finite : x.isFinite
  nearest : ∀ y : Binary64, y.isFinite → |x.toRat - value| ≤ |y.toRat - value|
  even : ∀ y : Binary64, y.isFinite → y.toRat ≠ x.toRat →
    |y.toRat - value| = |x.toRat - value| → x.IsEven

/-- At most as large.  Nothing compares with `nan`. -/
inductive Le : Binary64 → Binary64 → Prop where
  | negative {x : Binary64} (h : x ≠ .nan) : Le (.infinite true) x
  | positive {x : Binary64} (h : x ≠ .nan) : Le x (.infinite false)
  | finite {s t : Bool} {a b : Nat} {ha : Representable a} {hb : Representable b}
    (h : signed s a ≤ signed t b) : Le (.finite s a ha) (.finite t b hb)

theorem quantaPerUnit_pos_cast : (0 : ℚ) < quantaPerUnit := by exact_mod_cast quantaPerUnit_pos

theorem signed_false (quanta : Nat) : (signed false quanta : ℚ) = quanta := rfl

theorem signed_true (quanta : Nat) : (signed true quanta : ℚ) = -quanta := by simp [signed]

/-! ## 2. Nearest -/

/-- A magnitude is at least as near to what is not negative as its negative is. -/
theorem abs_sub_le_abs_signed_sub (hratio : 0 ≤ ratio) (negative : Bool) (quanta : Nat) :
    |(quanta : ℚ) - ratio| ≤ |(signed negative quanta : ℚ) - ratio| := by
  have hquanta : (0 : ℚ) ≤ quanta := Nat.cast_nonneg quanta
  cases negative with
  | false => exact le_refl _
  | true =>
    rw [signed_true, abs_of_nonpos (by linarith : -(quanta : ℚ) - ratio ≤ 0), abs_le]
    constructor <;> linarith

/-- **On a tie** with any number the magnitude taken is even. -/
theorem RoundsTo.even_signed (h : RoundsTo ratio quanta) (hratio : 0 ≤ ratio)
    (hgrid' : OnGrid quanta') (negative : Bool) (hne : (signed negative quanta' : ℚ) ≠ quanta)
    (htie : |(signed negative quanta' : ℚ) - ratio| = |(quanta : ℚ) - ratio|) :
    significand quanta % 2 = 0 := by
  have hle := abs_sub_le_abs_signed_sub hratio negative quanta'
  have hsame : |(quanta' : ℚ) - ratio| = |(quanta : ℚ) - ratio| :=
    le_antisymm (hle.trans htie.le) (h.nearest hgrid')
  by_cases hother : quanta' = quanta
  · subst hother
    -- only zero is as near as its negative
    have hzero : quanta' = 0 := by
      cases negative with
      | false => exact absurd rfl hne
      | true =>
        have hquanta : (0 : ℚ) ≤ quanta' := Nat.cast_nonneg quanta'
        rw [signed_true, abs_of_nonpos (by linarith : -(quanta' : ℚ) - ratio ≤ 0)] at htie
        rcases abs_cases ((quanta' : ℚ) - ratio) with ⟨habs, -⟩ | ⟨habs, -⟩
        · exact (h.eq_zero_iff hratio).mpr (by linarith)
        · have hnone : (quanta' : ℚ) = 0 := by linarith
          exact_mod_cast hnone
    rw [hzero]
    rfl
  · exact h.even hgrid' hother hsame

theorem abs_toRat_sub (negative : Bool) (h : Representable quanta) (value : ℚ) :
    |(finite negative quanta h).toRat - value| * quantaPerUnit
      = |(signed negative quanta : ℚ) - value * quantaPerUnit| := by
  have hpos := quantaPerUnit_pos_cast
  have hscaled : |(finite negative quanta h).toRat - value| * |(quantaPerUnit : ℚ)|
      = |(signed negative quanta : ℚ) - value * quantaPerUnit| := by
    rw [← abs_mul, sub_mul, toRat, div_mul_cancel₀ _ hpos.ne']
  rwa [abs_of_pos hpos] at hscaled

/-- **Rounding gives the nearest number**, if it does not overflow. -/
theorem RoundsTo.nearest_finite (hvalue : 0 ≤ value)
    (h : RoundsTo (value * quantaPerUnit) quanta) (hq : Representable quanta) :
    Nearest value (.finite false quanta hq) := by
  have hpos := quantaPerUnit_pos_cast
  have hratio : 0 ≤ value * quantaPerUnit := mul_nonneg hvalue hpos.le
  refine ⟨rfl, fun y hy => ?_, fun y hy hne htie => ?_⟩
  · cases y with
    | nan => cases hy
    | infinite => cases hy
    | finite negative quanta' hq' =>
      refine le_of_mul_le_mul_right ?_ hpos
      rw [abs_toRat_sub, abs_toRat_sub]
      exact (h.nearest hq'.2).trans (abs_sub_le_abs_signed_sub hratio negative quanta')
  · cases y with
    | nan => cases hy
    | infinite => cases hy
    | finite negative quanta' hq' =>
      have hscaled := congrArg (· * (quantaPerUnit : ℚ)) htie
      simp only [abs_toRat_sub] at hscaled
      refine h.even_signed hratio hq'.2 negative (fun heq => hne ?_) hscaled
      rw [toRat, toRat, heq, signed_false]

/-! ## 3. Rounding a value -/

theorem roundsTo_of_value (hden : 0 < den) (h : (num / den : ℚ) = value * quantaPerUnit) :
    RoundsTo (value * quantaPerUnit) (roundQuanta num den) :=
  h ▸ roundsTo_roundQuanta num hden

theorem ofRatio_of_lt (h : roundQuanta num den < limit) : ofRatio negative num den
    = .finite negative (roundQuanta num den) ⟨h, spacing_dvd_roundQuanta num den⟩ :=
  dif_pos h

theorem ofRatio_of_le (h : limit ≤ roundQuanta num den) :
    ofRatio negative num den = .infinite negative :=
  dif_neg (Nat.not_lt.mpr h)

/-- **Too large**: halfway from the largest finite number to the limit, or beyond. -/
theorem limit_le_roundQuanta_iff (hden : 0 < den) (h : (num / den : ℚ) = value * quantaPerUnit) :
    limit ≤ roundQuanta num den ↔ (pow2 1024 - pow2 970 : ℚ) ≤ value := by
  have hscaled : (limit - pow2 (970 + places) : ℚ) = (pow2 1024 - pow2 970) * quantaPerUnit := by
    rw [limit, quantaPerUnit, pow2_add, pow2_add]
    push_cast
    exact (sub_mul _ _ _).symm
  rw [(roundsTo_of_value hden h).limit_le_iff, hscaled, mul_le_mul_iff_left₀ quantaPerUnit_pos_cast]

/-- **Too small**: halfway from zero to the first number above it, or below. -/
theorem roundQuanta_eq_zero_iff (hden : 0 < den) (h : (num / den : ℚ) = value * quantaPerUnit)
    (hvalue : 0 ≤ value) : roundQuanta num den = 0 ↔ value ≤ 1 / pow2 1075 := by
  have hpos := quantaPerUnit_pos_cast
  have hpow : pow2 1075 = 2 * quantaPerUnit := by
    have htwo : pow2 1 = 2 := rfl
    have hplaces : 1075 = 1 + places := rfl
    rw [hplaces, pow2_add, htwo, quantaPerUnit]
  have hhalf : (pow2 1075 : ℚ) = 2 * quantaPerUnit := by exact_mod_cast hpow
  rw [(roundsTo_of_value hden h).eq_zero_iff (mul_nonneg hvalue hpos.le), hhalf,
    le_div_iff₀ (by linarith), mul_left_comm]

theorem ofRatio_ne_nan (negative : Bool) (num den : Nat) : ofRatio negative num den ≠ .nan := by
  cases Nat.lt_or_ge (roundQuanta num den) limit with
  | inl hless =>
    rw [ofRatio_of_lt hless]
    exact nofun
  | inr hlimit =>
    rw [ofRatio_of_le hlimit]
    exact nofun

theorem ofRatio_eq_infinite_iff :
    ofRatio negative num den = .infinite negative ↔ limit ≤ roundQuanta num den := by
  refine ⟨fun h => Nat.le_of_not_lt fun hless => ?_, ofRatio_of_le⟩
  rw [ofRatio_of_lt hless] at h
  cases h

theorem ofRatio_eq_zero_iff :
    ofRatio negative num den = zero negative ↔ roundQuanta num den = 0 := by
  constructor
  · intro h
    cases Nat.lt_or_ge (roundQuanta num den) limit with
    | inl hless =>
      rw [ofRatio_of_lt hless] at h
      exact (finite.inj h).2
    | inr hlimit =>
      rw [ofRatio_of_le hlimit] at h
      cases h
  · exact ofRatio_eq_finite negative representable_zero

/-- What a value that is not negative has to be rounded to.  It is infinite from halfway between the
largest finite number and the limit on.  Up to there it is a nearest finite number without a sign,
which is zero up to halfway between zero and the first number above it. -/
structure IsRounding (value : ℚ) (x : Binary64) : Prop where
  infinite_iff : x = .infinite false ↔ (pow2 1024 - pow2 970 : ℚ) ≤ value
  nearest : value < pow2 1024 - pow2 970 → Nearest value x
  positive : x.isFinite → ∃ quanta h, x = .finite false quanta h
  zero_iff : x = zero false ↔ value ≤ 1 / pow2 1075

/-- **A ratio is rounded as its value has to be.** -/
theorem isRounding_ofRatio (hden : 0 < den) (h : (num / den : ℚ) = value * quantaPerUnit)
    (hvalue : 0 ≤ value) : IsRounding value (ofRatio false num den) where
  infinite_iff := by rw [ofRatio_eq_infinite_iff, limit_le_roundQuanta_iff hden h]
  nearest := by
    intro hsmall
    have hless : roundQuanta num den < limit := by
      rw [← not_le, limit_le_roundQuanta_iff hden h, not_le]
      exact hsmall
    rw [ofRatio_of_lt hless]
    exact (roundsTo_of_value hden h).nearest_finite hvalue _
  positive := eq_finite_of_ofRatio
  zero_iff := by rw [ofRatio_eq_zero_iff, roundQuanta_eq_zero_iff hden h hvalue]

/-- **Equal values are rounded to the same number.** -/
theorem ofRatio_congr (hden : 0 < den) (h : (num / den : ℚ) = value * quantaPerUnit)
    (hden' : 0 < den') (h' : (num' / den' : ℚ) = value * quantaPerUnit) :
    ofRatio negative num den = ofRatio negative num' den' := by
  have hsame : roundQuanta num den = roundQuanta num' den' :=
    (roundsTo_of_value hden h).unique (roundsTo_of_value hden' h')
  simp only [ofRatio, hsame]

/-- **Larger values are not rounded to smaller numbers.** -/
theorem le_ofRatio (hden : 0 < den) (h : (num / den : ℚ) = value * quantaPerUnit)
    (hden' : 0 < den') (h' : (num' / den' : ℚ) = value' * quantaPerUnit) (hle : value ≤ value') :
    Le (ofRatio false num den) (ofRatio false num' den') := by
  have hmono : roundQuanta num den ≤ roundQuanta num' den' :=
    (roundsTo_of_value hden h).mono (roundsTo_of_value hden' h')
      (mul_le_mul_of_nonneg_right hle quantaPerUnit_pos_cast.le)
  cases Nat.lt_or_ge (roundQuanta num' den') limit with
  | inl hless' =>
    have hless : roundQuanta num den < limit := Nat.lt_of_le_of_lt hmono hless'
    rw [ofRatio_of_lt hless, ofRatio_of_lt hless']
    exact .finite (Int.ofNat_le.mpr hmono)
  | inr hlimit' =>
    rw [ofRatio_of_le hlimit']
    exact .positive (ofRatio_ne_nan _ _ _)

end Reckoner.Binary64
