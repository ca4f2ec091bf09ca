/-
# Arithmetic on integers is exact

Every integer with 53 bits, and the power of two behind them, is a number of the format
(`Binary64.representable_whole`).  Sums, differences and products that stay within that bound are
rounded to themselves, whatever the signs of the zeros among them (`Binary64.IsExact.add`, `.sub`
and `.mul`).
-/
import Reckoner.Proofs.Binary64.Nearest
import Reckoner.Proofs.Binary64.ReadBack

namespace Reckoner.Binary64

variable {x y : Binary64} {v w : ℤ} {negative : Bool} {whole quanta num den : Nat}

/-! ## 1. Integers of the format -/

theorem representable_whole (h : whole ≤ pow2 53) : Representable (whole * quantaPerUnit) := by
  have hle : whole * quantaPerUnit ≤ pow2 (53 + places) := by
    rw [pow2_add, quantaPerUnit]
    exact Nat.mul_le_mul_right _ h
  have hlt : pow2 (53 + places) < limit := by
    rw [limit, ← log2_lt_iff (pow2_pos _).ne', log2_pow2]
    exact Nat.add_lt_add_right (by decide) _
  exact ⟨Nat.lt_of_le_of_lt hle hlt, spacing_dvd_mul _ h⟩

/-- A finite number that is an integer. -/
def IsExact (x : Binary64) (value : ℤ) : Prop :=
  ∃ negative quanta h, x = .finite negative quanta h ∧
    signed negative quanta = value * quantaPerUnit

theorem IsExact.isFinite (h : x.IsExact v) : x.isFinite := by
  obtain ⟨negative, quanta, hq, rfl, -⟩ := h
  rfl

theorem IsExact.toRat (h : x.IsExact v) : x.toRat = v := by
  obtain ⟨negative, quanta, hq, rfl, hvalue⟩ := h
  rw [Binary64.toRat, hvalue]
  push_cast
  exact mul_div_cancel_right₀ _ quantaPerUnit_pos_cast.ne'

/-! ## 2. Signs -/

theorem natAbs_signed (negative : Bool) (quanta : Nat) :
    (signed negative quanta).natAbs = quanta := by
  cases negative <;> simp [signed]

theorem signed_not (negative : Bool) (quanta : Nat) :
    signed (!negative) quanta = -signed negative quanta := by
  cases negative <;> simp [signed]

theorem signed_mul (negative : Bool) (quanta factor : Nat) :
    signed negative (quanta * factor) = signed negative quanta * factor := by
  cases negative <;> simp [signed]

theorem signed_bne (s t : Bool) (a b : Nat) :
    signed (s != t) (a * b) = signed s a * signed t b := by
  cases s <;> cases t <;> simp [signed]

/-- An integer is made of its magnitude and its sign; zero has any sign. -/
theorem signed_natAbs {quanta : ℤ} (h : quanta ≠ 0 → negative = decide (quanta < 0)) :
    signed negative quanta.natAbs = quanta := by
  by_cases hzero : quanta = 0
  · cases negative <;> simp [signed, hzero]
  · rw [h hzero, signed]
    simp only [decide_eq_true_eq]
    split <;> omega

theorem eq_natAbs_mul (h : signed negative quanta = v * quantaPerUnit) :
    quanta = v.natAbs * quantaPerUnit := by
  rw [← natAbs_signed negative quanta, h, Int.natAbs_mul, Int.natAbs_natCast]

theorem isExact_ofRatio (h : v.natAbs ≤ pow2 53)
    (hsign : signed negative (v.natAbs * quantaPerUnit) = v * quantaPerUnit)
    (hratio : num = v.natAbs * quantaPerUnit * den) (hden : 0 < den) :
    IsExact (ofRatio negative num den) v := by
  have hround : roundQuanta num den = v.natAbs * quantaPerUnit := by
    rw [hratio]
    exact roundQuanta_of_representable (representable_whole h) hden
  exact ⟨negative, _, representable_whole h, ofRatio_eq_finite negative _ hround, hsign⟩

/-! ## 3. Arithmetic -/

theorem add_finite (s t : Bool) (a b : Nat) (ha : Representable a) (hb : Representable b) :
    Binary64.finite s a ha + .finite t b hb = ofSigned (s && t) (signed s a + signed t b) := by
  change Binary64.add _ _ = _
  rw [Binary64.add]

theorem mul_finite (s t : Bool) (a b : Nat) (ha : Representable a) (hb : Representable b) :
    Binary64.finite s a ha * .finite t b hb = ofRatio (s != t) (a * b) quantaPerUnit := by
  change Binary64.mul _ _ = _
  rw [Binary64.mul]

theorem IsExact.neg (h : x.IsExact v) : IsExact (-x) (-v) := by
  obtain ⟨negative, quanta, hq, rfl, hvalue⟩ := h
  refine ⟨!negative, quanta, hq, rfl, ?_⟩
  rw [signed_not, hvalue, Int.neg_mul]

/-- **Sums of integers are exact.** -/
theorem IsExact.add (hx : x.IsExact v) (hy : y.IsExact w) (h : (v + w).natAbs ≤ pow2 53) :
    IsExact (x + y) (v + w) := by
  obtain ⟨s, a, ha, rfl, hv⟩ := hx
  obtain ⟨t, b, hb, rfl, hw⟩ := hy
  have hsum : signed s a + signed t b = (v + w) * quantaPerUnit := by rw [hv, hw, Int.add_mul]
  have habs : ((v + w) * quantaPerUnit).natAbs = (v + w).natAbs * quantaPerUnit := by
    rw [Int.natAbs_mul, Int.natAbs_natCast]
  rw [add_finite, hsum, ofSigned]
  refine isExact_ofRatio h ?_ (by rw [habs, Nat.mul_one]) Nat.one_pos
  rw [← habs]
  exact signed_natAbs fun hne => if_neg hne

/-- **Differences of integers are exact.** -/
theorem IsExact.sub (hx : x.IsExact v) (hy : y.IsExact w) (h : (v - w).natAbs ≤ pow2 53) :
    IsExact (x - y) (v - w) :=
  hx.add hy.neg h

/-- **Products of integers are exact.** -/
theorem IsExact.mul (hx : x.IsExact v) (hy : y.IsExact w) (h : (v * w).natAbs ≤ pow2 53) :
    IsExact (x * y) (v * w) := by
  obtain ⟨s, a, ha, rfl, hv⟩ := hx
  obtain ⟨t, b, hb, rfl, hw⟩ := hy
  have hproduct : a * b = (v * w).natAbs * quantaPerUnit * quantaPerUnit := by
    rw [eq_natAbs_mul hv, eq_natAbs_mul hw, Int.natAbs_mul]
    ring
  rw [mul_finite]
  refine isExact_ofRatio h ?_ hproduct quantaPerUnit_pos
  have hpos : (quantaPerUnit : ℤ) ≠ 0 := by exact_mod_cast quantaPerUnit_pos.ne'
  refine mul_right_cancel₀ hpos ?_
  rw [← signed_mul, ← hproduct, signed_bne, hv, hw]
  ring

/-- The number that a whole number is read as. -/
def ofWhole (whole : Nat) : Binary64 := ofDecimal false ⟨whole, 0⟩

/-- **Whole numbers are read exactly.** -/
theorem isExact_ofWhole (h : whole ≤ pow2 53) : IsExact (ofWhole whole) whole := by
  rw [ofWhole, ofDecimal]
  refine isExact_ofRatio ?_ ?_ ?_ (Decimal.denominator_pos _)
  · rwa [Int.natAbs_natCast]
  · rw [Int.natAbs_natCast, signed]
    push_cast
    rfl
  · simp [Decimal.numerator, Decimal.denominator]

end Reckoner.Binary64
