/-
# The shortest decimal is read as its number

Whatever grid the search for the shortest decimal of a number ends on, the decimal that it finds is
read as the number (`Binary64.readsAs_shortest`): on a coarse grid because that was tried, and on
the finest because a number is a whole number of grains.  What the search writes down is a decimal
over a power of ten, and what it tries is a ratio of grains; the two are the same ratio
(`Binary64.readsAs_iff_readsBack`).

So the text of a magnitude is read as that magnitude (`Binary64.ofText?_shortest`).
-/
import Reckoner.Binary64.Text
import Reckoner.Proofs.Binary64.Ratio
import Reckoner.Proofs.Decimal.Text

namespace Reckoner.Binary64

variable {quanta : Nat} {decimal : Decimal}

/-- A decimal without a sign is read as the magnitude of `quanta` quanta. -/
def ReadsAs (decimal : Decimal) (quanta : Nat) : Prop :=
  roundQuanta (decimal.numerator * quantaPerUnit) decimal.denominator = quanta

/-! ## 1. Decimals of the same value -/

theorem ReadsAs.of_sameValue {other : Decimal} (h : ReadsAs decimal quanta)
    (hsame : decimal.SameValue other) : ReadsAs other quanta := by
  rw [ReadsAs, ← h]
  refine roundQuanta_congr other.denominator_pos decimal.denominator_pos ?_
  rw [Nat.mul_right_comm, Nat.mul_right_comm decimal.numerator, hsame]

theorem ReadsAs.ofDecimal_eq (h : ReadsAs decimal quanta) (hq : Representable quanta)
    (negative : Bool) : ofDecimal negative decimal = .finite negative quanta hq :=
  ofRatio_eq_finite negative hq h

/-! ## 2. Grains -/

theorem pow_five_mul_pow_two (exponent : Nat) :
    Nat.pow 5 exponent * Nat.pow 2 exponent = Nat.pow 10 exponent :=
  (Nat.mul_pow 5 2 exponent).symm

theorem grainsPerQuantum_pos : 0 < grainsPerQuantum := by
  unfold grainsPerQuantum
  generalize places = exponent
  exact Nat.pow_pos (by decide)

/-- A unit is a power of ten of grains. -/
theorem grainsPerQuantum_mul_quantaPerUnit :
    grainsPerQuantum * quantaPerUnit = Nat.pow 10 places := by
  unfold grainsPerQuantum quantaPerUnit pow2
  exact pow_five_mul_pow_two places

/-- A number is a whole number of grains, and so a decimal of the finest grid. -/
theorem readsAs_exact (h : Representable quanta) :
    ReadsAs ⟨quanta * grainsPerQuantum, -places⟩ quanta := by
  rw [ReadsAs, Decimal.numerator_mk_neg, Decimal.denominator_mk_neg, Nat.mul_assoc,
    ← grainsPerQuantum_mul_quantaPerUnit]
  exact roundQuanta_of_representable h (Nat.mul_pos grainsPerQuantum_pos quantaPerUnit_pos)

theorem numerator_mul_quantaPerUnit (steps dropped : Nat) :
    (⟨steps, dropped - places⟩ : Decimal).numerator * quantaPerUnit * grainsPerQuantum
      = steps * Nat.pow 10 dropped * (⟨steps, dropped - places⟩ : Decimal).denominator := by
  have hexponent : ((dropped : Int) - places).toNat + places
      = dropped + (-((dropped : Int) - places)).toNat := by omega
  rw [Nat.mul_assoc _ quantaPerUnit, Nat.mul_comm quantaPerUnit, grainsPerQuantum_mul_quantaPerUnit,
    Decimal.numerator, Decimal.denominator, Nat.mul_assoc, Nat.mul_assoc]
  simp only [Nat.pow_eq, ← Nat.pow_add]
  rw [hexponent]

/-- **What is tried is what is written.** -/
theorem readsAs_iff_readsBack (steps dropped : Nat) :
    ReadsAs ⟨steps, dropped - places⟩ quanta ↔ readsBack quanta (steps * Nat.pow 10 dropped) := by
  have hratio := roundQuanta_congr (Decimal.denominator_pos _) grainsPerQuantum_pos
    (numerator_mul_quantaPerUnit steps dropped)
  rw [ReadsAs, readsBack, beq_iff_eq, hratio]

/-! ## 3. The search -/

/-- A neighbour that is taken reads back. -/
theorem readsBack_of_neighbour? {exact step steps : Nat}
    (h : neighbour? quanta exact step = some steps) : readsBack quanta (steps * step) := by
  unfold neighbour? at h
  -- what is tried plays no part, only how the answers are used
  generalize readsBack quanta = reads at *
  cases hbelow : reads (exact / step * step) <;>
    cases habove : reads ((exact / step + 1) * step) <;> simp only [hbelow, habove] at h
  case false.false => cases h
  case false.true =>
    cases h
    exact habove
  case true.false =>
    cases h
    exact hbelow
  case true.true =>
    split at h <;> cases h
    · exact habove
    · exact hbelow

theorem shortestFrom_succ (exact dropped : Nat) :
    shortestFrom quanta exact (dropped + 1)
      = match neighbour? quanta exact (Nat.pow 10 (dropped + 1)) with
        | some steps => ⟨steps, (dropped + 1 : Nat) - places⟩
        | none => shortestFrom quanta exact dropped := by
  delta shortestFrom
  rfl

/-- **Every grid that the search ends on holds a decimal that reads back.** -/
theorem readsAs_shortestFrom {exact : Nat} (h : ReadsAs ⟨exact, -places⟩ quanta) (dropped : Nat) :
    ReadsAs (shortestFrom quanta exact dropped) quanta := by
  induction dropped with
  | zero => exact h
  | succ dropped ih =>
    rw [shortestFrom_succ]
    have htaken := @readsBack_of_neighbour? quanta exact (Nat.pow 10 (dropped + 1))
    generalize neighbour? quanta exact (Nat.pow 10 (dropped + 1)) = taken at *
    cases taken with
    | some steps => exact (readsAs_iff_readsBack steps (dropped + 1)).mpr (htaken rfl)
    | none => exact ih

/-- **The shortest decimal of a number is read as that number.** -/
theorem readsAs_shortest (h : Representable quanta) : ReadsAs (shortest quanta) quanta :=
  readsAs_shortestFrom (readsAs_exact h) _

/-! ## 4. Texts -/

/-- A decimal is read as the same number when it is written out. -/
theorem ReadsAs.ofText?_text (h : ReadsAs decimal quanta) (hq : Representable quanta) :
    ofText? (String.ofList decimal.text) = some (.finite false quanta hq) := by
  obtain ⟨back, hback, hsame⟩ := decimal.sameValue_of_text
  rw [ofText?, String.toList_ofList, decimal.isPlain_text.takeSign_eq]
  simp only [hback]
  rw [(h.of_sameValue hsame).ofDecimal_eq hq]

/-- **The text of a magnitude is read as that magnitude.** -/
theorem ofText?_shortest (h : Representable quanta) :
    ofText? (String.ofList (shortest quanta).text) = some (.finite false quanta h) :=
  (readsAs_shortest h).ofText?_text h

end Reckoner.Binary64
