/-
# An integer is shown by its digits

A number that is an integer is shown without a point and without an exponent, up to `2 ^ 53`
(`Binary64.IsExact.write_screen`).

The search for the shortest decimal goes from coarse grids to fine ones.  On the grids of whole
numbers nothing but the integer itself reads back, except at the bound, where the odd number behind
it does too and is further away (`Binary64.eq_of_readsBack_units`).  So the search passes by the
grids that miss the integer and ends on the first that holds it, at the latest on that of single
units (`Binary64.shortestFrom_units`).  It starts above that one, as the integer has a digit there.
-/
import Reckoner.Proofs.Binary64.Integers

namespace Reckoner.Binary64

variable {x : Binary64} {v : ℤ} {negative : Bool} {whole multiple quanta exact step dropped : Nat}

/-- How many grains make up the number one. -/
def grainsPerUnit : Nat := grainsPerQuantum * quantaPerUnit

theorem grainsPerUnit_pos : 0 < grainsPerUnit := Nat.mul_pos grainsPerQuantum_pos quantaPerUnit_pos

/-! ## 1. Which whole numbers read back -/

theorem roundQuanta_units (multiple : Nat) :
    roundQuanta (multiple * grainsPerUnit) grainsPerQuantum
      = roundQuanta (multiple * quantaPerUnit) 1 := by
  refine roundQuanta_congr grainsPerQuantum_pos Nat.one_pos ?_
  rw [grainsPerUnit, Nat.mul_one, Nat.mul_assoc, Nat.mul_comm quantaPerUnit]

theorem roundQuanta_whole (h : multiple ≤ pow2 53) :
    roundQuanta (multiple * quantaPerUnit) 1 = multiple * quantaPerUnit := by
  have hround := roundQuanta_of_representable (representable_whole h) Nat.one_pos
  rwa [Nat.mul_one] at hround

/-- **Behind the bound** the next integer of the format is two units away, and what is not less is
not rounded to less. -/
theorem le_roundQuanta_beyond (h : pow2 53 + 2 ≤ multiple) :
    (pow2 53 + 2) * quantaPerUnit ≤ roundQuanta (multiple * quantaPerUnit) 1 := by
  have heven : (pow2 53 + 2) * quantaPerUnit = (pow2 52 + 1) * pow2 (1 + places) := by
    have hhalf : pow2 53 + 2 = (pow2 52 + 1) * pow2 1 := rfl
    rw [pow2_add, ← Nat.mul_assoc, ← hhalf, quantaPerUnit]
  have hgrid : OnGrid ((pow2 53 + 2) * quantaPerUnit) := by
    rw [heven]
    exact spacing_dvd_mul _ (by decide)
  refine (roundsTo_self hgrid).mono (roundsTo_roundQuanta _ Nat.one_pos) ?_
  rw [Nat.cast_one, div_one]
  exact_mod_cast Nat.mul_le_mul_right _ h

theorem readsBack_whole (h : whole ≤ pow2 53) :
    readsBack (whole * quantaPerUnit) (whole * grainsPerUnit) := by
  rw [readsBack, beq_iff_eq, roundQuanta_units, roundQuanta_whole h]

/-- **Only the integer itself reads back**, apart from the odd number behind the bound. -/
theorem eq_of_readsBack_units (h : whole ≤ pow2 53) (hodd : multiple ≠ pow2 53 + 1)
    (hback : readsBack (whole * quantaPerUnit) (multiple * grainsPerUnit)) : multiple = whole := by
  rw [readsBack, beq_iff_eq, roundQuanta_units] at hback
  cases Nat.lt_or_ge (pow2 53) multiple with
  | inl hmore =>
    have hbeyond := le_roundQuanta_beyond (Nat.lt_of_le_of_ne hmore (Ne.symm hodd))
    rw [hback] at hbeyond
    have hle := Nat.le_of_mul_le_mul_right hbeyond quantaPerUnit_pos
    exact absurd (hle.trans h) (Nat.not_le.mpr (Nat.lt_add_of_pos_right Nat.two_pos))
  | inr hless =>
    rw [roundQuanta_whole hless] at hback
    exact Nat.eq_of_mul_eq_mul_right quantaPerUnit_pos hback

/-! ## 2. The search -/

theorem neighbour?_of_dvd (hstep : 0 < step) (hdvd : step ∣ exact)
    (hback : readsBack quanta exact) : neighbour? quanta exact step = some (exact / step) := by
  have hbelow : exact / step * step = exact := Nat.div_mul_cancel hdvd
  have hfar : ¬(exact / step + 1) * step - exact ≤ exact - exact := by
    rw [Nat.succ_mul, hbelow]
    omega
  unfold neighbour?
  generalize readsBack quanta = reads at *
  cases habove : reads ((exact / step + 1) * step) with
  | true => simp only [hbelow, hback, habove, if_neg hfar]
  | false => simp only [hbelow, hback, habove]

theorem neighbour?_eq_none (h : ∀ steps, ¬readsBack quanta (steps * step)) :
    neighbour? quanta exact step = none := by
  have hnone : ∀ steps, readsBack quanta (steps * step) = false :=
    fun steps => Bool.eq_false_iff.mpr (h steps)
  unfold neighbour?
  generalize readsBack quanta = reads at *
  simp only [hnone]

/-- A multiple of a power of ten that is not one is even. -/
theorem mul_pow_ten_ne (hdropped : dropped ≠ 0) (steps : Nat) :
    steps * 10 ^ dropped ≠ pow2 53 + 1 := by
  intro hodd
  have hdvd : 10 ∣ pow2 53 + 1 := hodd ▸ (dvd_pow_self 10 hdropped).mul_left steps
  exact absurd hdvd (by decide)

/-- **A grid of whole numbers** holds the integer, or it has nothing that reads back. -/
theorem neighbour?_units (h : whole ≤ pow2 53) (dropped : Nat) :
    neighbour? (whole * quantaPerUnit) (whole * grainsPerUnit) (10 ^ dropped * grainsPerUnit)
      = if 10 ^ dropped ∣ whole then some (whole / 10 ^ dropped) else none := by
  split
  next hdvd =>
    have hstep : 0 < 10 ^ dropped * grainsPerUnit :=
      Nat.mul_pos (Nat.pow_pos (by decide)) grainsPerUnit_pos
    rw [neighbour?_of_dvd hstep (Nat.mul_dvd_mul_right hdvd _) (readsBack_whole h),
      Nat.mul_div_mul_right _ _ grainsPerUnit_pos]
  next hnot =>
    refine neighbour?_eq_none fun steps hback => hnot ?_
    have hdropped : dropped ≠ 0 := by
      rintro rfl
      exact hnot (Nat.one_dvd _)
    rw [← Nat.mul_assoc] at hback
    rw [← eq_of_readsBack_units h (mul_pow_ten_ne hdropped steps) hback]
    exact Nat.dvd_mul_left _ _

theorem pow_ten_places_add (dropped : Nat) :
    Nat.pow 10 (places + dropped) = 10 ^ dropped * grainsPerUnit := by
  have hpow : ∀ i j, Nat.pow 10 (i + j) = Nat.pow 10 i * 10 ^ j := Nat.pow_add 10
  rw [hpow, grainsPerUnit, grainsPerQuantum_mul_quantaPerUnit, Nat.mul_comm]

/-- The search stops at a grid that holds the integer. -/
theorem shortestFrom_of_dvd (h : whole ≤ pow2 53) (hdvd : 10 ^ dropped ∣ whole) :
    shortestFrom (whole * quantaPerUnit) (whole * grainsPerUnit) (places + dropped)
      = ⟨(whole / 10 ^ dropped : Nat), dropped⟩ := by
  obtain ⟨finer, hfiner⟩ : ∃ finer, places + dropped = finer + 1 :=
    ⟨places + dropped - 1, by unfold places; omega⟩
  have hexponent : ((places + dropped : Nat) : ℤ) - places = dropped := by omega
  rw [hfiner, shortestFrom_succ, ← hfiner, pow_ten_places_add, neighbour?_units h, if_pos hdvd]
  simp only [hexponent]

/-- It passes by a grid that misses the integer. -/
theorem shortestFrom_of_not_dvd (h : whole ≤ pow2 53) (hnot : ¬10 ^ (dropped + 1) ∣ whole) :
    shortestFrom (whole * quantaPerUnit) (whole * grainsPerUnit) (places + (dropped + 1))
      = shortestFrom (whole * quantaPerUnit) (whole * grainsPerUnit) (places + dropped) := by
  rw [← Nat.add_assoc, shortestFrom_succ, Nat.add_assoc, pow_ten_places_add, neighbour?_units h,
    if_neg hnot]

/-- **The search ends on the integer**, wherever above the grid of units it begins. -/
theorem shortestFrom_units (h : whole ≤ pow2 53) (dropped : Nat) :
    ∃ digits zeros : Nat, digits * 10 ^ zeros = whole ∧
      shortestFrom (whole * quantaPerUnit) (whole * grainsPerUnit) (places + dropped)
        = ⟨digits, zeros⟩ := by
  induction dropped with
  | zero => exact ⟨_, _, Nat.div_mul_cancel (Nat.one_dvd _), shortestFrom_of_dvd h (Nat.one_dvd _)⟩
  | succ dropped ih =>
    by_cases hdvd : 10 ^ (dropped + 1) ∣ whole
    · exact ⟨_, _, Nat.div_mul_cancel hdvd, shortestFrom_of_dvd h hdvd⟩
    · rwa [shortestFrom_of_not_dvd h hdvd]

/-! ## 3. Texts -/

/-- The search begins above the grid of units, as the integer has a digit there. -/
theorem places_le_digitBound (h : 0 < whole) : places ≤ digitBound (whole * grainsPerUnit) := by
  have hpow : pow2 3567 ≤ whole * grainsPerUnit := by
    -- the largest power of two that is not above a unit
    have hunit : pow2 3567 ≤ grainsPerUnit := by decide +kernel
    exact hunit.trans (Nat.le_mul_of_pos_left _ h)
  have hlog := log2_le_log2 hpow
  rw [log2_pow2] at hlog
  unfold digitBound places
  generalize (whole * grainsPerUnit).log2 = digits at *
  omega

/-- **The text of an integer** is that of its digits. -/
theorem text_shortest_whole (h : whole ≤ pow2 53) :
    (shortest (whole * quantaPerUnit)).text = Nat.toDigits 10 whole := by
  rcases Nat.eq_zero_or_pos whole with rfl | hpos
  · -- zero has no digit in front of the point, and its search is a short one
    rw [Nat.zero_mul]
    decide +kernel
  · have hexact : whole * quantaPerUnit * grainsPerQuantum = whole * grainsPerUnit := by
      rw [grainsPerUnit, Nat.mul_assoc, Nat.mul_comm quantaPerUnit]
    obtain ⟨dropped, hdropped⟩ := Nat.exists_eq_add_of_le (places_le_digitBound hpos)
    obtain ⟨digits, zeros, hvalue, hfound⟩ := shortestFrom_units h dropped
    rw [shortest, hexact, hdropped, hfound, Decimal.text_natCast, hvalue]

/-- An integer is written as its magnitude, with a minus sign in front of a negative one. -/
theorem toString_eq_signText (v : ℤ) :
    toString v = signText (decide (v < 0)) ++ String.ofList (Nat.toDigits 10 v.natAbs) := by
  cases v with
  | ofNat whole =>
    have hsign : decide (Int.ofNat whole < 0) = false := by simp
    rw [hsign]
    simp [signText, toString, Int.repr, Nat.repr]
  | negSucc whole =>
    have hsign : decide (Int.negSucc whole < 0) = true := by simp
    rw [hsign]
    simp [signText, toString, Int.repr, Nat.repr]

theorem shown_sign (h : signed negative quanta = v * quantaPerUnit) :
    (negative && quanta != 0) = decide (v < 0) := by
  have hpos : (0 : ℤ) < quantaPerUnit := by exact_mod_cast quantaPerUnit_pos
  have hless : v * quantaPerUnit < 0 * quantaPerUnit ↔ v < 0 := mul_lt_mul_iff_left₀ hpos
  rw [zero_mul, ← h] at hless
  rw [Bool.eq_iff_iff, decide_eq_true_iff, ← hless]
  cases negative with
  | false => simp [signed]
  | true => simp [signed, Nat.pos_iff_ne_zero]

/-- **An integer is shown by its digits**, with a minus sign in front of a negative one. -/
theorem IsExact.write_screen (hx : x.IsExact v) (h : v.natAbs ≤ pow2 53) :
    x.write .screen = toString v := by
  obtain ⟨negative, quanta, hq, rfl, hvalue⟩ := hx
  have hquanta := eq_natAbs_mul hvalue
  rw [write, Spelling.screen, Bool.or_false, shown_sign hvalue, hquanta, text_shortest_whole h,
    toString_eq_signText]

end Reckoner.Binary64
