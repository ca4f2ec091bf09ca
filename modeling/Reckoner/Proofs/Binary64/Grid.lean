/-
# Where a ratio is rounded to

The magnitudes with at most 53 significant bits, however large, are a grid: behind each of them the
next one lies a spacing away (`Binary64.OnGrid.add_spacing_le`).  Rounding takes a ratio to one of
the two that it lies between, the nearer one, and on a tie to the one with the even significand
(`Binary64.RoundsTo`).  All that matters about rounding follows from this description.

* **Order.**  A larger ratio is not rounded to less (`RoundsTo.mono`).
* **Nearest.**  No magnitude of the grid is nearer, and one that is as near leaves the even
  significand to the one taken (`RoundsTo.nearest`, `RoundsTo.even`).
* **The ends.**  What is half a quantum or less is rounded to nothing (`RoundsTo.eq_zero_iff`), and
  from halfway between the largest finite magnitude and the limit on the limit is reached
  (`RoundsTo.limit_le_iff`).
-/
import Mathlib.Algebra.Order.Field.Rat
import Mathlib.Tactic.FieldSimp
import Mathlib.Tactic.Linarith
import Reckoner.Proofs.Binary64.Patterns
import Reckoner.Proofs.Binary64.Ratio

namespace Reckoner.Binary64

variable {lower upper quanta quanta' whole num den : Nat} {ratio ratio' : ℚ}

/-! ## 1. The grid -/

/-- A magnitude with at most 53 significant bits. -/
def OnGrid (quanta : Nat) : Prop := spacing quanta ∣ quanta

/-- A magnitude measured in its own spacing. -/
def significand (quanta : Nat) : Nat := quanta / spacing quanta

theorem significand_mul_spacing (h : OnGrid quanta) :
    significand quanta * spacing quanta = quanta :=
  Nat.div_mul_cancel h

theorem significand_lt (quanta : Nat) : significand quanta < pow2 53 := by
  have h := div_mul_spacing_lt quanta 1
  rwa [Nat.div_one, Nat.one_mul] at h

theorem log2_le_log2 (h : lower ≤ upper) : lower.log2 ≤ upper.log2 := by
  rcases Nat.eq_zero_or_pos lower with rfl | hpos
  · exact Nat.zero_le _
  · exact (Nat.le_log2 (by omega)).mpr ((Nat.log2_self_le (Nat.ne_of_gt hpos)).trans h)

theorem spacing_dvd_spacing (h : lower ≤ upper) : spacing lower ∣ spacing upper :=
  pow2_dvd_pow2 (Nat.sub_le_sub_right (log2_le_log2 h) 52)

/-- **The gap.**  The next magnitude of the grid is not nearer than a spacing. -/
theorem OnGrid.add_spacing_le (hlower : OnGrid lower) (hupper : OnGrid upper)
    (h : lower < upper) : lower + spacing lower ≤ upper := by
  have hdvd : spacing lower ∣ upper - lower :=
    Nat.dvd_sub ((spacing_dvd_spacing h.le).trans hupper) hlower
  have hle := Nat.le_of_dvd (Nat.sub_pos_of_lt h) hdvd
  omega

/-- **The next magnitude** is a spacing away. -/
theorem OnGrid.onGrid_add_spacing (h : OnGrid lower) : OnGrid (lower + spacing lower) := by
  have hnext : lower + spacing lower = (significand lower + 1) * pow2 (lower.log2 - 52) := by
    rw [Nat.succ_mul, ← spacing, significand_mul_spacing h]
  rw [OnGrid, hnext]
  exact spacing_dvd_mul _ (significand_lt lower)

/-- The next magnitude is still within the power of two above. -/
theorem OnGrid.add_spacing_le_pow2 (h : OnGrid lower) :
    lower + spacing lower ≤ pow2 (lower.log2 + 1) := by
  have hpow : spacing lower ∣ pow2 (lower.log2 + 1) := pow2_dvd_pow2 (by omega)
  have hlt := lt_pow2_log2 lower
  have hle := Nat.le_of_dvd (Nat.sub_pos_of_lt hlt) (Nat.dvd_sub hpow h)
  omega

theorem OnGrid.spacing_eq (h : OnGrid lower) (hle : lower ≤ whole)
    (hlt : whole < lower + spacing lower) : spacing whole = spacing lower := by
  rcases Nat.eq_zero_or_pos whole with rfl | hpos
  · rw [Nat.le_zero.mp hle]
  · have hlog : whole.log2 < lower.log2 + 1 :=
      (log2_lt_iff (Nat.ne_of_gt hpos)).mpr (hlt.trans_le h.add_spacing_le_pow2)
    have hmono : lower.log2 ≤ whole.log2 := log2_le_log2 hle
    rw [spacing, spacing, Nat.le_antisymm (Nat.le_of_lt_succ hlog) hmono]

/-- Every whole number lies between two neighbours of the grid. -/
theorem exists_onGrid (whole : Nat) :
    ∃ lower, OnGrid lower ∧ lower ≤ whole ∧ whole < lower + spacing lower := by
  have hle : significand whole * spacing whole ≤ whole := Nat.div_mul_le_self whole _
  have hgrid : OnGrid (significand whole * spacing whole) :=
    spacing_dvd_mul _ (Nat.le_of_lt (significand_lt whole))
  refine ⟨significand whole * spacing whole, hgrid, hle, ?_⟩
  have hlt : whole < significand whole * spacing whole + spacing whole := by
    rw [← Nat.succ_mul, Nat.mul_comm]
    exact Nat.lt_mul_div_succ whole (spacing_pos whole)
  have hspacing : spacing whole ∣ spacing (significand whole * spacing whole) := by
    rcases Nat.eq_zero_or_pos whole with rfl | hpos
    · exact Nat.dvd_refl _
    · -- the leading one of the whole number is not rounded away
      refine pow2_dvd_pow2 (Nat.sub_le_sub_right ?_ 52)
      have hpow : pow2 whole.log2 ≤ whole := Nat.log2_self_le (Nat.ne_of_gt hpos)
      have hdvd : spacing whole ∣ pow2 whole.log2 := pow2_dvd_pow2 (Nat.sub_le _ _)
      have hkept : pow2 whole.log2 ≤ significand whole * spacing whole := by
        rw [← Nat.div_mul_cancel hdvd]
        exact Nat.mul_le_mul_right _ (Nat.div_le_div_right hpow)
      rw [← log2_pow2 whole.log2]
      exact log2_le_log2 hkept
  exact hlt.trans_le (Nat.add_le_add_left (Nat.le_of_dvd (spacing_pos _) hspacing) _)

/-- A power of two has an even significand, unless it is one quantum. -/
theorem significand_pow2_succ (exponent : Nat) : significand (pow2 (exponent + 1)) % 2 = 0 := by
  obtain ⟨rest, hrest⟩ : ∃ rest, exponent + 1 = rest + 1 + (exponent + 1 - 52) :=
    ⟨exponent - (exponent + 1 - 52), by omega⟩
  have hpow : pow2 (exponent + 1) = pow2 (rest + 1) * pow2 (exponent + 1 - 52) := by
    rw [← pow2_add, ← hrest]
  rw [significand, spacing, log2_pow2, hpow, Nat.mul_div_cancel _ (pow2_pos _), pow2_add]
  exact Nat.mul_mod_left _ _

/-- **Evenness alternates**, also where the spacing doubles. -/
theorem OnGrid.significand_add_spacing (h : OnGrid lower) (hodd : significand lower % 2 = 1) :
    significand (lower + spacing lower) % 2 = 0 := by
  have hmono : lower.log2 ≤ (lower + spacing lower).log2 := log2_le_log2 (Nat.le_add_right _ _)
  rcases Nat.eq_or_lt_of_le hmono with hsame | hcarry
  · have hspacing : spacing (lower + spacing lower) = spacing lower := by
      rw [spacing, ← hsame, ← spacing]
    have hnext : lower + spacing lower = (significand lower + 1) * spacing lower := by
      rw [Nat.succ_mul, significand_mul_spacing h]
    rw [significand, hspacing, hnext, Nat.mul_div_cancel _ (spacing_pos lower)]
    omega
  · -- the next magnitude is the power of two above
    have hne : lower + spacing lower ≠ 0 := Nat.ne_of_gt (Nat.add_pos_right _ (spacing_pos _))
    have hpow : lower + spacing lower = pow2 (lower.log2 + 1) :=
      Nat.le_antisymm h.add_spacing_le_pow2 ((Nat.le_log2 hne).mp hcarry)
    rw [hpow]
    exact significand_pow2_succ _

theorem spacing_pos_cast (quanta : Nat) : (0 : ℚ) < spacing quanta := by
  exact_mod_cast spacing_pos quanta

theorem OnGrid.le_of_lt_next (hlower : OnGrid lower) (hupper : OnGrid upper)
    (h : (upper : ℚ) < lower + spacing lower) : upper ≤ lower := by
  refine Nat.le_of_not_lt fun hlt => ?_
  have hle : (lower + spacing lower : ℚ) ≤ upper := by
    exact_mod_cast hlower.add_spacing_le hupper hlt
  exact absurd h hle.not_gt

/-! ## 2. Rounding described -/

/-- The magnitude that a ratio is rounded to: of its two neighbours on the grid the nearer one, and
on a tie the one with the even significand. -/
inductive RoundsTo (ratio : ℚ) : Nat → Prop where
  | down {lower : Nat} (hgrid : OnGrid lower) (hle : lower ≤ ratio)
    (hnear : 2 * ratio ≤ 2 * lower + spacing lower)
    (htie : 2 * ratio = 2 * lower + spacing lower → significand lower % 2 = 0) :
    RoundsTo ratio lower
  | up {lower : Nat} (hgrid : OnGrid lower) (hlt : ratio < lower + spacing lower)
    (hnear : 2 * lower + spacing lower ≤ 2 * ratio)
    (htie : 2 * ratio = 2 * lower + spacing lower → significand lower % 2 = 1) :
    RoundsTo ratio (lower + spacing lower)

/-- **Rounding does what is described.** -/
theorem roundsTo_roundQuanta (num : Nat) (hden : 0 < den) :
    RoundsTo (num / den) (roundQuanta num den) := by
  obtain ⟨lower, hgrid, hle, hlt⟩ := exists_onGrid (num / den)
  have hlower := significand_mul_spacing hgrid
  have hquotient : num / (den * spacing lower) = significand lower := by
    rw [← Nat.div_div_eq_div_mul]
    refine Nat.div_eq_of_lt_le ?_ ?_
    · rwa [hlower]
    · rwa [Nat.succ_mul, hlower]
  rw [roundQuanta, hgrid.spacing_eq hle hlt, roundDiv, hquotient]
  -- the ratio is the lower neighbour and the remainder over the denominator
  have hnum := Nat.div_add_mod num (den * spacing lower)
  rw [hquotient, Nat.mul_assoc, Nat.mul_comm (spacing lower), hlower] at hnum
  have hrest := Nat.mod_lt num (Nat.mul_pos hden (spacing_pos lower))
  generalize num % (den * spacing lower) = rest at hnum hrest ⊢
  have hpos : (0 : ℚ) < den := by exact_mod_cast hden
  have hratio : (num / den : ℚ) = lower + rest / den := by
    rw [← hnum]
    push_cast
    field_simp
  have hless : 2 * rest < den * spacing lower ↔ 2 * (rest / den : ℚ) < spacing lower := by
    rw [← mul_div_assoc, div_lt_iff₀ hpos, mul_comm (spacing lower : ℚ)]
    exact_mod_cast Iff.rfl
  have hequal : 2 * rest = den * spacing lower ↔ 2 * (rest / den : ℚ) = spacing lower := by
    rw [← mul_div_assoc, div_eq_iff hpos.ne', mul_comm (spacing lower : ℚ)]
    exact_mod_cast Iff.rfl
  have hnonneg : (0 : ℚ) ≤ rest / den := div_nonneg (Nat.cast_nonneg _) hpos.le
  have hbelow : (rest / den : ℚ) < spacing lower := by
    rw [div_lt_iff₀ hpos, mul_comm]
    exact_mod_cast hrest
  simp only [hless, hequal, hratio]
  split
  case isTrue hnear =>
    rw [hlower]
    refine .down hgrid (by linarith) ?_ fun htie => ?_
    · rcases hnear with hnear | ⟨hnear, -⟩ <;> linarith
    · exact (hnear.resolve_left (by linarith)).2
  case isFalse hfar =>
    rw [Nat.succ_mul, hlower]
    rw [not_or, not_lt, not_and] at hfar
    refine .up hgrid (by linarith) (by linarith) fun htie => ?_
    have hodd := hfar.2 (by linarith)
    omega

/-! ## 3. Order -/

/-- **Larger ratios are not rounded to less.** -/
theorem RoundsTo.mono (h : RoundsTo ratio quanta) (h' : RoundsTo ratio' quanta')
    (hle : ratio ≤ ratio') : quanta ≤ quanta' := by
  cases h with
  | down hgrid hlow =>
    cases h' with
    | down hgrid' _ hnear' =>
      have hpos' := spacing_pos_cast quanta'
      exact hgrid'.le_of_lt_next hgrid (by linarith)
    | up hgrid' hlt' =>
      exact (hgrid'.le_of_lt_next hgrid (by linarith)).trans (Nat.le_add_right _ _)
  | @up lower hgrid _ hnear htie =>
    have hpos := spacing_pos_cast lower
    cases h' with
    | down hgrid' _ hnear' htie' =>
      have hpos' := spacing_pos_cast quanta'
      rcases (hgrid'.le_of_lt_next hgrid (by linarith)).lt_or_eq with hless | rfl
      · exact hgrid.add_spacing_le hgrid' hless
      · -- both ratios would be the tie
        have hodd := htie (by linarith)
        have heven := htie' (by linarith)
        omega
    | up hgrid' hlt' =>
      rcases (hgrid'.le_of_lt_next hgrid (by linarith)).lt_or_eq with hless | rfl
      · exact (hgrid.add_spacing_le hgrid' hless).trans (Nat.le_add_right _ _)
      · exact Nat.le_refl _

theorem roundsTo_self (h : OnGrid quanta) : RoundsTo quanta quanta :=
  .down h (le_refl _) (by linarith [spacing_pos_cast quanta])
    fun htie => by linarith [spacing_pos_cast quanta]

/-! ## 4. Nearest -/

/-- Every magnitude of the grid is one of two neighbours or lies outside of them. -/
theorem OnGrid.le_or_next_le (hlower : OnGrid lower) (hquanta : OnGrid quanta) :
    (quanta : ℚ) ≤ lower ∨ (lower + spacing lower : ℚ) ≤ quanta := by
  rcases Nat.lt_or_ge lower quanta with hlt | hle
  · exact .inr (by exact_mod_cast hlower.add_spacing_le hquanta hlt)
  · exact .inl (by exact_mod_cast hle)

/-- **No magnitude of the grid is nearer** than the one that a ratio is rounded to. -/
theorem RoundsTo.nearest (h : RoundsTo ratio quanta) (hgrid' : OnGrid quanta') :
    |(quanta : ℚ) - ratio| ≤ |(quanta' : ℚ) - ratio| := by
  cases h with
  | down hgrid hlow hnear =>
    rw [abs_of_nonpos (by linarith)]
    rcases hgrid.le_or_next_le hgrid' with hle | hle
    · exact le_trans (by linarith) (neg_le_abs _)
    · exact le_trans (by linarith) (le_abs_self _)
  | up hgrid hlt hnear =>
    push_cast
    rw [abs_of_nonneg (by linarith)]
    rcases hgrid.le_or_next_le hgrid' with hle | hle
    · exact le_trans (by linarith) (neg_le_abs _)
    · exact le_trans (by linarith) (le_abs_self _)

/-- **On a tie** between two magnitudes the one taken is even. -/
theorem RoundsTo.even (h : RoundsTo ratio quanta) (hgrid' : OnGrid quanta')
    (hne : quanta' ≠ quanta) (htie : |(quanta' : ℚ) - ratio| = |(quanta : ℚ) - ratio|) :
    significand quanta % 2 = 0 := by
  cases h with
  | down hgrid hlow hnear heven =>
    rw [abs_of_nonpos (by linarith : (quanta : ℚ) - ratio ≤ 0)] at htie
    have hbelow := neg_le_abs ((quanta' : ℚ) - ratio)
    have habove := le_abs_self ((quanta' : ℚ) - ratio)
    refine heven ?_
    rcases hgrid.le_or_next_le hgrid' with hle | hle
    · have hless : (quanta' : ℚ) < quanta := hle.lt_of_ne (by exact_mod_cast hne)
      linarith
    · linarith
  | @up lower hgrid hlt hnear hodd =>
    push_cast at htie
    rw [abs_of_nonneg (by linarith : 0 ≤ (lower : ℚ) + spacing lower - ratio)] at htie
    have hbelow := neg_le_abs ((quanta' : ℚ) - ratio)
    have habove := le_abs_self ((quanta' : ℚ) - ratio)
    refine hgrid.significand_add_spacing (hodd ?_)
    rcases hgrid.le_or_next_le hgrid' with hle | hle
    · linarith
    · have hmore : (lower + spacing lower : ℚ) < quanta' :=
        hle.lt_of_ne (by exact_mod_cast hne.symm)
      linarith

/-! ## 5. The ends -/

theorem RoundsTo.unique (h : RoundsTo ratio quanta) (h' : RoundsTo ratio quanta') :
    quanta = quanta' :=
  Nat.le_antisymm (h.mono h' (le_refl ratio)) (h'.mono h (le_refl ratio))

/-- **Half a quantum** or less is rounded to nothing. -/
theorem RoundsTo.eq_zero_iff (h : RoundsTo ratio quanta) (hratio : 0 ≤ ratio) :
    quanta = 0 ↔ 2 * ratio ≤ 1 := by
  have hgrid : OnGrid 0 := Nat.dvd_zero _
  have hspacing : (spacing 0 : ℚ) = 1 := by exact_mod_cast (rfl : spacing 0 = 1)
  constructor
  · rintro rfl
    have hnear := h.nearest (hgrid.onGrid_add_spacing)
    push_cast at hnear
    rw [hspacing, zero_sub, zero_add, abs_neg, abs_of_nonneg hratio] at hnear
    rcases abs_cases (1 - ratio) with ⟨habs, -⟩ | ⟨habs, hless⟩ <;> rw [habs] at hnear <;> linarith
  · intro hhalf
    refine h.unique (.down hgrid (by simpa using hratio) ?_ fun _ => rfl)
    rw [hspacing]
    simpa using hhalf

/-- The last magnitude in front of a power of two has all its bits set, and so it is odd. -/
theorem spacing_full (shift : Nat) : spacing ((pow2 53 - 1) * pow2 shift) = pow2 shift := by
  have hlog : ((runLength + (runLength - 1)) * pow2 shift).log2 = 52 + shift :=
    log2_shifted (Nat.sub_lt runLength_pos Nat.one_pos) shift
  have hbits : pow2 53 - 1 = runLength + (runLength - 1) := by decide
  rw [hbits, spacing, hlog, Nat.add_sub_cancel_left]

/-- **A power of two is reached** from half a spacing in front of it on. -/
theorem RoundsTo.pow2_le_iff (h : RoundsTo ratio quanta) (shift : Nat) :
    pow2 (54 + shift) ≤ quanta ↔ (pow2 (54 + shift) - pow2 shift : ℚ) ≤ ratio := by
  obtain ⟨full, hfull⟩ : ∃ full, full = (pow2 53 - 1) * pow2 (shift + 1) := ⟨_, rfl⟩
  have hspacing : spacing full = pow2 (shift + 1) := by rw [hfull, spacing_full]
  have hgrid : OnGrid full := by
    rw [OnGrid, hspacing, hfull]
    exact Nat.dvd_mul_left _ _
  have hodd : significand full % 2 = 1 := by
    rw [significand, hspacing, hfull, Nat.mul_div_cancel _ (pow2_pos _)]
    decide
  have hnext : full + spacing full = pow2 (54 + shift) := by
    rw [hspacing, hfull, ← Nat.succ_mul, Nat.succ_eq_add_one, Nat.sub_add_cancel (pow2_pos 53),
      ← pow2_add]
    congr 1
    omega
  have hhalf : (spacing full : ℚ) = 2 * pow2 shift := by
    rw [hspacing, pow2_add, mul_comm]
    exact_mod_cast rfl
  rw [← hnext]
  push_cast
  constructor
  · intro hle
    by_contra hless
    have hlargest : quanta ≤ full := by
      rcases le_total ratio full with hbelow | habove
      · exact h.mono (roundsTo_self hgrid) hbelow
      · exact (h.unique (.down hgrid habove (by linarith) fun htie => by linarith)).le
    have hpos := spacing_pos full
    omega
  · intro hle
    rcases lt_or_ge ratio (full + spacing full) with hbelow | habove
    · exact (h.unique (.up hgrid hbelow (by linarith) fun _ => hodd)).ge
    · refine (roundsTo_self hgrid.onGrid_add_spacing).mono h ?_
      exact_mod_cast habove

/-- **The limit is reached** from halfway between the largest finite magnitude and the limit on. -/
theorem RoundsTo.limit_le_iff (h : RoundsTo ratio quanta) :
    limit ≤ quanta ↔ (limit - pow2 (970 + places) : ℚ) ≤ ratio := by
  have hlimit : limit = pow2 (54 + (970 + places)) := by
    rw [limit, ← Nat.add_assoc]
  rw [hlimit]
  exact h.pow2_le_iff _

end Reckoner.Binary64
