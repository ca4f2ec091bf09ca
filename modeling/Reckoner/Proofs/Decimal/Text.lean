/-
# Decimal texts are read as what was written

The text of a decimal is read as a decimal of the same value (`Decimal.sameValue_of_text`).  It is
hardly ever read as the same decimal: zeros at the end of the fraction are not written, and those
that a positive exponent stands for are.

* **The fraction** is the remainder, filled up with zeros in front and stripped of those at the
  end.  Both leave its value what it was (`Decimal.fractionText_value`).
* **The characters** are digits and at most one point, the first is a digit, and there is no
  exponent (`Decimal.isPlain_text`).
-/
import Mathlib.Data.List.TakeWhile
import Mathlib.Tactic.Ring
import Mathlib.Tactic.Tauto
import Reckoner.Decimal

namespace Reckoner.Decimal

variable {whole fraction : List Char}

/-- Two decimals have the same value. -/
def SameValue (one other : Decimal) : Prop :=
  one.numerator * other.denominator = other.numerator * one.denominator

/-- A decimal text without an exponent, and with a digit in front of its point. -/
structure IsPlain (text : List Char) : Prop where
  characters : ∀ character ∈ text, character.isDigit ∨ character = '.'
  points : text.count '.' ≤ 1
  first : ∃ first ∈ text.head?, first.isDigit

/-! ## 1. Digits -/

theorem isDigit_of_mem_wholeText (decimal : Decimal) :
    ∀ character ∈ decimal.wholeText, character.isDigit :=
  fun _ h => Nat.isDigit_of_mem_toDigits (by decide) (by decide) h

theorem wholeText_ne_nil (decimal : Decimal) : decimal.wholeText ≠ [] := Nat.toDigits_ne_nil

theorem wholeText_value (decimal : Decimal) :
    Nat.ofDigitChars 10 decimal.wholeText 0 = decimal.numerator / decimal.denominator :=
  Nat.ofDigitChars_ten_toDigits

/-- The digits of the remainder, filled up with zeros in front. -/
def paddedText (decimal : Decimal) : List Char :=
  (Nat.toDigits 10 (decimal.numerator % decimal.denominator)).leftpad
    (-decimal.exponent).toNat '0'

/-- The fraction is written without the zeros at its end. -/
theorem exists_fractionText_append (decimal : Decimal) :
    ∃ zeros, decimal.fractionText ++ List.replicate zeros '0' = decimal.paddedText := by
  have hzeros : ∀ character ∈ (decimal.paddedText.reverse.takeWhile (· == '0')).reverse,
      character = '0' := by
    intro character h
    simpa using List.mem_takeWhile_imp (List.mem_reverse.mp h)
  refine ⟨(decimal.paddedText.reverse.takeWhile (· == '0')).reverse.length, ?_⟩
  rw [← List.eq_replicate_of_mem hzeros]
  show (decimal.paddedText.reverse.dropWhile (· == '0')).reverse ++ _ = _
  rw [← List.reverse_append, List.takeWhile_append_dropWhile, List.reverse_reverse]

theorem isDigit_of_mem_fractionText (decimal : Decimal) :
    ∀ character ∈ decimal.fractionText, character.isDigit := by
  intro character h
  obtain ⟨zeros, hpadded⟩ := exists_fractionText_append decimal
  have hmem : character ∈ decimal.paddedText := by
    rw [← hpadded]
    exact List.mem_append_left _ h
  rw [paddedText, List.leftpad, List.mem_append] at hmem
  rcases hmem with hzero | hdigit
  · rw [(List.mem_replicate.mp hzero).2]
    rfl
  · exact Nat.isDigit_of_mem_toDigits (by decide) (by decide) hdigit

theorem paddedText_value (decimal : Decimal) :
    Nat.ofDigitChars 10 decimal.paddedText 0 = decimal.numerator % decimal.denominator := by
  rw [paddedText, List.leftpad, Nat.ofDigitChars_append, Nat.ofDigitChars_replicate_zero,
    Nat.mul_zero, Nat.ofDigitChars_ten_toDigits]

/-- Filled up, the remainder has a digit for every decimal place. -/
theorem length_paddedText {decimal : Decimal} (h : 0 < (-decimal.exponent).toNat) :
    decimal.paddedText.length = (-decimal.exponent).toNat := by
  have hlt : decimal.numerator % decimal.denominator < 10 ^ (-decimal.exponent).toNat :=
    Nat.mod_lt _ decimal.denominator_pos
  have hlength := (Nat.length_toDigits_le_iff (by decide) h).mpr hlt
  rw [paddedText, List.leftpad, List.length_append, List.length_replicate]
  omega

/-- **The fraction has the value of the remainder.** -/
theorem fractionText_value (decimal : Decimal) :
    Nat.ofDigitChars 10 decimal.fractionText 0 * decimal.denominator
      = decimal.numerator % decimal.denominator * Nat.pow 10 decimal.fractionText.length := by
  obtain ⟨zeros, hpadded⟩ := exists_fractionText_append decimal
  have hvalue : 10 ^ zeros * Nat.ofDigitChars 10 decimal.fractionText 0
      = decimal.numerator % decimal.denominator := by
    rw [← paddedText_value, ← hpadded, Nat.ofDigitChars_append, Nat.ofDigitChars_replicate_zero]
  rcases Nat.eq_zero_or_pos (-decimal.exponent).toNat with hplaces | hplaces
  · -- without places behind the point nothing remains
    have hone : decimal.denominator = 1 := by rw [denominator, hplaces]
    have hrest : decimal.numerator % decimal.denominator = 0 := by rw [hone, Nat.mod_one]
    have hzero : Nat.ofDigitChars 10 decimal.fractionText 0 = 0 := by
      rw [hrest] at hvalue
      simpa using hvalue
    rw [hzero, hrest, Nat.zero_mul, Nat.zero_mul]
  · have hlength := length_paddedText hplaces
    rw [← hpadded, List.length_append, List.length_replicate] at hlength
    rw [← hvalue, denominator, ← hlength]
    simp only [Nat.pow_eq, Nat.pow_add]
    ring

/-! ## 2. Reading digits -/

theorem ofText?_whole (hwhole : ∀ character ∈ whole, character.isDigit) (hne : whole ≠ []) :
    ofText? whole = some ⟨Nat.ofDigitChars 10 whole 0, 0⟩ := by
  have htake : whole.takeWhile Char.isDigit = whole := List.takeWhile_eq_self_iff.mpr hwhole
  have hdrop : whole.dropWhile Char.isDigit = [] := List.dropWhile_eq_nil_iff.mpr hwhole
  simp [ofText?, htake, hdrop, takeFraction, readSuffix?, hne]

theorem takeWhile_append_point (hwhole : ∀ character ∈ whole, character.isDigit)
    (rest : List Char) : (whole ++ '.' :: rest).takeWhile Char.isDigit = whole := by
  have hpoint : Char.isDigit '.' = false := rfl
  rw [List.takeWhile_append_of_pos hwhole, List.takeWhile_cons, hpoint]
  simp

theorem dropWhile_append_point (hwhole : ∀ character ∈ whole, character.isDigit)
    (rest : List Char) : (whole ++ '.' :: rest).dropWhile Char.isDigit = '.' :: rest := by
  have hpoint : Char.isDigit '.' = false := rfl
  rw [List.dropWhile_append_of_pos hwhole, List.dropWhile_cons, hpoint]
  simp

/-- Digits with a point among them are read as the number that they write, shifted by the digits
behind the point. -/
theorem ofText?_point (hwhole : ∀ character ∈ whole, character.isDigit)
    (hfraction : ∀ character ∈ fraction, character.isDigit) (hne : whole ≠ [] ∨ fraction ≠ []) :
    ofText? (whole ++ '.' :: fraction)
      = some ⟨Nat.ofDigitChars 10 (whole ++ fraction) 0, -fraction.length⟩ := by
  have htake := takeWhile_append_point hwhole fraction
  have hdrop := dropWhile_append_point hwhole fraction
  have htake' : fraction.takeWhile Char.isDigit = fraction :=
    List.takeWhile_eq_self_iff.mpr hfraction
  have hdrop' : fraction.dropWhile Char.isDigit = [] := List.dropWhile_eq_nil_iff.mpr hfraction
  have hsome : ¬(whole = [] ∧ fraction = []) := by tauto
  simp only [ofText?, htake, hdrop, takeFraction, htake', hdrop', readSuffix?, if_neg hsome]
  simp

/-! ## 3. Reading what was written -/

/-- A decimal is written as its whole part and, if there is a fraction, a point and the fraction. -/
theorem text_cases (decimal : Decimal) :
    (decimal.fractionText = [] ∧ decimal.text = decimal.wholeText) ∨
      (decimal.fractionText ≠ [] ∧
        decimal.text = decimal.wholeText ++ '.' :: decimal.fractionText) := by
  rw [text]
  cases h : decimal.fractionText with
  | nil => exact .inl ⟨rfl, rfl⟩
  | cons character rest => exact .inr ⟨by simp, rfl⟩

/-- A whole number of powers of ten is written without a point. -/
theorem text_natCast (digits zeros : Nat) :
    (⟨digits, zeros⟩ : Decimal).text = Nat.toDigits 10 (digits * 10 ^ zeros) := by
  have hnumerator : (⟨digits, zeros⟩ : Decimal).numerator = digits * 10 ^ zeros := by
    simp [numerator]
  have hdenominator : (⟨digits, zeros⟩ : Decimal).denominator = 1 := by simp [denominator]
  rcases text_cases ⟨digits, zeros⟩ with ⟨-, htext⟩ | ⟨hfraction, -⟩
  · rw [htext, wholeText, hnumerator, hdenominator, Nat.div_one]
  · refine absurd ?_ hfraction
    rw [fractionText, hdenominator, Nat.mod_one]
    simp

theorem ofText?_text (decimal : Decimal) : ofText? decimal.text
    = some ⟨Nat.ofDigitChars 10 (decimal.wholeText ++ decimal.fractionText) 0,
        -decimal.fractionText.length⟩ := by
  rcases text_cases decimal with ⟨hfraction, htext⟩ | ⟨-, htext⟩
  · rw [htext, ofText?_whole decimal.isDigit_of_mem_wholeText decimal.wholeText_ne_nil, hfraction]
    simp
  · rw [htext, ofText?_point decimal.isDigit_of_mem_wholeText
      decimal.isDigit_of_mem_fractionText (.inl decimal.wholeText_ne_nil)]

@[simp] theorem numerator_mk_neg (digits places : Nat) :
    (⟨digits, -places⟩ : Decimal).numerator = digits := by
  simp [numerator]

@[simp] theorem denominator_mk_neg (digits places : Nat) :
    (⟨digits, -places⟩ : Decimal).denominator = Nat.pow 10 places := by
  simp [denominator]

/-- **A written decimal is read as one of the same value.** -/
theorem sameValue_of_text (decimal : Decimal) :
    ∃ back, ofText? decimal.text = some back ∧ decimal.SameValue back := by
  refine ⟨_, ofText?_text decimal, ?_⟩
  have hfraction := fractionText_value decimal
  have hwhole := Nat.div_add_mod decimal.numerator decimal.denominator
  rw [SameValue, numerator_mk_neg, denominator_mk_neg, Nat.ofDigitChars_append, wholeText_value,
    Nat.ofDigitChars_eq_ofDigitChars_zero, Nat.add_mul, hfraction]
  calc decimal.numerator * Nat.pow 10 decimal.fractionText.length
      = (decimal.denominator * (decimal.numerator / decimal.denominator)
          + decimal.numerator % decimal.denominator) * Nat.pow 10 decimal.fractionText.length := by
        rw [hwhole]
    _ = _ := by
        simp only [Nat.pow_eq]
        ring

theorem count_point_eq_zero {digits : List Char} (h : ∀ character ∈ digits, character.isDigit) :
    digits.count '.' = 0 :=
  List.count_eq_zero.mpr fun hmem => absurd (h _ hmem) (by decide)

/-- **A decimal is written plainly.** -/
theorem isPlain_text (decimal : Decimal) : IsPlain decimal.text := by
  have hwhole := decimal.isDigit_of_mem_wholeText
  have hfraction := decimal.isDigit_of_mem_fractionText
  obtain ⟨first, rest, hfirst⟩ := List.exists_cons_of_ne_nil decimal.wholeText_ne_nil
  have hdigit : first.isDigit := hwhole first (by simp [hfirst])
  rcases text_cases decimal with ⟨-, htext⟩ | ⟨-, htext⟩
  · rw [htext]
    refine ⟨fun _ h => .inl (hwhole _ h), ?_, first, by simp [hfirst], hdigit⟩
    rw [count_point_eq_zero hwhole]
    decide
  · rw [htext]
    refine ⟨?_, ?_, first, by simp [hfirst], hdigit⟩
    · intro character h
      rcases List.mem_append.mp h with hmem | hmem
      · exact .inl (hwhole _ hmem)
      · rcases List.mem_cons.mp hmem with hpoint | hmem
        · exact .inr hpoint
        · exact .inl (hfraction _ hmem)
    · rw [List.count_append, List.count_cons, count_point_eq_zero hwhole,
        count_point_eq_zero hfraction]
      decide

/-- A text that begins with no sign is all magnitude. -/
theorem takeSign_eq {text : List Char} (hminus : text.head? ≠ some '-')
    (hplus : text.head? ≠ some '+') : takeSign text = (false, text) := by
  unfold takeSign
  split
  · exact absurd rfl hminus
  · exact absurd rfl hplus
  · rfl

theorem IsPlain.takeSign_eq {text : List Char} (h : IsPlain text) :
    takeSign text = (false, text) := by
  obtain ⟨first, hfirst, hdigit⟩ := h.first
  have hne : ∀ sign, text.head? = some sign → sign.isDigit := by
    intro sign hsign
    rwa [← Option.some.inj (hfirst.symm.trans hsign)]
  exact Decimal.takeSign_eq (fun h => Bool.false_ne_true (hne '-' h))
    (fun h => Bool.false_ne_true (hne '+' h))

end Reckoner.Decimal
