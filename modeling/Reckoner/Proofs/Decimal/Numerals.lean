/-
# Runs of digits and points

A run of digits and points is a number when it has a digit and at most one point.  What it denotes
is told by the place of each digit: in front of the point a digit is worth ten times the one behind
it, and behind the point each is worth a tenth of a digit there (`Decimal.denoted`).  That has
nothing to do with how it is read, where all digits make up one whole number that is then shifted.

Every such run is read as a decimal of the value that it denotes (`Decimal.ofText?_of_isNumeral`),
and no other run is read at all (`Decimal.isNumeral_of_ofText?`).
-/
import Mathlib.Algebra.Order.Field.Rat
import Mathlib.Tactic.FieldSimp
import Mathlib.Tactic.Linarith
import Reckoner.Lexeme.Scan
import Reckoner.Proofs.Decimal.Text

namespace Reckoner.Decimal

open Lexeme (isNumeral)

variable {text digits whole fraction : List Char}

/-! ## 1. What a run denotes -/

/-- A run of digits and points that is a number. -/
structure IsNumeral (text : List Char) : Prop where
  characters : ∀ character ∈ text, isNumeral character
  digit : ∃ character ∈ text, character.isDigit
  points : text.count '.' ≤ 1

/-- The value of a digit. -/
def digitValue (digit : Char) : Nat := digit.toNat - '0'.toNat

/-- The value of digits in front of a point. -/
def wholeValue (digits : List Char) : ℚ :=
  digits.foldl (fun (value : ℚ) digit => 10 * value + digitValue digit) 0

/-- The value of digits behind a point. -/
def fractionValue : List Char → ℚ
  | [] => 0
  | digit :: rest => (digitValue digit + fractionValue rest) / 10

/-- The rational number that a run denotes. -/
def denoted (text : List Char) : ℚ :=
  wholeValue (text.takeWhile (· != '.')) + fractionValue (text.dropWhile (· != '.')).tail

/-- The value of a decimal. -/
def value (decimal : Decimal) : ℚ := decimal.numerator / decimal.denominator

/-! ## 2. Digits -/

theorem ofDigitChars_eq (digits : List Char) (init : Nat) :
    (Nat.ofDigitChars 10 digits init : ℚ)
      = 10 ^ digits.length * init + Nat.ofDigitChars 10 digits 0 := by
  have h : Nat.ofDigitChars 10 digits init = _ := Nat.ofDigitChars_eq_ofDigitChars_zero
  exact_mod_cast h

theorem wholeValue_eq (digits : List Char) : wholeValue digits = Nat.ofDigitChars 10 digits 0 := by
  have hfold : ∀ init : Nat, digits.foldl (fun (value : ℚ) digit => 10 * value + digitValue digit)
      init = Nat.ofDigitChars 10 digits init := by
    induction digits with
    | nil => exact fun _ => rfl
    | cons digit rest ih =>
      intro init
      rw [List.foldl_cons, Nat.ofDigitChars_cons, ← ih, digitValue]
      push_cast
      rfl
  exact_mod_cast hfold 0

theorem fractionValue_eq (digits : List Char) :
    fractionValue digits = Nat.ofDigitChars 10 digits 0 / 10 ^ digits.length := by
  induction digits with
  | nil => simp [fractionValue]
  | cons digit rest ih =>
    rw [fractionValue, ih, Nat.ofDigitChars_cons, Nat.mul_zero, Nat.zero_add, ← digitValue,
      ofDigitChars_eq rest (digitValue digit), List.length_cons, pow_succ]
    field_simp

theorem denoted_whole (h : '.' ∉ whole) : denoted whole = Nat.ofDigitChars 10 whole 0 := by
  have htake : whole.takeWhile (· != '.') = whole :=
    List.takeWhile_eq_self_iff.mpr fun c hc => by simpa using ne_of_mem_of_not_mem hc h
  have hdrop : whole.dropWhile (· != '.') = [] :=
    List.dropWhile_eq_nil_iff.mpr fun c hc => by simpa using ne_of_mem_of_not_mem hc h
  rw [denoted, htake, hdrop, wholeValue_eq, List.tail_nil, fractionValue, add_zero]

theorem denoted_point (h : '.' ∉ whole) (fraction : List Char) :
    denoted (whole ++ '.' :: fraction)
      = Nat.ofDigitChars 10 (whole ++ fraction) 0 / 10 ^ fraction.length := by
  have hwhole : ∀ c ∈ whole, (c != '.') = true := fun c hc => by
    simpa using ne_of_mem_of_not_mem hc h
  rw [denoted, List.takeWhile_append_of_pos hwhole, List.dropWhile_append_of_pos hwhole,
    wholeValue_eq]
  simp only [List.takeWhile_cons, List.dropWhile_cons, bne_self_eq_false, Bool.false_eq_true,
    if_false, List.append_nil, List.tail_cons]
  rw [fractionValue_eq, Nat.ofDigitChars_append,
    ofDigitChars_eq fraction (Nat.ofDigitChars 10 whole 0)]
  field_simp

/-! ## 3. Reading a run -/

theorem isDigit_of_notMem (h : ∀ character ∈ digits, isNumeral character) (hpoint : '.' ∉ digits) :
    ∀ character ∈ digits, character.isDigit := by
  intro character hmem
  have hnumeral := h character hmem
  have hne : character ≠ '.' := ne_of_mem_of_not_mem hmem hpoint
  simpa [isNumeral, hne] using hnumeral

/-- **A number is read as a decimal of the value that it denotes.** -/
theorem ofText?_of_isNumeral (h : IsNumeral text) :
    ∃ decimal, ofText? text = some decimal ∧ decimal.value = denoted text := by
  by_cases hpoint : '.' ∈ text
  · obtain ⟨whole, fraction, rfl, hwhole⟩ := List.eq_append_cons_of_mem hpoint
    have hfraction : '.' ∉ fraction := by
      have hcount := h.points
      rw [List.count_append, List.count_cons_self] at hcount
      exact List.count_eq_zero.mp (by omega)
    have hdigits := isDigit_of_notMem
      (fun c hc => h.characters c (List.mem_append_left _ hc)) hwhole
    have hdigits' := isDigit_of_notMem
      (fun c hc => h.characters c (List.mem_append_right _ (List.mem_cons_of_mem _ hc))) hfraction
    have hne : whole ≠ [] ∨ fraction ≠ [] := by
      obtain ⟨digit, hmem, hdigit⟩ := h.digit
      rcases List.mem_append.mp hmem with hmem | hmem
      · exact .inl (List.ne_nil_of_mem hmem)
      · rcases List.mem_cons.mp hmem with rfl | hmem
        · cases hdigit
        · exact .inr (List.ne_nil_of_mem hmem)
    refine ⟨_, ofText?_point hdigits hdigits' hne, ?_⟩
    rw [denoted_point hwhole, value, numerator_mk_neg, denominator_mk_neg, Nat.pow_eq,
      Nat.cast_pow]
    rfl
  · have hdigits := isDigit_of_notMem h.characters hpoint
    obtain ⟨digit, hmem, -⟩ := h.digit
    refine ⟨_, ofText?_whole hdigits (List.ne_nil_of_mem hmem), ?_⟩
    rw [denoted_whole hpoint]
    simp [value, numerator, denominator]

/-- Behind the digits of a run nothing is left that is read. -/
theorem eq_nil_of_readSuffix? {suffix : List Char} {exponent : Int}
    (hcharacters : ∀ character ∈ suffix, isNumeral character)
    (h : readSuffix? suffix = some exponent) : suffix = [] := by
  cases suffix with
  | nil => rfl
  | cons letter rest =>
    have hletter := hcharacters letter List.mem_cons_self
    rw [readSuffix?] at h
    split at h
    next heither => rcases heither with rfl | rfl <;> cases hletter
    next => cases h

/-- **No other run is read**: what is read of digits and points is a number. -/
theorem isNumeral_of_ofText? {decimal : Decimal}
    (hcharacters : ∀ character ∈ text, isNumeral character) (h : ofText? text = some decimal) :
    IsNumeral text := by
  by_cases hpoint : '.' ∈ text
  · obtain ⟨whole, rest, rfl, hwhole⟩ := List.eq_append_cons_of_mem hpoint
    have hdigits := isDigit_of_notMem
      (fun c hc => hcharacters c (List.mem_append_left _ hc)) hwhole
    simp only [ofText?, takeWhile_append_point hdigits, dropWhile_append_point hdigits,
      takeFraction] at h
    split at h
    next => cases h
    next hsome =>
      obtain ⟨exponent, hsuffix, -⟩ := Option.map_eq_some_iff.mp h
      have hrest : rest.dropWhile Char.isDigit = [] := by
        refine eq_nil_of_readSuffix? (fun c hc => hcharacters c ?_) hsuffix
        exact List.mem_append_right _
          (List.mem_cons_of_mem _ ((List.dropWhile_suffix _).subset hc))
      have hdigits' := List.dropWhile_eq_nil_iff.mp hrest
      refine ⟨hcharacters, ?_, ?_⟩
      · rw [List.takeWhile_eq_self_iff.mpr hdigits'] at hsome
        cases whole with
        | cons digit others =>
          exact ⟨digit, List.mem_cons_self, hdigits digit List.mem_cons_self⟩
        | nil =>
          obtain ⟨digit, hmem⟩ := List.exists_mem_of_ne_nil rest fun hnil => hsome ⟨rfl, hnil⟩
          exact ⟨digit, List.mem_cons_of_mem _ hmem, hdigits' digit hmem⟩
      · rw [List.count_append, List.count_cons_self, count_point_eq_zero hdigits,
          count_point_eq_zero hdigits']
  · have hdigits := isDigit_of_notMem hcharacters hpoint
    refine ⟨hcharacters, ?_, by simp [List.count_eq_zero.mpr hpoint]⟩
    cases text with
    | nil => cases h
    | cons digit rest => exact ⟨digit, List.mem_cons_self, hdigits digit List.mem_cons_self⟩

end Reckoner.Decimal
