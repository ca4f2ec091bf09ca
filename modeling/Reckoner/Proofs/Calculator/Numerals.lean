/-
# The numbers of a line

A run of digits and points is read as the number nearest to what it denotes, however long it is
(`Binary64.isRounding_of_ofText?`).  Reading knows signs, exponents and words as well, but none of
their characters is part of such a run, and so all that is left is a decimal without a sign
(`Binary64.ofText?_eq_map`).

Numbers come to a line in such runs alone.  So no number among the tokens of a line has a sign,
none is `nan`, and what two numbers denote is all that matters for how they compare.
-/
import Reckoner.Calculator
import Reckoner.Proofs.Binary64.Nearest
import Reckoner.Proofs.Decimal.Numerals
import Reckoner.Proofs.Lexeme.Rows
import Reckoner.Proofs.Reading.Products

namespace Reckoner

/-! ## 1. Reading digits and points -/

theorem Decimal.takeSign_of_isNumeral {text : List Char}
    (h : ∀ character ∈ text, Lexeme.isNumeral character) : takeSign text = (false, text) := by
  refine takeSign_eq ?_ ?_
  · intro hminus
    cases h '-' (List.mem_of_head? hminus)
  · intro hplus
    cases h '+' (List.mem_of_head? hplus)

/-- The ratio of quanta that a decimal is read as. -/
theorem Decimal.value_mul_quantaPerUnit (decimal : Decimal) :
    ((decimal.numerator * Binary64.quantaPerUnit : Nat) / decimal.denominator : ℚ)
      = decimal.value * Binary64.quantaPerUnit := by
  rw [Nat.cast_mul, value, div_mul_eq_mul_div]

theorem Decimal.value_nonneg (decimal : Decimal) : 0 ≤ decimal.value :=
  div_nonneg (Nat.cast_nonneg _) (Nat.cast_nonneg _)

namespace Binary64

variable {text text' : String} {x x' : Binary64}

theorem toLower_ne_of_isNumeral {character : Char} (h : Lexeme.isNumeral character) :
    character.toLower ≠ 'n' := by
  intro hlower
  delta Char.toLower at hlower
  split at hlower
  next hupper =>
    have hcapital : 65 ≤ character.val.toNat := UInt32.le_iff_toNat_le.mp hupper.1
    rw [Lexeme.isNumeral, Char.isDigit, Bool.or_eq_true, Bool.and_eq_true, decide_eq_true_eq,
      decide_eq_true_eq, beq_iff_eq] at h
    rcases h with hdigit | rfl
    · have hnine : character.val.toNat ≤ 57 := UInt32.le_iff_toNat_le.mp hdigit.2
      omega
    · exact absurd hcapital (by decide)
  next =>
    subst hlower
    cases h

/-- Every word that stands for a number has the letter `n`. -/
theorem ofWord?_of_isNumeral {characters : List Char}
    (h : ∀ character ∈ characters, Lexeme.isNumeral character) (negative : Bool) :
    ofWord? negative characters = none := by
  have hletter : 'n' ∉ characters.map Char.toLower := by
    intro hmem
    obtain ⟨character, hcharacter, hlower⟩ := List.mem_map.mp hmem
    exact toLower_ne_of_isNumeral (h character hcharacter) hlower
  have hword : ∀ word : List Char, 'n' ∈ word → characters.map Char.toLower ≠ word := by
    rintro word hmem rfl
    exact hletter hmem
  rw [ofWord?, if_neg, if_neg]
  · exact hword _ (by decide)
  · exact not_or.mpr ⟨hword _ (by decide), hword _ (by decide)⟩

/-- **Digits and points** are read as a decimal without a sign, or not at all. -/
theorem ofText?_eq_map (h : ∀ character ∈ text.toList, Lexeme.isNumeral character) :
    ofText? text = (Decimal.ofText? text.toList).map (ofDecimal false) := by
  rw [ofText?, Decimal.takeSign_of_isNumeral h]
  cases hdecimal : Decimal.ofText? text.toList with
  | some decimal => simp only [hdecimal, Option.map_some]
  | none => simp only [hdecimal, ofWord?_of_isNumeral h, Option.map_none]

/-- **What is read** of digits and points is a number: with a digit, and without a second point. -/
theorem exists_ofText?_iff (h : ∀ character ∈ text.toList, Lexeme.isNumeral character) :
    (∃ x, ofText? text = some x) ↔ Decimal.IsNumeral text.toList := by
  rw [ofText?_eq_map h]
  constructor
  · rintro ⟨x, hx⟩
    obtain ⟨decimal, hdecimal, -⟩ := Option.map_eq_some_iff.mp hx
    exact Decimal.isNumeral_of_ofText? h hdecimal
  · intro hnumeral
    obtain ⟨decimal, hdecimal, -⟩ := Decimal.ofText?_of_isNumeral hnumeral
    rw [hdecimal]
    exact ⟨_, rfl⟩

/-- A run that is a number is read as a decimal of the value that it denotes. -/
theorem exists_decimal_of_ofText? (h : ∀ character ∈ text.toList, Lexeme.isNumeral character)
    (hx : ofText? text = some x) :
    ∃ decimal, x = ofDecimal false decimal ∧ decimal.value = Decimal.denoted text.toList := by
  obtain ⟨decimal, hdecimal, hvalue⟩ :=
    Decimal.ofText?_of_isNumeral ((exists_ofText?_iff h).mp ⟨x, hx⟩)
  rw [ofText?_eq_map h, hdecimal] at hx
  exact ⟨decimal, (Option.some.inj hx).symm, hvalue⟩

/-- **Digits and points are read as what they denote, rounded.** -/
theorem isRounding_of_ofText? (h : ∀ character ∈ text.toList, Lexeme.isNumeral character)
    (hx : ofText? text = some x) : IsRounding (Decimal.denoted text.toList) x := by
  obtain ⟨decimal, hdecimal, hvalue⟩ := exists_decimal_of_ofText? h hx
  rw [hdecimal, ← hvalue]
  exact isRounding_ofRatio decimal.denominator_pos decimal.value_mul_quantaPerUnit
    decimal.value_nonneg

theorem eq_of_denoted_eq (h : ∀ character ∈ text.toList, Lexeme.isNumeral character)
    (h' : ∀ character ∈ text'.toList, Lexeme.isNumeral character) (hx : ofText? text = some x)
    (hx' : ofText? text' = some x')
    (hsame : Decimal.denoted text.toList = Decimal.denoted text'.toList) : x = x' := by
  obtain ⟨decimal, hdecimal, hvalue⟩ := exists_decimal_of_ofText? h hx
  obtain ⟨decimal', hdecimal', hvalue'⟩ := exists_decimal_of_ofText? h' hx'
  rw [hdecimal, hdecimal']
  have hvalues : decimal'.value = decimal.value := by rw [hvalue, hvalue', hsame]
  refine ofRatio_congr decimal.denominator_pos decimal.value_mul_quantaPerUnit
    decimal'.denominator_pos ?_
  rw [← hvalues, decimal'.value_mul_quantaPerUnit]

theorem le_of_denoted_le (h : ∀ character ∈ text.toList, Lexeme.isNumeral character)
    (h' : ∀ character ∈ text'.toList, Lexeme.isNumeral character) (hx : ofText? text = some x)
    (hx' : ofText? text' = some x')
    (hle : Decimal.denoted text.toList ≤ Decimal.denoted text'.toList) : x.Le x' := by
  obtain ⟨decimal, hdecimal, hvalue⟩ := exists_decimal_of_ofText? h hx
  obtain ⟨decimal', hdecimal', hvalue'⟩ := exists_decimal_of_ofText? h' hx'
  rw [← hvalue, ← hvalue'] at hle
  rw [hdecimal, hdecimal']
  exact le_ofRatio decimal.denominator_pos decimal.value_mul_quantaPerUnit
    decimal'.denominator_pos decimal'.value_mul_quantaPerUnit hle

end Binary64

/-! ## 2. Numbers among tokens -/

/-- **A number of a line** was read of a run of digits and points. -/
theorem Token.exists_text_of_read {line : String} {tokens : List (Placed Token)}
    {value : Binary64} (h : read (Lexeme.scan line) = .ok tokens)
    (hmem : .number value ∈ tokens.map Placed.item) :
    ∃ text, (∀ character ∈ text.toList, Lexeme.isNumeral character) ∧
      Binary64.ofText? text = some value := by
  rcases exists_lexeme_of_read h hmem with ⟨⟨item, offset⟩, hhere, hread⟩ | hproduct
  · cases hread with
    | @number text value hvalue =>
      exact ⟨text, ((Lexeme.isScanned_scan line).wellFormed _ hhere).2, hvalue⟩
  · cases hproduct

/-! ## 3. Digit runs are read exactly -/

/-- **Digit runs are read exactly.**  A run of digits and points is read if and only if it has a
digit and at most one point, and otherwise the whole run is the error.  What is read is the number
nearest to what the run denotes.  So the numbers of a line have no sign and none is `nan`, runs that
denote the same are read alike, and runs that denote more are not read as less. -/
theorem Reading.take_number_nearest :
    (∀ text : String, text ≠ "" → (∀ character ∈ text.toList, Lexeme.isNumeral character) →
      ((∃ x, Binary64.ofText? text = some x) ↔
        (∃ character ∈ text.toList, character.isDigit) ∧ text.toList.count '.' ≤ 1) ∧
      (∀ (reading : Reading) (offset : Nat), Binary64.ofText? text = none →
        reading.take ⟨.number text, offset⟩ = .error (.invalidNumber text offset)) ∧
      ∀ x, Binary64.ofText? text = some x →
        Binary64.IsRounding (Decimal.denoted text.toList) x ∧
        ∀ (reading : Reading) (offset : Nat), reading.take ⟨.number text, offset⟩
          = .ok (reading.emit ⟨.number text, offset⟩ (.number x))) ∧
    (∀ line tokens, Calculator.tokens line = .ok tokens →
      ∀ value, .number value ∈ tokens.map Placed.item →
        value = .infinite false ∨ ∃ quanta h, value = .finite false quanta h) ∧
    ∀ text text' x x', (∀ character ∈ text.toList, Lexeme.isNumeral character) →
      (∀ character ∈ text'.toList, Lexeme.isNumeral character) →
      Binary64.ofText? text = some x → Binary64.ofText? text' = some x' →
      (Decimal.denoted text.toList = Decimal.denoted text'.toList → x = x') ∧
      (Decimal.denoted text.toList ≤ Decimal.denoted text'.toList → x.Le x') := by
  refine ⟨fun text _ hnumerals => ⟨?_, ?_, ?_⟩, ?_, ?_⟩
  · rw [Binary64.exists_ofText?_iff hnumerals]
    exact ⟨fun h => ⟨h.digit, h.points⟩, fun ⟨hdigit, hpoints⟩ => ⟨hnumerals, hdigit, hpoints⟩⟩
  · intro reading offset hnone
    simp only [Reading.take, hnone]
  · intro x hx
    refine ⟨Binary64.isRounding_of_ofText? hnumerals hx, fun reading offset => ?_⟩
    simp only [Reading.take, hx]
  · intro line tokens h value hmem
    obtain ⟨text, hnumerals, hvalue⟩ := Token.exists_text_of_read h hmem
    have hround := Binary64.isRounding_of_ofText? hnumerals hvalue
    rcases lt_or_ge (Decimal.denoted text.toList) (Binary64.pow2 1024 - Binary64.pow2 970)
      with hsmall | hlarge
    · exact .inr (hround.positive (hround.nearest hsmall).finite)
    · exact .inl (hround.infinite_iff.mpr hlarge)
  · intro text text' x x' h h' hx hx'
    exact ⟨Binary64.eq_of_denoted_eq h h' hx hx', Binary64.le_of_denoted_le h h' hx hx'⟩

/-- `03.0` and `3.` are read as the same number, the one nearest to three, and `1.2.3` is none. -/
theorem Reading.take_number_nearest_three :
    (∃ x, Binary64.ofText? "03.0" = some x ∧ Binary64.ofText? "3." = some x ∧
      Binary64.Nearest 3 x) ∧
    start.take ⟨.number "1.2.3", 0⟩ = .error (.invalidNumber "1.2.3" 0) := by
  obtain ⟨hread, -, hsame⟩ := take_number_nearest
  have hcharacters : ∀ character ∈ "03.0".toList, Lexeme.isNumeral character :=
    List.all_eq_true.mp rfl
  have hcharacters' : ∀ character ∈ "3.".toList, Lexeme.isNumeral character :=
    List.all_eq_true.mp rfl
  have hpoints : ∀ character ∈ "1.2.3".toList, Lexeme.isNumeral character :=
    List.all_eq_true.mp rfl
  have hthree : Decimal.denoted "03.0".toList = 3 := by decide +kernel
  have hthree' : Decimal.denoted "3.".toList = 3 := by decide +kernel
  obtain ⟨x, hx⟩ := (hread "03.0" (by decide) hcharacters).1.mpr
    ⟨List.any_eq_true.mp rfl, by decide⟩
  obtain ⟨x', hx'⟩ := (hread "3." (by decide) hcharacters').1.mpr
    ⟨List.any_eq_true.mp rfl, by decide⟩
  have heq := (hsame _ _ x x' hcharacters hcharacters' hx hx').1 (hthree.trans hthree'.symm)
  have hround := ((hread "03.0" (by decide) hcharacters).2.2 x hx).1
  rw [hthree] at hround
  obtain ⟨hiff, herror, -⟩ := hread "1.2.3" (by decide) hpoints
  refine ⟨⟨x, hx, heq ▸ hx', hround.nearest (by decide +kernel)⟩, herror start 0 ?_⟩
  refine Option.eq_none_iff_forall_ne_some.mpr fun y hy => ?_
  exact absurd (hiff.mp ⟨y, hy⟩).2 (by decide)

end Reckoner
