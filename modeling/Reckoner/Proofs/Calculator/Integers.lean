/-
# Integer arithmetic is exact

A line of digits, sums, differences, products, negations and parentheses means a tree of integers,
grouped as the ranks say (`Calculator.existsUnique_isIntegerTree`).  As long as no integer in it is
beyond `2 ^ 53`, the value of the line is the value of that tree, and what is shown are its digits
(`Calculator.evaluate_integers`).
-/
import Reckoner.Proofs.Binary64.WholeText
import Reckoner.Proofs.Calculator.Retyping
import Reckoner.Proofs.Expression.Integers

namespace Reckoner

theorem Symbol.filterMap_number?_map {α β : Type} (f : α → β) (row : List (Symbol α)) :
    (row.map (Symbol.map f)).filterMap number? = (row.filterMap number?).map f := by
  rw [List.filterMap_map, List.map_filterMap]
  refine List.filterMap_congr fun symbol _ => ?_
  cases symbol <;> rfl

namespace Lexeme

variable {lexeme : Lexeme} {row : List (Placed Lexeme)} {text : String}

/-! ## 1. Lexemes of integers -/

/-- Whether this belongs to integer arithmetic: digits alone, a sum, a difference, a product, a
negation, or a parenthesis. -/
def isWhole : Lexeme → Bool
  | .number text => text.toList.all Char.isDigit
  | .operator .divide | .operator .power | .unknown _ => false
  | .operator _ | .negation | .opening | .closing => true

/-- The whole number that digits write. -/
def wholeNumber (text : String) : Nat := Nat.ofDigitChars 10 text.toList 0

/-- The whole numbers of a row from left to right. -/
def numerals (row : List (Placed Lexeme)) : List Nat :=
  ((row.map Placed.item).filterMap Symbol.number?).map wholeNumber

/-- Digits are read as the whole number that they write. -/
theorem ofText?_digits (hne : text ≠ "") (h : ∀ character ∈ text.toList, character.isDigit) :
    Binary64.ofText? text = some (Binary64.ofWhole (wholeNumber text)) := by
  have hnumeral : ∀ character ∈ text.toList, isNumeral character := fun character hmem => by
    rw [isNumeral, h character hmem, Bool.true_or]
  have hdecimal := Decimal.ofText?_whole h (fun hnil => hne (String.toList_eq_nil_iff.mp hnil))
  rw [Binary64.ofText?_eq_map hnumeral, hdecimal]
  rfl

theorem isUnknown_of_isWhole (h : lexeme.isWhole) : lexeme.isUnknown = false := by
  cases lexeme with
  | unknown => cases h
  | number | operator | negation | opening | closing => rfl

theorem exists_ringOperator_of_isWhole {op : Operator} (h : isWhole (.operator op)) :
    ∃ ring : RingOperator, ring.operator = op := by
  cases op with
  | add => exact ⟨.add, rfl⟩
  | subtract => exact ⟨.subtract, rfl⟩
  | multiply => exact ⟨.multiply, rfl⟩
  | divide | power => cases h

theorem numbers_spellProductsFrom (last? : Option Lexeme) (row : List (Placed Lexeme)) :
    ((spellProductsFrom last? row).map Placed.item).filterMap Symbol.number?
      = (row.map Placed.item).filterMap Symbol.number? := by
  induction row generalizing last? with
  | nil => rfl
  | cons here row ih =>
    have hproduct : ((understoodProduct last? here).map Placed.item).filterMap Symbol.number?
        = [] := by
      rw [understoodProduct]
      split <;> rfl
    rw [spellProductsFrom, List.map_append, List.filterMap_append, hproduct, List.nil_append,
      List.map_cons, List.filterMap_cons, ih, List.map_cons, List.filterMap_cons]

end Lexeme

variable {line : String} {tokens : List (Placed Token)}

namespace Token

/-! ## 2. Their tokens -/

/-- The numbers of the tokens are what the whole numbers of the line are read as. -/
theorem numbers_of_read (h : read (Lexeme.scan line) = .ok tokens)
    (hwhole : ∀ here ∈ Lexeme.scan line, here.item.isWhole) :
    (tokens.map Placed.item).filterMap Symbol.number?
      = (Lexeme.numerals (Lexeme.scan line)).map Binary64.ofWhole := by
  obtain ⟨-, -, -, -, rfl⟩ := read_eq_ok_iff.mp h
  rw [Reading.items_tokensFrom, Lexeme.token, Symbol.filterMap_number?_map,
    Lexeme.numbers_spellProductsFrom, Lexeme.numerals, List.map_map]
  refine List.map_congr_left fun text hmem => ?_
  obtain ⟨lexeme, hlexeme, hnumber⟩ := List.mem_filterMap.mp hmem
  obtain ⟨here, hhere, rfl⟩ := List.mem_map.mp hlexeme
  have hwf := (Lexeme.isScanned_scan line).wellFormed here hhere
  have hdigits := hwhole here hhere
  cases hitem : here.item with
  | number text' =>
    rw [hitem] at hnumber hwf hdigits
    obtain rfl : text' = text := Option.some.inj hnumber
    rw [Lexeme.ofText?_digits hwf.1 (List.all_eq_true.mp hdigits)]
    rfl
  | operator | negation | opening | closing | unknown =>
    rw [hitem] at hnumber
    cases hnumber

/-- The operators of the tokens are those of the line, and products. -/
theorem exists_ringOperator_of_read (h : read (Lexeme.scan line) = .ok tokens)
    (hwhole : ∀ here ∈ Lexeme.scan line, here.item.isWhole) {op : Operator}
    (hmem : .operator op ∈ tokens.map Placed.item) : ∃ ring : RingOperator, ring.operator = op := by
  rcases exists_lexeme_of_read h hmem with ⟨⟨item, offset⟩, hhere, hread⟩ | hproduct
  · cases hread with
    | operator op => exact Lexeme.exists_ringOperator_of_isWhole (hwhole _ hhere)
  · exact ⟨.multiply, (Symbol.operator.inj hproduct).symm⟩

end Token

namespace Calculator

/-! ## 3. Lines -/

/-- The tree of a line's integers: its whole numbers are those of the line in their order, and it
groups them as the ranks say. -/
structure IsIntegerTree (calculator : Calculator) (line : String) (tree : IntegerExpression) :
    Prop where
  grouped : ∃ tokens, Calculator.tokens line = .ok tokens ∧
    Expression.ofTokens? calculator.ranks (tokens.map Placed.item) = some tree.expression
  numerals : tree.numerals = Lexeme.numerals (Lexeme.scan line)

/-- **A line of integers has one tree.** -/
theorem existsUnique_isIntegerTree (calculator : Calculator)
    (hread : Calculator.tokens line = .ok tokens)
    (hwhole : ∀ here ∈ Lexeme.scan line, here.item.isWhole) :
    ∃! tree, calculator.IsIntegerTree line tree := by
  have hplain : Symbol.Plain ((Lexeme.scan line).map Placed.item) := by
    intro lexeme hmem
    obtain ⟨here, hhere, rfl⟩ := List.mem_map.mp hmem
    exact Lexeme.isUnknown_of_isWhole (hwhole here hhere)
  obtain ⟨expression, htree⟩ := Token.ofTokens?_of_read calculator.ranks hplain hread
  have hring : ∀ op, .operator op ∈ expression.tokens →
      ∃ ring : RingOperator, ring.operator = op := by
    intro op hop
    rw [Expression.tokens_of_ofTokens? htree] at hop
    exact Token.exists_ringOperator_of_read hread hwhole (List.mem_filter.mp hop).1
  obtain ⟨tree, rfl, hnumerals⟩ := IntegerExpression.exists_of_tokens hring
    ((Expression.numbers_of_ofTokens? htree).trans (Token.numbers_of_read hread hwhole))
  refine ⟨tree, ⟨⟨tokens, hread, htree⟩, hnumerals⟩, ?_⟩
  rintro other ⟨⟨tokens', hread', htree'⟩, hnumerals'⟩
  obtain rfl : tokens' = tokens := Except.ok.inj (hread'.symm.trans hread)
  exact IntegerExpression.eq_of_expression (Option.some.inj (htree'.symm.trans htree))
    (hnumerals'.trans hnumerals.symm)

/-- **Integer arithmetic is exact.**  Let a line of digits, sums, differences, products, negations
and parentheses be accepted.  It means one tree of integers.  If no number of the line and no result
in the tree is beyond `2 ^ 53`, the line has the value of the tree, and that is shown as its digits,
with a minus sign in front if it is negative. -/
theorem evaluate_integers (calculator : Calculator) (hread : Calculator.tokens line = .ok tokens)
    (hwhole : ∀ here ∈ Lexeme.scan line, here.item.isWhole) :
    (∃! tree, calculator.IsIntegerTree line tree) ∧
    ∀ tree, calculator.IsIntegerTree line tree → (∀ result ∈ tree.results, |result| ≤ 2 ^ 53) →
      ∃ x, calculator.evaluate line = .ok x ∧ x.isFinite ∧ x.toRat = tree.value ∧
        x.write .screen = toString tree.value := by
  refine ⟨calculator.existsUnique_isIntegerTree hread hwhole, ?_⟩
  rintro tree ⟨⟨tokens', hread', htree⟩, -⟩ hresults
  have hbound : ∀ result ∈ tree.results, result.natAbs ≤ Binary64.pow2 53 := by
    intro result hmem
    have hresult := hresults result hmem
    rw [Int.abs_eq_natAbs] at hresult
    exact_mod_cast hresult
  have hexact := IntegerExpression.isExact_value hbound
  exact ⟨_, calculator.evaluate_of_tree hread' htree, hexact.isFinite, hexact.toRat,
    hexact.write_screen (hbound _ tree.value_mem_results)⟩

/-- With sums before products, `3(5−7)+1` is three times -1. -/
theorem evaluate_integers_sum_first :
    ∃ x, (⟨⟨2, 1, 3⟩⟩ : Calculator).evaluate "3(5−7)+1" = .ok x ∧ x.toRat = -3 ∧
      x.write .screen = "-3" := by
  have hread : Calculator.tokens "3(5−7)+1" = .ok [⟨.number (.ofWhole 3), 0⟩,
      ⟨.operator .multiply, 1⟩, ⟨.opening, 1⟩, ⟨.number (.ofWhole 5), 2⟩,
      ⟨.operator .subtract, 3⟩, ⟨.number (.ofWhole 7), 6⟩, ⟨.closing, 7⟩, ⟨.operator .add, 8⟩,
      ⟨.number (.ofWhole 1), 9⟩] := by decide +kernel
  have htree : IsIntegerTree ⟨⟨2, 1, 3⟩⟩ "3(5−7)+1" (.operation .multiply (.numeral 3)
      (.operation .add (.operation .subtract (.numeral 5) (.numeral 7)) (.numeral 1))) :=
    ⟨⟨_, hread, by decide +kernel⟩, by decide +kernel⟩
  obtain ⟨-, hvalue⟩ := evaluate_integers ⟨⟨2, 1, 3⟩⟩ hread (by decide +kernel)
  obtain ⟨x, hx, -, hrat, htext⟩ := hvalue _ htree (by decide)
  exact ⟨x, hx, hrat.trans (by decide +kernel), htext⟩

end Calculator

end Reckoner
