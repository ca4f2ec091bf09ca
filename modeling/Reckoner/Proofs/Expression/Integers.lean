/-
# Trees of integers

Sums, differences, products and negations of whole numbers can be worked out over the integers as
well as over the numbers of the format.  As long as no result on the way is beyond `2 ^ 53`, the two
agree (`IntegerExpression.isExact_value`).

An expression is such a tree when its operators are of these three kinds and its numbers are whole
ones (`IntegerExpression.exists_of_tokens`), and then it is one in a single way
(`IntegerExpression.eq_of_expression`).
-/
import Reckoner.Proofs.Binary64.Integers
import Reckoner.Proofs.Expression.Frontier

namespace Reckoner

open Binary64 (pow2)

/-! ## 1. Trees -/

/-- An operator that does not lead out of the integers. -/
inductive RingOperator where
  | add
  | subtract
  | multiply
  deriving DecidableEq

namespace RingOperator

/-- The operator of the calculator. -/
def operator : RingOperator → Operator
  | .add => .add
  | .subtract => .subtract
  | .multiply => .multiply

/-- What it is over the integers. -/
def apply : RingOperator → ℤ → ℤ → ℤ
  | .add => (· + ·)
  | .subtract => (· - ·)
  | .multiply => (· * ·)

theorem operator_injective : Function.Injective operator := by
  intro one other h
  cases one <;> cases other <;> first | rfl | cases h

/-- **Within the bound** an operator does the same to integers of the format. -/
theorem isExact_apply {x y : Binary64} {v w : ℤ} (op : RingOperator) (hx : x.IsExact v)
    (hy : y.IsExact w) (h : (op.apply v w).natAbs ≤ pow2 53) :
    (op.operator.apply x y).IsExact (op.apply v w) := by
  cases op with
  | add => exact hx.add hy h
  | subtract => exact hx.sub hy h
  | multiply => exact hx.mul hy h

end RingOperator

/-- A tree of such operators over whole numbers. -/
inductive IntegerExpression where
  | numeral (value : Nat)
  | negation (operand : IntegerExpression)
  | operation (op : RingOperator) (left right : IntegerExpression)
  deriving DecidableEq

namespace IntegerExpression

/-- The value over the integers. -/
def value : IntegerExpression → ℤ
  | .numeral value => value
  | .negation operand => -operand.value
  | .operation op left right => op.apply left.value right.value

/-- The value of the tree and of every tree in it. -/
def results : IntegerExpression → List ℤ
  | .numeral value => [value]
  | .negation operand => -operand.value :: operand.results
  | .operation op left right =>
    op.apply left.value right.value :: (left.results ++ right.results)

/-- The whole numbers from left to right. -/
def numerals : IntegerExpression → List Nat
  | .numeral value => [value]
  | .negation operand => operand.numerals
  | .operation _ left right => left.numerals ++ right.numerals

/-- The same tree over the numbers that the whole ones are read as. -/
def expression : IntegerExpression → Expression
  | .numeral value => .number (.ofWhole value)
  | .negation operand => .negation operand.expression
  | .operation op left right => .operation op.operator left.expression right.expression

variable {tree other : IntegerExpression}

/-! ## 2. Values -/

theorem value_mem_results (tree : IntegerExpression) : tree.value ∈ tree.results := by
  cases tree <;> exact List.mem_cons_self

/-- **Within the bound** the tree has the same value over the numbers of the format. -/
theorem isExact_value (h : ∀ result ∈ tree.results, result.natAbs ≤ pow2 53) :
    tree.expression.value.IsExact tree.value := by
  induction tree with
  | numeral value =>
    have hvalue := h value List.mem_cons_self
    rw [Int.natAbs_natCast] at hvalue
    rw [expression, Expression.value]
    exact Binary64.isExact_ofWhole hvalue
  | negation operand ih => exact (ih (List.forall_mem_cons.mp h).2).neg
  | operation op left right ihl ihr =>
    obtain ⟨hvalue, hresults⟩ := List.forall_mem_cons.mp h
    obtain ⟨hleft, hright⟩ := List.forall_mem_append.mp hresults
    exact op.isExact_apply (ihl hleft) (ihr hright) hvalue

/-! ## 3. The tree of an expression -/

theorem numbers_tokens (tree : IntegerExpression) :
    tree.expression.tokens.filterMap Symbol.number? = tree.numerals.map Binary64.ofWhole := by
  induction tree with
  | numeral value => rfl
  | negation operand ih => exact ih
  | operation op left right ihl ihr =>
    rw [expression, Expression.tokens, List.filterMap_append, ihl, numerals, List.map_append, ← ihr]
    rfl

theorem length_numerals (h : tree.expression = other.expression) :
    tree.numerals.length = other.numerals.length := by
  have hnumbers := congrArg List.length (tree.numbers_tokens.symm.trans
    (h ▸ other.numbers_tokens))
  simpa using hnumbers

/-- **An expression is one tree of integers at most**, given its whole numbers. -/
theorem eq_of_expression (h : tree.expression = other.expression)
    (hnumerals : tree.numerals = other.numerals) : tree = other := by
  induction tree generalizing other with
  | numeral value =>
    cases other with
    | numeral value' => exact congrArg numeral (List.singleton_inj.mp hnumerals)
    | negation | operation => cases h
  | negation operand ih =>
    cases other with
    | negation operand' => rw [ih (Expression.negation.inj h) hnumerals]
    | numeral | operation => cases h
  | operation op left right ihl ihr =>
    cases other with
    | operation op' left' right' =>
      obtain ⟨hop, hleft, hright⟩ := Expression.operation.inj h
      obtain ⟨hleft', hright'⟩ := List.append_inj hnumerals (length_numerals hleft)
      rw [RingOperator.operator_injective hop, ihl hleft hleft', ihr hright hright']
    | numeral | negation => cases h

/-- **An expression of ring operators over whole numbers is a tree of integers.** -/
theorem exists_of_tokens {expression : Expression} {numerals : List Nat}
    (hring : ∀ op, .operator op ∈ expression.tokens → ∃ ring : RingOperator, ring.operator = op)
    (h : expression.tokens.filterMap Symbol.number? = numerals.map Binary64.ofWhole) :
    ∃ tree : IntegerExpression, tree.expression = expression ∧ tree.numerals = numerals := by
  induction expression generalizing numerals with
  | number value =>
    obtain ⟨numeral, rfl, hvalue⟩ := List.map_eq_singleton_iff.mp h.symm
    exact ⟨.numeral numeral, congrArg Expression.number hvalue, rfl⟩
  | negation operand ih =>
    obtain ⟨tree, rfl, hnumerals⟩ := ih (fun op hop => hring op (List.mem_cons_of_mem _ hop)) h
    exact ⟨.negation tree, rfl, hnumerals⟩
  | operation op left right ihl ihr =>
    obtain ⟨ring, rfl⟩ := hring op (by simp [Expression.tokens])
    rw [Expression.tokens, List.filterMap_append] at h
    obtain ⟨front, back, rfl, hfront, hback⟩ := List.map_eq_append_iff.mp h.symm
    obtain ⟨tree, rfl, rfl⟩ := ihl (fun op hop => hring op (by simp [Expression.tokens, hop]))
      hfront.symm
    obtain ⟨tree', rfl, rfl⟩ := ihr (fun op hop => hring op (by simp [Expression.tokens, hop]))
      hback.symm
    exact ⟨.operation ring tree tree', rfl, rfl⟩

end IntegerExpression

end Reckoner
