/-
# Only the order of the ranks matters

A table gives each of three tiers a rank, and the machine asks of ranks one thing alone: whether
what is pending is of at least the rank of the operator that comes.  So two tables that put the
tiers in the same order, ties included, cannot be told apart (`Token.value_eq_iff_orderedAlike`).

* **In lockstep.**  Under both tables an operator applies the same (`Pending.precedes_congr`).  So
  after every token the two machines have the same stacks, or have halted with the same error
  (`Machine.step_congr`, `Machine.run_congr`).  Nothing is asked of the tokens.
* **Told apart.**  Tables that order two tiers differently are, by an operator of each with no
  operand: whether the first is applied before the second shows in the error (`Token.value_probe`).
-/
import Reckoner.Calculator
import Reckoner.Proofs.Machine.Evaluation

namespace Reckoner

/-! ## 1. Tiers -/

/-- What a table ranks. -/
inductive Tier where
  | additive
  | multiplicative
  | power
  deriving DecidableEq

namespace Tier

/-- The tiers. -/
def all : List Tier := [.additive, .multiplicative, .power]

theorem mem_all (tier : Tier) : tier ∈ all := by
  cases tier <;> decide

/-- An operator of the tier. -/
def sample : Tier → Operator
  | .additive => .add
  | .multiplicative => .multiply
  | .power => .power

end Tier

/-- The tier of an operator. -/
def Operator.tier : Operator → Tier
  | .add | .subtract => .additive
  | .multiply | .divide => .multiplicative
  | .power => .power

/-- The tier of what is pending; an open parenthesis has none. -/
def Pending.tier? : Pending → Option Tier
  | .operator op => some op.tier
  | .negation => some .power
  | .opening => none

namespace Ranks

/-- The rank of a tier. -/
def ofTier (ranks : Ranks) : Tier → Nat
  | .additive => ranks.additive
  | .multiplicative => ranks.multiplicative
  | .power => ranks.power

theorem ofOperator_eq (ranks : Ranks) (op : Operator) :
    ranks.ofOperator op = ranks.ofTier op.tier := by
  cases op <;> rfl

theorem ofOperator_sample (ranks : Ranks) (tier : Tier) :
    ranks.ofOperator tier.sample = ranks.ofTier tier := by
  cases tier <;> rfl

/-- Both tables put the tiers in the same order, with the same ties. -/
def OrderedAlike (ranks other : Ranks) : Prop :=
  ∀ a b, ranks.ofTier b ≤ ranks.ofTier a ↔ other.ofTier b ≤ other.ofTier a

instance (ranks other : Ranks) : Decidable (ranks.OrderedAlike other) :=
  decidable_of_iff (∀ a ∈ Tier.all, ∀ b ∈ Tier.all,
      ranks.ofTier b ≤ ranks.ofTier a ↔ other.ofTier b ≤ other.ofTier a)
    ⟨fun h a b => h a a.mem_all b b.mem_all, fun h a _ b _ => h a b⟩

end Ranks

theorem Pending.rank?_eq (ranks : Ranks) (pending : Pending) :
    pending.rank? ranks = pending.tier?.map ranks.ofTier := by
  cases pending with
  | operator op => exact congrArg some (ranks.ofOperator_eq op)
  | negation => rfl
  | opening => rfl

/-! ## 2. In lockstep -/

variable {ranks other : Ranks}

/-- **One comparison.**  Under both tables an operator applies the same. -/
theorem Pending.precedes_congr (h : ranks.OrderedAlike other) (op : Operator) (pending : Pending) :
    pending.precedes ranks (ranks.ofOperator op)
      = pending.precedes other (other.ofOperator op) := by
  simp only [precedes, rank?_eq, Ranks.ofOperator_eq, Option.any_map]
  congr 1
  funext tier
  exact decide_eq_decide.mpr (h tier op.tier)

namespace Machine

/-- **One token** does the same under both tables. -/
theorem step_congr (h : ranks.OrderedAlike other) (machine : Machine) (token : Placed Token) :
    machine.step ranks token = machine.step other token := by
  obtain ⟨item, offset⟩ := token
  cases item with
  | operator op =>
    have hready : (·.precedes ranks (ranks.ofOperator op))
        = fun pending : Pending => pending.precedes other (other.ofOperator op) :=
      funext (Pending.precedes_congr h op)
    simp only [step, hready]
  | number value => rfl
  | negation => rfl
  | opening => rfl
  | closing => rfl
  | unknown character => rfl

/-- **A row** leaves the same machine under both tables, or halts it with the same error. -/
theorem run_congr (h : ranks.OrderedAlike other) (machine : Machine)
    (tokens : List (Placed Token)) : machine.run ranks tokens = machine.run other tokens := by
  induction tokens generalizing machine with
  | nil => rfl
  | cons token tokens ih =>
    rw [run_cons, run_cons, step_congr h]
    cases machine.step other token with
    | ok next => exact ih next
    | error error => rfl

end Machine

namespace Token

/-- A row of tokens, however made, has the same value under both tables, or the same error. -/
theorem value_congr (h : ranks.OrderedAlike other) (tokens : List (Placed Token)) :
    value ranks tokens = value other tokens := by
  simp only [value, Machine.run_congr h]

/-! ## 3. Told apart -/

/-- Two operators without an operand.  The second applies the first, which misses one, or else the
machine comes to the character behind them. -/
theorem value_probe (ranks : Ranks) (first second : Operator) :
    value ranks [⟨.operator first, 0⟩, ⟨.operator second, 0⟩, ⟨.unknown '?', 0⟩]
      = .error (if ranks.ofOperator second ≤ ranks.ofOperator first then .operandUnderflow
          else .unknownOperator '?' 0) := by
  by_cases h : ranks.ofOperator second ≤ ranks.ofOperator first <;>
    simp [value, Machine.run, Machine.step, Machine.start, Machine.applyWhile, Machine.pushPending,
      Pending.precedes, Pending.rank?, Pending.apply, h, Except.map, bind, Except.bind]

/-- Tables under which all rows have the same outcome order the tiers alike. -/
theorem orderedAlike_of_value
    (h : ∀ tokens : List (Placed Token), value ranks tokens = value other tokens) :
    ranks.OrderedAlike other := by
  intro a b
  have hprobe := h [⟨.operator a.sample, 0⟩, ⟨.operator b.sample, 0⟩, ⟨.unknown '?', 0⟩]
  rw [value_probe, value_probe] at hprobe
  simp only [Ranks.ofOperator_sample] at hprobe
  by_cases hhere : ranks.ofTier b ≤ ranks.ofTier a <;>
    by_cases hother : other.ofTier b ≤ other.ofTier a <;> simp [hhere, hother] at hprobe ⊢

/-- **Only the order of the ranks matters, and all of it.**  Two tables order the tiers alike
exactly when every row of tokens, read or made by hand, has the same outcome under both.  Then so
has every line. -/
theorem value_eq_iff_orderedAlike (ranks other : Ranks) :
    ((∀ tokens, value ranks tokens = value other tokens) ↔ ranks.OrderedAlike other) ∧
    (ranks.OrderedAlike other →
      ∀ line, (Calculator.mk ranks).evaluate line = (Calculator.mk other).evaluate line) := by
  refine ⟨⟨orderedAlike_of_value, value_congr⟩, fun h line => ?_⟩
  simp only [Calculator.evaluate, value_congr h]

/-- Sums before powers and products, which tie: with these ranks or any others so ordered two
operators miss an operand, and `-2×3^4+1` has one value. -/
theorem value_eq_iff_orderedAlike_ties :
    Ranks.OrderedAlike ⟨9, 4, 4⟩ ⟨255, 0, 0⟩ ∧
    value ⟨255, 0, 0⟩ [⟨.operator .multiply, 0⟩, ⟨.operator .power, 1⟩]
      = .error .operandUnderflow ∧
    ∃ x, (Calculator.mk ⟨9, 4, 4⟩).evaluate "-2×3^4+1" = .ok x ∧
      (Calculator.mk ⟨255, 0, 0⟩).evaluate "-2×3^4+1" = .ok x := by
  have h : Ranks.OrderedAlike ⟨9, 4, 4⟩ ⟨255, 0, 0⟩ := by decide
  obtain ⟨htokens, hlines⟩ := value_eq_iff_orderedAlike ⟨9, 4, 4⟩ ⟨255, 0, 0⟩
  have hmisses : value ⟨9, 4, 4⟩ [⟨.operator .multiply, 0⟩, ⟨.operator .power, 1⟩]
      = .error .operandUnderflow := rfl
  obtain ⟨x, hx⟩ : ∃ x, (Calculator.mk ⟨9, 4, 4⟩).evaluate "-2×3^4+1" = .ok x :=
    exists_eq_ok (by decide +kernel)
  exact ⟨h, (htokens.mpr h _).symm.trans hmisses, x, hx, (hlines h _).symm.trans hx⟩

end Token

end Reckoner
