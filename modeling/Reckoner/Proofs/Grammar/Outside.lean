/-
# What stands outside of parentheses

How the symbols of a row group is decided level by level: a symbol in parentheses has no part in
what happens around them.  `Symbol.Outside` tells the symbols on the outermost level from the
others by counting parentheses, so it makes sense for a part of a row as well, in front of which
some are open (`Symbol.outside_cons`, `Symbol.outside_append`).

* **In parentheses** nothing of an expression stands outside (`Symbol.not_outside_of_derives`).
* **An operand**, with or without a negation, has no operator outside of parentheses
  (`Symbol.not_outside_operator_of_term`).
-/
import Reckoner.Proofs.Grammar.Neighbours

namespace Reckoner

namespace Symbol

variable {α : Type} {depth middle : Nat} {here symbol : Symbol α} {front row : List (Symbol α)}

/-! ## 1. Rows -/

/-- The symbol stands in the row outside of all parentheses, those included of which `depth` are
open in front of the row. -/
def Outside (depth : Nat) (row : List (Symbol α)) (symbol : Symbol α) : Prop :=
  ∃ front back, row = front ++ symbol :: back ∧ depthAfter depth front = some 0

@[simp] theorem not_outside_nil : ¬Outside depth [] symbol := by
  rintro ⟨front, back, hrow, -⟩
  simp at hrow

theorem outside_cons : Outside depth (here :: row) symbol ↔
    (depth = 0 ∧ symbol = here) ∨
      ∃ deeper, deepen depth here = some deeper ∧ Outside deeper row symbol := by
  constructor
  · rintro ⟨front, back, hrow, hdepth⟩
    rcases front with _ | ⟨first, front⟩
    · obtain ⟨rfl, -⟩ := List.cons.inj hrow
      exact .inl ⟨by simpa using hdepth, rfl⟩
    · obtain ⟨rfl, rfl⟩ := List.cons.inj hrow
      rw [depthAfter_cons, Option.bind_eq_some_iff] at hdepth
      obtain ⟨deeper, hhere, hdepth⟩ := hdepth
      exact .inr ⟨deeper, hhere, front, back, rfl, hdepth⟩
  · rintro (⟨rfl, rfl⟩ | ⟨deeper, hhere, front, back, rfl, hdepth⟩)
    · exact ⟨[], row, rfl, rfl⟩
    · exact ⟨here :: front, back, rfl, by rw [depthAfter_cons, hhere]; exact hdepth⟩

/-- Where one row follows another its symbols stand as deep as the first row leaves them. -/
theorem outside_append (hfront : depthAfter depth front = some middle) :
    Outside depth (front ++ row) symbol ↔
      Outside depth front symbol ∨ Outside middle row symbol := by
  induction front generalizing depth with
  | nil =>
    obtain rfl : depth = middle := by simpa using hfront
    simp
  | cons here front ih =>
    rw [depthAfter_cons, Option.bind_eq_some_iff] at hfront
    obtain ⟨deeper, hhere, hfront⟩ := hfront
    rw [List.cons_append, outside_cons, outside_cons, hhere]
    simp [ih hfront, or_assoc]

/-! ## 2. Phrases -/

theorem depthAfter_add {deeper : Nat} (h : depthAfter depth row = some deeper) (more : Nat) :
    depthAfter (depth + more) row = some (deeper + more) := by
  induction row generalizing depth with
  | nil =>
    obtain rfl : depth = deeper := by simpa using h
    rfl
  | cons here row ih =>
    rw [depthAfter_cons, Option.bind_eq_some_iff] at h
    obtain ⟨inside, hinside, hrow⟩ := h
    have hhere : deepen (depth + more) here = some (inside + more) := by
      cases here with
      | opening =>
        obtain rfl : depth + 1 = inside := by simpa [deepen] using hinside
        simp [deepen, Nat.add_right_comm]
      | closing =>
        cases depth with
        | zero => simp [deepen] at hinside
        | succ depth =>
          obtain rfl : depth = inside := by simpa [deepen] using hinside
          rw [Nat.add_right_comm]
          rfl
      | number | operator | negation | unknown =>
        obtain rfl : depth = inside := by simpa [deepen] using hinside
        simp [deepen]
    rw [depthAfter_cons, hhere]
    exact ih hrow

section Phrases

variable {loose : Bool} {phrase : Phrase}

/-- Nothing of an expression in parentheses stands outside of them. -/
theorem not_outside_of_derives (h : Derives loose phrase row) (depth : Nat) :
    ¬Outside (depth + 1) row symbol := by
  rintro ⟨front, back, rfl, hdepth⟩
  have hrow := h.depthAfter_eq 0
  rw [depthAfter_append, Option.bind_eq_some_iff] at hrow
  obtain ⟨deeper, hfront, -⟩ := hrow
  have hmore := depthAfter_add hfront (depth + 1)
  rw [Nat.zero_add, hdepth] at hmore
  simp at hmore

theorem not_outside_operator_of_atom (h : Derives loose .atom row) (op : Operator) :
    ¬Outside 0 row (.operator op) := by
  cases h with
  | number value => simp [outside_cons]
  | @parentheses inner hinner =>
    rw [List.cons_append, outside_cons]
    rintro (⟨-, hop⟩ | ⟨deeper, hdeeper, hinside⟩)
    · cases hop
    · obtain rfl : 1 = deeper := by simpa [deepen] using hdeeper
      rcases (outside_append (hinner.depthAfter_eq 1)).mp hinside with hinner' | hclosing
      · exact not_outside_of_derives hinner 0 hinner'
      · simp [outside_cons] at hclosing

theorem not_outside_operator_of_term (h : Derives loose .term row) (op : Operator) :
    ¬Outside 0 row (.operator op) := by
  cases h with
  | plain hatom => exact not_outside_operator_of_atom hatom op
  | negated hatom =>
    simp [outside_cons, deepen, not_outside_operator_of_atom hatom op]

end Phrases

end Symbol

end Reckoner
