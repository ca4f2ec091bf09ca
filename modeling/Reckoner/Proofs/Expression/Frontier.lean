/-
# A tree has the tokens of its row

Grouping forgets nothing and moves nothing.  Read from left to right, the tree of a row has the
tokens of the row in their order, but for the parentheses, which say how to group and are no part of
what is grouped (`Expression.tokens_of_ofTokens?`).
-/
import Mathlib.Data.List.Basic
import Reckoner.Proofs.Expression.Climbing

namespace Reckoner

namespace Symbol

variable {α : Type}

/-- Whether this is no parenthesis. -/
def isContent : Symbol α → Bool
  | .opening | .closing => false
  | _ => true

/-- The number, if this is one. -/
def number? : Symbol α → Option α
  | .number value => some value
  | _ => none

theorem filterMap_number?_filter (row : List (Symbol α)) :
    (row.filter isContent).filterMap number? = row.filterMap number? := by
  rw [List.filterMap_filter]
  refine List.filterMap_congr fun symbol _ => ?_
  cases symbol <;> rfl

end Symbol

namespace Expression

/-- The tokens of a tree from left to right. -/
def tokens : Expression → List Token
  | .number value => [.number value]
  | .negation operand => .negation :: operand.tokens
  | .operation op left right => left.tokens ++ .operator op :: right.tokens

variable {ranks : Ranks} {depth : Nat}

/-- Reading an operand off a row splits the tokens of the row. -/
def ReadsTokensAt (ranks : Ranks) (depth : Nat) : Prop :=
  ∀ row tree rest, operand? ranks depth row = some (tree, rest) →
    row.filter Symbol.isContent = tree.tokens ++ rest.filter Symbol.isContent

/-- Climbing up a row splits its tokens. -/
def ClimbsTokensAt (ranks : Ranks) (depth : Nat) : Prop :=
  ∀ least row tree rest, climb? ranks depth least row = some (tree, rest) →
    row.filter Symbol.isContent = tree.tokens ++ rest.filter Symbol.isContent

/-- Extending an operand moves tokens from the row to the tree. -/
def ExtendsTokensAt (ranks : Ranks) (depth : Nat) : Prop :=
  ∀ least left row tree rest, extend? ranks depth least left row = some (tree, rest) →
    left.tokens ++ row.filter Symbol.isContent = tree.tokens ++ rest.filter Symbol.isContent

theorem readsTokensAt_succ (hc : ClimbsTokensAt ranks depth) : ReadsTokensAt ranks (depth + 1) := by
  intro row tree rest h
  cases row with
  | nil => cases h
  | cons token row =>
    cases token with
    | number value =>
      cases h
      rfl
    | negation =>
      rw [operand?] at h
      split at h
      next operand after hclimb =>
        cases h
        rw [List.filter_cons_of_pos rfl, hc _ _ _ _ hclimb]
        rfl
      next => cases h
    | opening =>
      rw [operand?] at h
      split at h
      next inner after hclimb =>
        cases h
        have hrow := hc _ _ _ _ hclimb
        simpa [Symbol.isContent] using hrow
      next => cases h
    | operator | closing | unknown => cases h

theorem climbsTokensAt_succ (ho : ReadsTokensAt ranks depth) (he : ExtendsTokensAt ranks depth) :
    ClimbsTokensAt ranks (depth + 1) := by
  intro least row tree rest h
  rw [climb?] at h
  split at h
  next left after hoperand => rw [ho _ _ _ hoperand, he _ _ _ _ _ h]
  next => cases h

theorem extendsTokensAt_succ (hc : ClimbsTokensAt ranks depth)
    (he : ExtendsTokensAt ranks depth) : ExtendsTokensAt ranks (depth + 1) := by
  intro least left row tree rest h
  by_cases hrow : ∃ op after, row = .operator op :: after
  · obtain ⟨op, after, rfl⟩ := hrow
    rw [extend?_operator] at h
    split at h
    · split at h
      next right after' hclimb =>
        rw [← he _ _ _ _ _ h, List.filter_cons_of_pos rfl, hc _ _ _ _ hclimb]
        simp [tokens]
      next => cases h
    · cases h
      rfl
  · rw [extend?_stop fun op after heq => hrow ⟨op, after, heq⟩] at h
    cases h
    rfl

/-- At every depth all three statements hold; at depth zero nothing is read. -/
theorem splitsTokens (ranks : Ranks) (depth : Nat) :
    ReadsTokensAt ranks depth ∧ ExtendsTokensAt ranks depth ∧ ClimbsTokensAt ranks depth := by
  induction depth with
  | zero => exact ⟨nofun, nofun, nofun⟩
  | succ depth ih =>
    obtain ⟨ho, he, hc⟩ := ih
    exact ⟨readsTokensAt_succ hc, extendsTokensAt_succ hc he, climbsTokensAt_succ ho he⟩

/-- **A tree has the tokens of its row**, in their order and without the parentheses. -/
theorem tokens_of_ofTokens? {row : List Token} {tree : Expression}
    (h : ofTokens? ranks row = some tree) : tree.tokens = row.filter Symbol.isContent := by
  rw [ofTokens?] at h
  split at h
  next found hclimb =>
    cases h
    have hrow := (splitsTokens ranks _).2.2 _ _ _ _ hclimb
    simpa using hrow.symm
  next => cases h

/-- **A tree has the numbers of its row.** -/
theorem numbers_of_ofTokens? {row : List Token} {tree : Expression}
    (h : ofTokens? ranks row = some tree) :
    tree.tokens.filterMap Symbol.number? = row.filterMap Symbol.number? := by
  rw [tokens_of_ofTokens? h, Symbol.filterMap_number?_filter]

end Expression

end Reckoner
