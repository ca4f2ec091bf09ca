/-
# Climbing finds the tree of every expression

`Expression.ofTokens?` reads a tree off a row by precedence climbing, under any ranks, and bounds
how deep its functions may call each other.  Here is shown that it never gives up on an expression:

* **`ofTokens?_of_derives`**: a row that the strict grammar derives has a tree, whatever the ranks
  are.

The grammar builds an expression from the left and climbing takes it apart from the left, so an
expression is first cut behind its first term (`Derives.cut`).  What climbing leaves of a row is
then always a *tail*: nothing, or an operator in front of an expression.  Each of the three
functions has its statement at a given depth, and each step of the induction on the depth derives
one of them from those it calls.
-/
import Reckoner.Expression
import Reckoner.Grammar

namespace Reckoner

/-! ## 1. Tails -/

/-- What may follow a term in an expression: nothing, or an operator and an expression. -/
def Tail (tail : List Token) : Prop :=
  tail = [] ∨ ∃ op next, tail = .operator op :: next ∧ Derives false .expression next

theorem Derives.length_pos {α : Type} {loose : Bool} {phrase : Phrase} {row : List (Symbol α)}
    (h : Derives loose phrase row) : 0 < row.length := by
  induction h with
  | plain _ ih | single _ ih => exact ih
  | number | parentheses | negated => simp
  | joined | unwritten =>
    simp only [List.length_append, List.length_cons]
    omega

theorem Derives.join {α : Type} {loose : Bool} {left right : List (Symbol α)}
    (hl : Derives loose .expression left) (op : Operator)
    (hr : Derives loose .expression right) :
    Derives loose .expression (left ++ .operator op :: right) := by
  generalize hphrase : Phrase.expression = phrase at hr
  induction hr with
  | number | parentheses | plain | negated => cases hphrase
  | single h => exact .joined op hl h
  | joined op' _ h ih =>
    have hleft := ih hphrase
    simpa using hleft.joined op' h
  | unwritten hloose _ h ih =>
    have hleft := ih hphrase
    simpa using hleft.unwritten hloose h

/-- **An expression begins with a term**, and a tail follows. -/
theorem Derives.cut {row : List Token} (h : Derives false .expression row) :
    ∃ term tail, row = term ++ tail ∧ Derives false .term term ∧ Tail tail := by
  generalize hphrase : Phrase.expression = phrase at h
  generalize hloose : false = loose at h
  induction h with
  | number | parentheses | plain | negated => cases hphrase
  | @single row h =>
    subst hloose
    exact ⟨row, [], by simp, h, .inl rfl⟩
  | @joined left right op hl hr ih =>
    subst hloose
    obtain ⟨term, tail, rfl, hterm, htail⟩ := ih hphrase
    refine ⟨term, tail ++ .operator op :: right, by simp, hterm, .inr ?_⟩
    rcases htail with rfl | ⟨op', next, rfl, hnext⟩
    · exact ⟨op, right, rfl, .single hr⟩
    · exact ⟨op', next ++ .operator op :: right, rfl, .joined op hnext hr⟩
  | unwritten h =>
    subst hloose
    cases h

theorem Tail.derives {term tail : List Token} (htail : Tail tail)
    (hterm : Derives false .term term) : Derives false .expression (term ++ tail) := by
  rcases htail with rfl | ⟨op, next, rfl, hnext⟩
  · simpa using Derives.single hterm
  · exact (Derives.single hterm).join op hnext

namespace Expression

variable {ranks : Ranks} {depth least : Nat}

/-! ## 2. What climbing stops at -/

/-- At an operator the left operand is extended if the operator's rank is high enough. -/
theorem extend?_operator {left : Expression} {op : Operator} {rest : List Token} :
    extend? ranks (depth + 1) least left (.operator op :: rest) =
      if least ≤ ranks.ofOperator op then
        match climb? ranks depth (ranks.ofOperator op + 1) rest with
        | some (right, rest) => extend? ranks depth least (.operation op left right) rest
        | none => none
      else some (left, .operator op :: rest) :=
  rfl

theorem extend?_stop {left : Expression} {row : List Token}
    (h : ∀ op after, row ≠ .operator op :: after) :
    extend? ranks (depth + 1) least left row = some (left, row) := by
  rw [extend?]
  exact h

/-- No operator of rank `least` or higher comes next. -/
def StopsBelow (ranks : Ranks) (least : Nat) (rest : List Token) : Prop :=
  ∀ op after, rest = .operator op :: after → ranks.ofOperator op < least

theorem stopsBelow_extend? {left tree : Expression} {row rest : List Token}
    (h : extend? ranks depth least left row = some (tree, rest)) : StopsBelow ranks least rest := by
  induction depth generalizing left row with
  | zero => simp [extend?] at h
  | succ depth ih =>
    by_cases hrow : ∃ op after, row = .operator op :: after
    · obtain ⟨op, after, rfl⟩ := hrow
      rw [extend?_operator] at h
      split at h
      · split at h
        · exact ih h
        · cases h
      · rename_i hrank
        cases h
        rintro _ _ ⟨rfl, rfl⟩
        exact Nat.lt_of_not_le hrank
    · rw [extend?_stop fun op after heq => hrow ⟨op, after, heq⟩] at h
      cases h
      exact fun op after heq => absurd ⟨op, after, heq⟩ hrow

theorem stopsBelow_climb? {tree : Expression} {row rest : List Token}
    (h : climb? ranks depth least row = some (tree, rest)) : StopsBelow ranks least rest := by
  cases depth with
  | zero => simp [climb?] at h
  | succ depth =>
    rw [climb?] at h
    split at h
    · exact stopsBelow_extend? h
    · cases h

/-! ## 3. Deep enough

A row of `n` tokens takes a depth of `2 * n`, and one more where its first operand is still to be
read or extended. -/

/-- Behind an expression in parentheses, or at the end, no operator follows. -/
def Ends (rest : List Token) : Prop := rest = [] ∨ ∃ after, rest = .closing :: after

/-- Climbing up a row leaves a tail of it. -/
def ClimbsAt (ranks : Ranks) (depth : Nat) : Prop :=
  ∀ least row rest, Derives false .expression row → Ends rest → 2 * row.length + 1 ≤ depth →
    ∃ tree tail, climb? ranks depth least (row ++ rest) = some (tree, tail ++ rest) ∧
      Tail tail ∧ tail.length < row.length

/-- The first operand of a row leaves a tail of it. -/
def ReadsAt (ranks : Ranks) (depth : Nat) : Prop :=
  ∀ term tail rest, Derives false .term term → Tail tail → Ends rest →
    2 * (term ++ tail).length ≤ depth →
    ∃ tree tail', operand? ranks depth (term ++ tail ++ rest) = some (tree, tail' ++ rest) ∧
      Tail tail' ∧ tail'.length < (term ++ tail).length

/-- Extending an operand by a tail leaves a tail. -/
def ExtendsAt (ranks : Ranks) (depth : Nat) : Prop :=
  ∀ least left tail rest, Tail tail → Ends rest → 2 * tail.length + 1 ≤ depth →
    ∃ tree tail', extend? ranks depth least left (tail ++ rest) = some (tree, tail' ++ rest) ∧
      Tail tail' ∧ tail'.length ≤ tail.length

/-- A tail in front of which climbing with the lowest rank stops is empty. -/
theorem eq_nil_of_stopsBelow {tail rest : List Token} (htail : Tail tail)
    (hstop : StopsBelow ranks 0 (tail ++ rest)) : tail = [] := by
  rcases htail with rfl | ⟨op, next, rfl, -⟩
  · rfl
  · exact absurd (hstop op (next ++ rest) rfl) (Nat.not_lt_zero _)

theorem climbsAt_succ (ho : ReadsAt ranks depth) (he : ExtendsAt ranks depth) :
    ClimbsAt ranks (depth + 1) := by
  intro least row rest hrow hrest hdepth
  obtain ⟨term, tail, rfl, hterm, htail⟩ := hrow.cut
  obtain ⟨left, tail', hleft, htail', hlength⟩ := ho term tail rest hterm htail hrest (by omega)
  obtain ⟨tree, tail'', htree, htail'', hlength'⟩ :=
    he least left tail' rest htail' hrest (by omega)
  refine ⟨tree, tail'', ?_, htail'', by omega⟩
  rw [climb?, hleft]
  exact htree

theorem extendsAt_succ (hc : ClimbsAt ranks depth) (he : ExtendsAt ranks depth) :
    ExtendsAt ranks (depth + 1) := by
  intro least left tail rest htail hrest hdepth
  rcases htail with rfl | ⟨op, next, rfl, hnext⟩
  · refine ⟨left, [], ?_, .inl rfl, Nat.le_refl _⟩
    refine extend?_stop fun op after heq => ?_
    rcases hrest with rfl | ⟨after', rfl⟩ <;> cases heq
  · rw [List.length_cons] at hdepth
    by_cases hrank : least ≤ ranks.ofOperator op
    · obtain ⟨right, tail', hright, htail', hlength⟩ :=
        hc (ranks.ofOperator op + 1) next rest hnext hrest (by omega)
      obtain ⟨tree, tail'', htree, htail'', hlength'⟩ :=
        he least (.operation op left right) tail' rest htail' hrest (by omega)
      refine ⟨tree, tail'', ?_, htail'', by rw [List.length_cons]; omega⟩
      rw [List.cons_append, extend?_operator, if_pos hrank, hright]
      exact htree
    · refine ⟨left, .operator op :: next, ?_, .inr ⟨op, next, rfl, hnext⟩, Nat.le_refl _⟩
      rw [List.cons_append, extend?_operator, if_neg hrank]

/-- An atom is read as it stands; what follows it is left. -/
theorem operand?_atom (hc : ClimbsAt ranks depth) {atom : List Token} (rest : List Token)
    (hatom : Derives false .atom atom) (hdepth : 2 * atom.length ≤ depth + 1) :
    ∃ tree, operand? ranks (depth + 1) (atom ++ rest) = some (tree, rest) := by
  cases hatom with
  | number value => exact ⟨.number value, by simp [operand?]⟩
  | @parentheses inner hinner =>
    simp only [List.length_append, List.length_cons, List.length_nil] at hdepth
    obtain ⟨tree, tail, htree, htail, -⟩ :=
      hc 0 inner (.closing :: rest) hinner (.inr ⟨rest, rfl⟩) (by omega)
    obtain rfl : tail = [] := eq_nil_of_stopsBelow htail (stopsBelow_climb? htree)
    exact ⟨tree, by simp [operand?, htree]⟩

theorem readsAt_succ (hc : ClimbsAt ranks depth) : ReadsAt ranks (depth + 1) := by
  intro term tail rest hterm htail hrest hdepth
  rw [List.length_append] at hdepth
  cases hterm with
  | plain h =>
    obtain ⟨tree, htree⟩ := operand?_atom hc (tail ++ rest) h (by omega)
    refine ⟨tree, tail, by simpa using htree, htail, ?_⟩
    have hpos := h.length_pos
    rw [List.length_append]
    omega
  | @negated row h =>
    have hrow : Derives false .expression (row ++ tail) := htail.derives (.plain h)
    rw [List.length_cons] at hdepth
    obtain ⟨tree, tail', htree, htail', hlength⟩ := hc (ranks.ofNegation + 1) (row ++ tail) rest
      hrow hrest (by rw [List.length_append]; omega)
    refine ⟨.negation tree, tail', ?_, htail', by rw [List.cons_append, List.length_cons]; omega⟩
    simp only [List.cons_append, operand?, htree]

/-- At every depth all three statements hold; at depth zero they ask for nothing. -/
theorem climbs (ranks : Ranks) (depth : Nat) :
    ReadsAt ranks depth ∧ ExtendsAt ranks depth ∧ ClimbsAt ranks depth := by
  induction depth with
  | zero =>
    refine ⟨?_, ?_, ?_⟩
    · intro term tail rest hterm _ _ hdepth
      have hpos := hterm.length_pos
      rw [List.length_append] at hdepth
      omega
    · intro _ _ _ _ _ _ hdepth
      omega
    · intro _ _ _ _ _ hdepth
      omega
  | succ depth ih =>
    obtain ⟨ho, he, hc⟩ := ih
    exact ⟨readsAt_succ hc, extendsAt_succ hc he, climbsAt_succ ho he⟩

/-- **Every expression has a tree**, whatever the ranks are. -/
theorem ofTokens?_of_derives (ranks : Ranks) {row : List Token}
    (h : Derives false .expression row) : ∃ tree, ofTokens? ranks row = some tree := by
  obtain ⟨-, -, hc⟩ := climbs ranks (2 * row.length + 2)
  obtain ⟨tree, tail, htree, htail, -⟩ := hc 0 row [] h (.inl rfl) (by omega)
  obtain rfl : tail = [] := eq_nil_of_stopsBelow htail (stopsBelow_climb? htree)
  rw [List.append_nil, List.append_nil] at htree
  exact ⟨tree, by rw [ofTokens?, htree]⟩

end Expression

end Reckoner
