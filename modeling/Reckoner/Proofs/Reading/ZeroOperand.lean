/-
# An operator in front of a zero

The number written `0` may not stand right behind an operator, whichever it is.  This is the one
error that the screen shows as a mathematical one, and it competes with all other errors of a row:
only the first problem is reported.

It is reported exactly when the row can still be completed up to the operator
(`Token.read_eq_zeroOperand_iff`).  So nothing in front of the operator was wrong, and of several
such zeros only the first one can be meant.

* **What can be completed** has been read, so the operator is the first lexeme with a problem
  (`Reading.read_of_viable`).
* **What can be completed** has no zero behind an operator itself (`not_viable_of_zeroBehind`).
-/
import Reckoner.Proofs.Reading.Viability

namespace Reckoner

variable {row front back more : List (Placed Lexeme)} {here : Placed Lexeme} {index offset : Nat}

/-! ## 1. Where a zero stands behind an operator -/

/-- At an index of the row stands an operator, and right behind it the number written `0`, which
has this offset. -/
def ZeroBehind (row : List (Placed Lexeme)) (index offset : Nat) : Prop :=
  (∃ op, row[index]?.map Placed.item = some (.operator op)) ∧
    row[index + 1]? = some ⟨.number "0", offset⟩

/-- What stands in front of the operator, and behind the zero. -/
theorem zeroBehind_iff : ZeroBehind row index offset ↔
    ∃ front here op back, row = front ++ here :: ⟨.number "0", offset⟩ :: back ∧
      here.item = .operator op ∧ front.length = index := by
  constructor
  · rintro ⟨⟨op, hop⟩, hzero⟩
    obtain ⟨here, hhere, hitem⟩ := Option.map_eq_some_iff.mp hop
    obtain ⟨hlt, hhere⟩ := List.getElem?_eq_some_iff.mp hhere
    obtain ⟨hlt', hzero⟩ := List.getElem?_eq_some_iff.mp hzero
    refine ⟨row.take index, here, op, row.drop (index + 2), ?_, hitem, ?_⟩
    · rw [← hhere, ← hzero, ← List.drop_eq_getElem_cons hlt', ← List.drop_eq_getElem_cons hlt,
        List.take_append_drop]
    · rw [List.length_take]
      omega
  · rintro ⟨front, here, op, back, rfl, hitem, rfl⟩
    simp [ZeroBehind, hitem]

theorem ZeroBehind.append (h : ZeroBehind row index offset) (more : List (Placed Lexeme)) :
    ZeroBehind (row ++ more) index offset := by
  obtain ⟨front, here, op, back, rfl, hitem, hlength⟩ := zeroBehind_iff.mp h
  exact zeroBehind_iff.mpr ⟨front, here, op, back ++ more, by simp, hitem, hlength⟩

theorem ZeroBehind.take (h : ZeroBehind row index offset) {length : Nat}
    (hlt : index + 1 < length) : ZeroBehind (row.take length) index offset := by
  obtain ⟨hop, hzero⟩ := h
  constructor
  · rwa [List.getElem?_take_of_lt (by omega)]
  · rwa [List.getElem?_take_of_lt hlt]

/-! ## 2. Rows that can be completed -/

theorem not_zeroBehind_of_read {tokens : List (Placed Token)} (h : Token.read row = .ok tokens) :
    ¬ZeroBehind row index offset := by
  intro hzero
  obtain ⟨front, here, op, back, rfl, hitem, -⟩ := zeroBehind_iff.mp hzero
  obtain ⟨hne, ho, -⟩ := Token.read_eq_ok_iff.mp h
  obtain ⟨-, hchain⟩ := inOrder_start_iff.mp ⟨hne, ho⟩
  rw [List.map_append, List.map_cons, List.map_cons, List.isChain_append_cons_cons] at hchain
  exact hchain.2.1 ⟨⟨op, hitem⟩, rfl⟩

theorem not_viable_of_zeroBehind (h : ZeroBehind row index offset) : ¬Viable row := by
  rintro ⟨more, tokens, hread⟩
  exact not_zeroBehind_of_read hread (h.append more)

namespace Reading

/-- A row that can be completed has been read up to its last lexeme, which has the left neighbour
it needs. -/
theorem read_of_viable (h : Viable (front ++ [here])) :
    ∃ state, runBefore (some here) start front = .ok state ∧
      (state.last? = none → here.item.needsLeft = false) := by
  obtain ⟨more, tokens, hread⟩ := h
  rw [List.append_assoc, List.singleton_append] at hread
  obtain ⟨state, hfront⟩ := exists_runBefore_of_read hread
  obtain ⟨after, hstep⟩ := step_of_read hread hfront
  obtain ⟨hneighbours, -⟩ := step_eq_ok_iff.mp hstep
  exact ⟨state, hfront, needsLeft_of_neighbourError? hneighbours⟩

theorem not_atFault_operator {op : Operator} (h : here.item = .operator op) :
    ¬AtFault front here := by
  simp [AtFault, h, Lexeme.isReadable]

/-- **When the zero is reported**, by what stands in front of the operator. -/
theorem read_eq_zeroOperand_iff_exists : Token.read row = .error (.zeroOperand offset) ↔
    ∃ front here op back, row = front ++ here :: ⟨.number "0", offset⟩ :: back ∧
      here.item = .operator op ∧ Viable (front ++ [here]) := by
  constructor
  · intro h
    rcases Token.read_eq_error_iff.mp h with ⟨-, hempty⟩ | hrefused | ⟨_, _, _, -, -, -, hopen⟩
    · cases hempty
    · obtain ⟨front, here, back, state, rfl, hfront, hhere⟩ := hrefused
      generalize hnext : back.head? = next? at hhere
      cases hhere with
      | @zeroOperand next hleft hzero =>
        obtain ⟨⟨op, hop⟩, hnumber⟩ := hzero
        obtain ⟨back, rfl⟩ := List.head?_eq_some_iff.mp hnext
        exact ⟨front, here, op, back, by rw [← hnumber], hop,
          viable_concat hfront hleft (not_atFault_operator hop)⟩
    · cases hopen
  · rintro ⟨front, here, op, back, rfl, hop, hviable⟩
    obtain ⟨state, hfront, hleft⟩ := read_of_viable hviable
    exact Token.read_eq_error_iff.mpr (.inr (.inl ⟨front, here, _, state, rfl, hfront,
      .zeroOperand hleft ⟨⟨op, hop⟩, rfl⟩⟩))

end Reading

/-! ## 3. Which zero is reported -/

/-- **An operator in front of a zero** is reported, at the offset of the zero, exactly when the row
can be completed up to the operator.  No such zero stands further to the left then, so it is the
only one that can be reported.  An accepted row has none, and a row that has none is not refused
for one: no zero behind a negation or a parenthesis counts, and none that is written in another
way. -/
theorem Token.read_eq_zeroOperand_iff (row : List (Placed Lexeme)) :
    (∀ offset, Token.read row = .error (.zeroOperand offset) ↔
      ∃ index, ZeroBehind row index offset ∧ Viable (row.take (index + 1))) ∧
    (∀ index offset, ZeroBehind row index offset → Viable (row.take (index + 1)) →
      ∀ index' offset', ZeroBehind row index' offset' → index ≤ index') ∧
    ((∃ tokens, Token.read row = .ok tokens) → ∀ index offset, ¬ZeroBehind row index offset) ∧
    ((∀ index offset, ¬ZeroBehind row index offset) →
      ∀ offset, Token.read row ≠ .error (.zeroOperand offset)) := by
  have hreported : ∀ offset, Token.read row = .error (.zeroOperand offset) ↔
      ∃ index, ZeroBehind row index offset ∧ Viable (row.take (index + 1)) := by
    intro offset
    rw [Reading.read_eq_zeroOperand_iff_exists]
    constructor
    · rintro ⟨front, here, op, back, rfl, hop, hviable⟩
      refine ⟨front.length, zeroBehind_iff.mpr ⟨front, here, op, back, rfl, hop, rfl⟩, ?_⟩
      simpa [List.take_append, List.take_of_length_le] using hviable
    · rintro ⟨index, hzero, hviable⟩
      obtain ⟨front, here, op, back, rfl, hop, rfl⟩ := zeroBehind_iff.mp hzero
      refine ⟨front, here, op, back, rfl, hop, ?_⟩
      simpa [List.take_append, List.take_of_length_le] using hviable
  refine ⟨hreported, ?_, ?_, ?_⟩
  · intro index offset hzero hviable index' offset' hzero'
    by_contra hbefore
    exact not_viable_of_zeroBehind (hzero'.take (by omega)) hviable
  · rintro ⟨tokens, hread⟩ index offset
    exact not_zeroBehind_of_read hread
  · intro hnone offset h
    obtain ⟨index, hzero, -⟩ := (hreported offset).mp h
    exact hnone index offset hzero

/-- Of the two zeros in `(2×0+0` the first is reported, behind the lexeme at index 2.  None of the
zeros in `2(0)×00−-0` stands behind an operator. -/
theorem Token.read_eq_zeroOperand_first_of_two :
    (∃ index, ZeroBehind (Lexeme.scan "(2×0+0") index 4 ∧
      Viable ((Lexeme.scan "(2×0+0").take (index + 1)) ∧ index ≤ 4) ∧
    (∀ index offset, ¬ZeroBehind (Lexeme.scan "2(0)×00−-0") index offset) ∧
      Token.read (Lexeme.scan "2(0)×00−-0") ≠ .error (.zeroOperand 2) := by
  have hscan : Lexeme.scan "(2×0+0" = [⟨.opening, 0⟩, ⟨.number "2", 1⟩, ⟨.operator .multiply, 2⟩,
      ⟨.number "0", 4⟩, ⟨.operator .add, 5⟩, ⟨.number "0", 6⟩] := by decide +kernel
  have hread : Token.read (Lexeme.scan "(2×0+0") = .error (.zeroOperand 4) := by decide +kernel
  have hlast : ZeroBehind (Lexeme.scan "(2×0+0") 4 6 := by
    rw [hscan]
    exact ⟨⟨.add, rfl⟩, rfl⟩
  obtain ⟨hreported, hfirst, -⟩ := Token.read_eq_zeroOperand_iff (Lexeme.scan "(2×0+0")
  obtain ⟨index, hzero, hviable⟩ := (hreported 4).mp hread
  obtain ⟨-, -, haccepted, hnone⟩ := Token.read_eq_zeroOperand_iff (Lexeme.scan "2(0)×00−-0")
  have hclean := haccepted (exists_eq_ok (by decide +kernel))
  exact ⟨⟨index, hzero, hviable, hfirst index 4 hzero hviable 4 6 hlast⟩, hclean, hnone hclean 2⟩

end Reckoner
