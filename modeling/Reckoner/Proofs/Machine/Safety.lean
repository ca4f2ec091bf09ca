/-
# Read tokens never go wrong in the machine

The machine has two defects, to find no operand and to find nothing to apply.  A token stream made
by hand can show both.  One that reading has let through shows neither, whatever the ranks
(`Token.value_of_read`), and so no line does.

* **Meaningful rows** have a tree.  The machine works it out and is left with its value alone.
* **Characters without a meaning** pass reading, and behind one anything may stand: `x+1` is
  accepted.  But nothing admits such a character on its right except another one.  So if a row has
  one it begins with one, and the machine halts there before it has applied anything
  (`Symbol.Linked.plain_or_unknown`).
-/
import Reckoner.Calculator
import Reckoner.Proofs.Machine.Evaluation

namespace Reckoner

/-! ## 1. Where a character without a meaning can stand -/

namespace Symbol

variable {α : Type} {loose : Bool} {row : List (Symbol α)}

theorem isUnknown_of_joins {here next : Symbol α} (h : here.joins loose next)
    (hhere : here.isUnknown = false) : next.isUnknown = false := by
  cases here <;> cases next <;>
    simp_all [joins, admits, followsOperand, startsOperand, startsAtom, isUnknown]

theorem Linked.plain {last : Symbol α} (h : Linked loose (some last) row)
    (hlast : last.isUnknown = false) : Plain row := by
  induction row generalizing last with
  | nil => exact plain_nil
  | cons here row ih =>
    obtain ⟨hjoins, hrow⟩ := h
    have hhere := isUnknown_of_joins hjoins hlast
    exact plain_cons.mpr ⟨hhere, ih hrow hhere⟩

/-- **A row has a meaning throughout or begins without one.** -/
theorem Linked.plain_or_unknown (h : Linked loose none row) :
    Plain row ∨ ∃ character rest, row = .unknown character :: rest := by
  cases row with
  | nil => exact .inl plain_nil
  | cons here rest =>
    obtain ⟨-, hrest⟩ := h
    cases hhere : here.isUnknown with
    | false => exact .inl (plain_cons.mpr ⟨hhere, hrest.plain hhere⟩)
    | true =>
      cases here with
      | unknown character => exact .inr ⟨character, rest, rfl⟩
      | _ => simp [isUnknown] at hhere

end Symbol

/-! ## 2. The value of what has been read -/

variable {lexemes : List (Placed Lexeme)} {tokens : List (Placed Token)}

/-- Tokens of a row with a meaning leave nothing pending and one operand, which is their value. -/
theorem Token.run_of_read_plain (ranks : Ranks) (h : Token.read lexemes = .ok tokens)
    (hplain : Symbol.Plain (lexemes.map Placed.item)) :
    ∃ machine value, Machine.start.run ranks tokens = .ok machine ∧
      machine.drain = .ok ⟨[], [value]⟩ ∧ Token.value ranks tokens = .ok value := by
  obtain ⟨tree, htree⟩ := Token.ofTokens?_of_read ranks hplain h
  obtain ⟨machine, hrun, hdrain⟩ := Machine.run_start_of_ofTokens? htree
  exact ⟨machine, tree.value, hrun, hdrain, Token.value_of_drain hrun hdrain⟩

/-- Tokens of any other row begin with a character without a meaning, and the machine halts
there. -/
theorem Token.value_of_read_unknown (ranks : Ranks) (h : Token.read lexemes = .ok tokens)
    (hplain : ¬Symbol.Plain (lexemes.map Placed.item)) :
    ∃ character offset, lexemes.head? = some ⟨.unknown character, offset⟩ ∧
      Token.value ranks tokens = .error (.unknownOperator character offset) := by
  obtain ⟨hne, ho, -, -, rfl⟩ := Token.read_eq_ok_iff.mp h
  obtain ⟨hlinked, -⟩ := inOrder_start_iff.mp ⟨hne, ho⟩
  rcases hlinked.plain_or_unknown with hrow | ⟨character, rest, hrow⟩
  · exact absurd hrow hplain
  · obtain ⟨⟨item, offset⟩, rest, rfl, hitem, -⟩ := List.map_eq_cons_iff.mp hrow
    obtain rfl : item = .unknown character := hitem
    exact ⟨character, offset, rfl, rfl⟩

/-- A line is read, and what has been read is worked out. -/
theorem Calculator.evaluate_eq_bind (calculator : Calculator) (line : String) :
    calculator.evaluate line = ((Token.read (Lexeme.scan line)).mapError Fault.form).bind
      fun tokens => (Token.value calculator.ranks tokens).mapError Fault.run := rfl

/-- A line that is no expression halts in reading, and any other is worked out from its tokens. -/
theorem Calculator.evaluate_eq_error_run_iff {calculator : Calculator} {line : String}
    {error : RunError} : calculator.evaluate line = .error (.run error) ↔
      ∃ tokens, Token.read (Lexeme.scan line) = .ok tokens ∧
        Token.value calculator.ranks tokens = .error error := by
  rw [Calculator.evaluate_eq_bind]
  cases hread : Token.read (Lexeme.scan line) with
  | error error => simp [Except.bind, Except.mapError]
  | ok tokens =>
    cases hvalue : Token.value calculator.ranks tokens <;>
      simp [Except.bind, Except.mapError, hvalue]

/-- **Safety.**  Whatever the ranks, tokens that reading gives for a row have a value exactly when
everything in the row has a meaning.  Then nothing is left pending and the value is the only
operand left; otherwise the machine halts at the first lexeme, which has no meaning.  The one run
error that a line can show is therefore such a character. -/
theorem Token.value_of_read (ranks : Ranks) :
    (∀ lexemes tokens, Token.read lexemes = .ok tokens →
      ((∃ value, Token.value ranks tokens = .ok value) ↔
        Symbol.Plain (lexemes.map Placed.item)) ∧
      (Symbol.Plain (lexemes.map Placed.item) →
        ∃ machine value, Machine.start.run ranks tokens = .ok machine ∧
          machine.drain = .ok ⟨[], [value]⟩ ∧ Token.value ranks tokens = .ok value) ∧
      (¬Symbol.Plain (lexemes.map Placed.item) →
        ∃ character offset, lexemes.head? = some ⟨.unknown character, offset⟩ ∧
          Token.value ranks tokens = .error (.unknownOperator character offset))) ∧
    ∀ line error, (Calculator.mk ranks).evaluate line = .error (.run error) →
      ∃ character offset, error = .unknownOperator character offset := by
  constructor
  · intro lexemes tokens h
    refine ⟨⟨?_, ?_⟩, Token.run_of_read_plain ranks h, Token.value_of_read_unknown ranks h⟩
    · rintro ⟨value, hvalue⟩
      by_contra hplain
      obtain ⟨character, offset, -, herror⟩ := Token.value_of_read_unknown ranks h hplain
      rw [herror] at hvalue
      cases hvalue
    · intro hplain
      obtain ⟨machine, value, -, -, hvalue⟩ := Token.run_of_read_plain ranks h hplain
      exact ⟨value, hvalue⟩
  · intro line error h
    obtain ⟨tokens, hread, hvalue⟩ := Calculator.evaluate_eq_error_run_iff.mp h
    by_cases hplain : Symbol.Plain ((Lexeme.scan line).map Placed.item)
    · obtain ⟨machine, value, -, -, hok⟩ := Token.run_of_read_plain ranks hread hplain
      rw [hok] at hvalue
      cases hvalue
    · obtain ⟨character, offset, -, herror⟩ := Token.value_of_read_unknown ranks hread hplain
      rw [herror] at hvalue
      cases hvalue
      exact ⟨character, offset, rfl⟩

/-- `2^-1` is accepted and has a value; `x+1` is accepted, has none, and shows the one run error. -/
theorem Token.value_of_read_both_outcomes :
    (∃ tokens value, Token.read (Lexeme.scan "2^-1") = .ok tokens ∧
      Token.value .standard tokens = .ok value) ∧
    ∃ error, (Calculator.mk .standard).evaluate "x+1" = .error (.run error) ∧
      ∃ character offset, error = .unknownOperator character offset := by
  obtain ⟨hread, hline⟩ := Token.value_of_read .standard
  constructor
  · have hplain : Symbol.Plain ((Lexeme.scan "2^-1").map Placed.item) := by
      unfold Symbol.Plain
      decide +kernel
    obtain ⟨tokens, h⟩ : ∃ tokens, Token.read (Lexeme.scan "2^-1") = .ok tokens :=
      exists_eq_ok (by decide +kernel)
    obtain ⟨value, hvalue⟩ := (hread _ tokens h).1.mpr hplain
    exact ⟨tokens, value, h, hvalue⟩
  · have hunknown : ¬Symbol.Plain ((Lexeme.scan "x+1").map Placed.item) := by
      unfold Symbol.Plain
      decide +kernel
    obtain ⟨tokens, h⟩ : ∃ tokens, Token.read (Lexeme.scan "x+1") = .ok tokens :=
      exists_eq_ok (by decide +kernel)
    obtain ⟨character, offset, -, hvalue⟩ := (hread _ tokens h).2.2 hunknown
    have herror : (Calculator.mk .standard).evaluate "x+1" = .error (.run _) :=
      Calculator.evaluate_eq_error_run_iff.mpr ⟨tokens, h, hvalue⟩
    exact ⟨_, herror, hline _ _ herror⟩

end Reckoner
