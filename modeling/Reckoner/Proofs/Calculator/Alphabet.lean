/-
# Characters without a meaning

The calculator's alphabet is small: digits, the point, parentheses and six signs.  Reading lets any
other character pass, and the machine halts at it.  Reading itself sees to it that the machine has
then done nothing: a character without a meaning is admitted only behind another one, so if a row
has any, it begins with one (`Symbol.Linked.isChain_unknown`, `Symbol.Linked.plain_or_unknown`).

For lines this means (`Calculator.evaluate_unknown`):

* **The run error** of a line is about its first character, and arises exactly when the line is
  accepted and begins outside the alphabet.
* **A value** is for lines of the alphabet alone.
-/
import Reckoner.Proofs.Calculator.Substitution
import Reckoner.Proofs.Lexeme.Rows

namespace Reckoner

/-! ## 1. Rows -/

/-- A symbol without a meaning is admitted only behind another one. -/
theorem Symbol.Linked.isChain_unknown {α : Type} {loose : Bool} {last? : Option (Symbol α)}
    {row : List (Symbol α)} (h : Linked loose last? row) :
    row.IsChain fun here next => next.isUnknown → here.isUnknown := by
  induction row generalizing last? with
  | nil => exact .nil
  | cons here row ih =>
    obtain ⟨-, hrow⟩ := h
    cases row with
    | nil => exact .singleton here
    | cons next row =>
      refine .cons_cons ?_ (ih hrow)
      intro hnext
      by_contra hhere
      have hknown := isUnknown_of_joins hrow.1 (by simpa using hhere)
      simp [hknown] at hnext

namespace Token

variable {row front back : List (Placed Lexeme)} {here : Placed Lexeme}
  {tokens : List (Placed Token)}

/-- In an accepted row a character without a meaning comes first or right behind another one. -/
theorem isUnknown_getLast?_of_read (h : read row = .ok tokens) (hrow : row = front ++ here :: back)
    (hhere : here.item.isUnknown) : ∀ last ∈ front.getLast?, last.item.isUnknown := by
  intro last hlast
  obtain ⟨hne, ho, -⟩ := read_eq_ok_iff.mp h
  obtain ⟨hlinked, -⟩ := inOrder_start_iff.mp ⟨hne, ho⟩
  obtain ⟨front, rfl⟩ := List.getLast?_eq_some_iff.mp hlast
  have hchain := hlinked.isChain_unknown
  rw [hrow, List.append_assoc, List.singleton_append, List.map_append, List.map_cons,
    List.map_cons, List.isChain_append_cons_cons] at hchain
  exact hchain.2.1 hhere

theorem isUnknown_head?_of_read (h : read row = .ok tokens) (hmem : here ∈ row)
    (hhere : here.item.isUnknown) : ∃ first ∈ row.head?, first.item.isUnknown := by
  have hplain : ¬Symbol.Plain (row.map Placed.item) := by
    intro hplain
    simp [hplain _ (List.mem_map_of_mem hmem)] at hhere
  obtain ⟨character, offset, hhead, -⟩ := value_of_read_unknown .standard h hplain
  exact ⟨_, hhead, rfl⟩

/-- Behind a character without a meaning at the beginning no product is understood, so the tokens
begin with it too. -/
theorem head?_of_read {character : Char} {offset : Nat} (h : read row = .ok tokens)
    (hhead : row.head? = some ⟨.unknown character, offset⟩) :
    tokens.head? = some ⟨.unknown character, offset⟩ := by
  obtain ⟨-, -, -, -, rfl⟩ := read_eq_ok_iff.mp h
  obtain ⟨rest, rfl⟩ := List.head?_eq_some_iff.mp hhead
  rfl

end Token

/-! ## 2. The alphabet -/

namespace Lexeme

/-- The characters that lines with a value are written with. -/
def InAlphabet (character : Char) : Prop := isNumeral character ∨ character ∈ glyphs

variable {line : String} {lexeme : Lexeme} {character : Char}

/-- A lexeme with a meaning is written in the alphabet. -/
theorem WellFormed.inAlphabet (h : lexeme.WellFormed) (hknown : lexeme.isUnknown = false) :
    ∀ character ∈ lexeme.text.toList, InAlphabet character := by
  intro character hmem
  cases lexeme with
  | number text => exact .inl (h.2 character hmem)
  | operator op =>
    obtain rfl : character = op.glyph := by simpa [text, Symbol.text] using hmem
    exact .inr (by cases op <;> decide)
  | negation | opening | closing =>
    simp only [text, Symbol.text] at hmem
    obtain rfl := List.mem_singleton.mp hmem
    exact .inr (by decide)
  | unknown other => cases hknown

theorem inAlphabet_of_plain (h : Symbol.Plain ((scan line).map Placed.item)) :
    ∀ character ∈ line.toList, InAlphabet character := by
  intro character hmem
  rw [← lineOf_scan line, toList_lineOf] at hmem
  obtain ⟨run, hrun, hcharacter⟩ := List.mem_flatten.mp hmem
  obtain ⟨placed, hplaced, rfl⟩ := List.mem_map.mp hrun
  have hwf := (isScanned_scan line).wellFormed placed hplaced
  exact hwf.inAlphabet (h _ (List.mem_map_of_mem hplaced)) character hcharacter

/-- **A row begins without a meaning** when its line begins outside the alphabet. -/
theorem head?_scan_eq_unknown_iff {offset : Nat} :
    (scan line).head? = some ⟨.unknown character, offset⟩ ↔
      line.toList.head? = some character ∧ ¬InAlphabet character ∧ offset = 0 := by
  constructor
  · intro h
    obtain ⟨rest, hrow⟩ := List.head?_eq_some_iff.mp h
    obtain ⟨hline, hoffset⟩ := line_eq_of_scan (show scan line = [] ++ _ :: rest from hrow)
    have hwf : WellFormed (.unknown character) :=
      (isScanned_scan line).wellFormed ⟨.unknown character, offset⟩ (by simp [hrow])
    refine ⟨?_, ?_, hoffset.symm⟩
    · rw [hline]
      simp [lineOf, text, Symbol.text]
    · rintro (hnumeral | hglyph)
      · simp [hwf.1] at hnumeral
      · exact hwf.2 hglyph
  · rintro ⟨hfirst, houtside, rfl⟩
    obtain ⟨rest, hline⟩ := List.head?_eq_some_iff.mp hfirst
    have hcut : line = "" ++ String.singleton character ++ String.ofList rest := by
      rw [← String.toList_inj, hline]
      simp
    have hnumeral : isNumeral character = false := by
      simpa using fun h => houtside (.inl h)
    have hunknown := ofGlyph_of_notMem fun h => houtside (.inr h)
    rw [hcut, scan_around hnumeral, hunknown]
    rfl

end Lexeme

/-! ## 3. Lines -/

namespace Calculator

variable {calculator : Calculator} {line : String} {character : Char} {offset : Nat}

theorem evaluate_eq_unknownOperator_iff :
    calculator.evaluate line = .error (.run (.unknownOperator character offset)) ↔
      (∃ tokens, Calculator.tokens line = .ok tokens) ∧
        (Lexeme.scan line).head? = some ⟨.unknown character, offset⟩ := by
  rw [evaluate_eq_error_run_iff]
  constructor
  · rintro ⟨tokens, hread, hvalue⟩
    refine ⟨⟨tokens, hread⟩, ?_⟩
    have hplain : ¬Symbol.Plain ((Lexeme.scan line).map Placed.item) := by
      intro hplain
      obtain ⟨-, value, -, -, hok⟩ := Token.run_of_read_plain calculator.ranks hread hplain
      rw [hok] at hvalue
      cases hvalue
    obtain ⟨_, _, hhead, herror⟩ := Token.value_of_read_unknown calculator.ranks hread hplain
    rw [herror] at hvalue
    cases hvalue
    exact hhead
  · rintro ⟨⟨tokens, hread⟩, hhead⟩
    obtain ⟨rest, htokens⟩ := List.head?_eq_some_iff.mp (Token.head?_of_read hread hhead)
    exact ⟨tokens, hread, by rw [htokens]; rfl⟩

/-- **Characters without a meaning.**  In an accepted row each of them comes first or right behind
another one, so the row begins with one if it has any.  Whatever the ranks, a line therefore shows
the run error exactly when it is accepted and its first character is outside the alphabet; the
error is about that character, and the machine halts at its first token, before it has done
anything.  Only a line of the alphabet has a value. -/
theorem evaluate_unknown (calculator : Calculator) :
    (∀ row, (∃ tokens, Token.read row = .ok tokens) →
      (∀ front here back, row = front ++ here :: back → here.item.isUnknown →
        ∀ last ∈ front.getLast?, last.item.isUnknown) ∧
      ((∃ here ∈ row, here.item.isUnknown) → ∃ first ∈ row.head?, first.item.isUnknown)) ∧
    ∀ line,
      (∀ character offset,
        calculator.evaluate line = .error (.run (.unknownOperator character offset)) ↔
          (∃ tokens, Calculator.tokens line = .ok tokens) ∧
            line.toList.head? = some character ∧ ¬Lexeme.InAlphabet character ∧ offset = 0) ∧
      (∀ character offset,
        calculator.evaluate line = .error (.run (.unknownOperator character offset)) →
          ∃ tokens, Calculator.tokens line = .ok tokens ∧
            tokens.head? = some ⟨.unknown character, 0⟩ ∧
            Machine.start.run calculator.ranks (tokens.take 1)
              = .error (.unknownOperator character 0)) ∧
      ∀ value, calculator.evaluate line = .ok value →
        ∀ character ∈ line.toList, Lexeme.InAlphabet character := by
  constructor
  · rintro row ⟨tokens, hread⟩
    refine ⟨fun front here back hrow => Token.isUnknown_getLast?_of_read hread hrow, ?_⟩
    rintro ⟨here, hmem, hhere⟩
    exact Token.isUnknown_head?_of_read hread hmem hhere
  · intro line
    refine ⟨?_, ?_, ?_⟩
    · intro character offset
      rw [evaluate_eq_unknownOperator_iff, Lexeme.head?_scan_eq_unknown_iff]
    · intro character offset h
      obtain ⟨⟨tokens, hread⟩, hhead⟩ := evaluate_eq_unknownOperator_iff.mp h
      obtain ⟨-, -, rfl⟩ := Lexeme.head?_scan_eq_unknown_iff.mp hhead
      have hfirst := Token.head?_of_read hread hhead
      obtain ⟨rest, rfl⟩ := List.head?_eq_some_iff.mp hfirst
      exact ⟨_, hread, hfirst, rfl⟩
    · intro value h
      obtain ⟨hplain, -⟩ := denotes_of_evaluate h
      exact Lexeme.inAlphabet_of_plain hplain

/-- `x−2` is accepted and shows the run error, about the `x`; `2−-.5` has a value and is written in
the alphabet. -/
theorem evaluate_unknown_minus_two :
    (Calculator.mk .standard).evaluate "x−2" = .error (.run (.unknownOperator 'x' 0)) ∧
      ¬Lexeme.InAlphabet 'x' ∧
      (∃ tokens, Calculator.tokens "x−2" = .ok tokens ∧
        tokens.head? = some ⟨.unknown 'x', 0⟩) ∧
      (∃ first ∈ (Lexeme.scan "x−2").head?, first.item.isUnknown) ∧
      ∀ character ∈ "2−-.5".toList, Lexeme.InAlphabet character := by
  obtain ⟨hrows, hlines⟩ := evaluate_unknown ⟨.standard⟩
  have hread : ∃ tokens, Token.read (Lexeme.scan "x−2") = .ok tokens :=
    exists_eq_ok (by decide +kernel)
  have herror : (Calculator.mk .standard).evaluate "x−2"
      = .error (.run (.unknownOperator 'x' 0)) := by decide +kernel
  obtain ⟨value, hvalue⟩ : ∃ value, (Calculator.mk .standard).evaluate "2−-.5" = .ok value :=
    exists_eq_ok (by decide +kernel)
  obtain ⟨hiff, hhalts, -⟩ := hlines "x−2"
  obtain ⟨tokens, htokens, hfirst, -⟩ := hhalts 'x' 0 herror
  obtain ⟨-, -, houtside, -⟩ := (hiff 'x' 0).mp herror
  refine ⟨herror, houtside, ⟨tokens, htokens, hfirst⟩, (hrows _ hread).2 ?_,
    (hlines "2−-.5").2.2 value hvalue⟩
  have hscan : Lexeme.scan "x−2"
      = [⟨.unknown 'x', 0⟩, ⟨.operator .subtract, 1⟩, ⟨.number "2", 4⟩] := by decide +kernel
  rw [hscan]
  exact ⟨_, List.mem_cons_self, rfl⟩

end Calculator

end Reckoner
