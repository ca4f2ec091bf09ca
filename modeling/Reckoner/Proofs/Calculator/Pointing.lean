/-
# Faults point at the text they are about

A fault comes with the offset of a symbol, taken now from the lexeme at hand, now from the next
one, from the parentheses that are open, or from the token at which the machine halts.  Whichever
it is, a lexeme of the line begins there, and it has the text that the fault names
(`Calculator.fault_pointsAt`).

* **From rows to lines.**  Every offset of a scanned row is one of its line: the text of the lexeme
  stands there (`Lexeme.names_of_mem`), and that of a number is a whole run of digits and points
  (`Lexeme.isRunAt_of_scan`).
* **Syntax errors** are about the lexeme that was refused or the one behind it
  (`Reading.Refused.pointsAt`), or about an opening parenthesis
  (`Reading.mem_row_of_mem_opened`).
* **Run errors** are about the first character of the line.
-/
import Reckoner.Proofs.Lexeme.Rows
import Reckoner.Proofs.Machine.Safety
import Reckoner.Proofs.Reading.Parentheses
import Reckoner.Proofs.Reading.Refusal

namespace Reckoner

/-! ## 1. Texts in a line -/

/-- A text stands in a line at an offset, counted in bytes. -/
def StandsAt (line text : String) (offset : Nat) : Prop :=
  ∃ front back, line = front ++ text ++ back ∧ front.utf8ByteSize = offset

/-- A text of digits and points stands in a line with none of them beside it. -/
def IsRunAt (line text : String) (offset : Nat) : Prop :=
  text ≠ "" ∧ (∀ character ∈ text.toList, Lexeme.isNumeral character) ∧
    ∃ front back, line = front ++ text ++ back ∧ front.utf8ByteSize = offset ∧
      (∀ character ∈ front.toList.getLast?, Lexeme.isNumeral character = false) ∧
      ∀ character ∈ back.toList.head?, Lexeme.isNumeral character = false

/-- A lexeme of the line begins at the offset, within the line, and this is its text. -/
structure Names (line text : String) (offset : Nat) : Prop where
  lexeme : ∃ placed ∈ Lexeme.scan line, placed.offset = offset ∧ placed.item.text = text
  stands : StandsAt line text offset
  inside : offset < line.utf8ByteSize

namespace Lexeme

variable {line text : String} {here next : Placed Lexeme} {front back : List (Placed Lexeme)}

theorem names_of_mem (h : here ∈ scan line) : Names line here.item.text here.offset where
  lexeme := ⟨here, h, rfl, rfl⟩
  stands := by
    obtain ⟨front, back, hrow⟩ := List.append_of_mem h
    obtain ⟨hline, hoffset⟩ := line_eq_of_scan hrow
    exact ⟨lineOf front, lineOf back, hline, hoffset⟩
  inside := offset_lt_of_mem_scan h

/-- The text of a number is a whole run. -/
theorem isRunAt_of_scan (h : scan line = front ++ here :: back) (hitem : here.item = .number text) :
    IsRunAt line text here.offset := by
  have hscanned := isScanned_scan line
  have hwf : WellFormed (.number text) := hitem ▸ hscanned.wellFormed here (by simp [h])
  have hnumber : here.item.isNumber := by rw [hitem]; rfl
  rw [h] at hscanned
  obtain ⟨hline, hoffset⟩ := line_eq_of_scan h
  rw [hitem] at hline
  exact ⟨hwf.1, hwf.2, lineOf front, lineOf back, hline, hoffset,
    hscanned.isNumeral_getLast? hnumber, hscanned.isNumeral_head? hnumber⟩

/-- Two neighbours of a row stand side by side in the line. -/
theorem line_eq_of_scan_pair (h : scan line = front ++ here :: next :: back) :
    line = lineOf front ++ here.item.text ++ next.item.text ++ lineOf back ∧
      (lineOf front ++ here.item.text).utf8ByteSize = next.offset := by
  have hrow : scan line = (front ++ [here]) ++ next :: back := by simp [h]
  have hfront : lineOf (front ++ [here]) = lineOf front ++ here.item.text := by
    simp [lineOf]
  rw [← hfront]
  exact line_eq_of_scan hrow

end Lexeme

/-! ## 2. What a fault says about its line -/

/-- A fault is about the line: the text that it names stands at its offset, and is what the fault
takes it for. -/
def Fault.PointsAt (line : String) : Fault → Prop
  | .form .emptyExpression => line = ""
  | .form (.unexpectedToken text offset) => Names line text offset
  | .form (.unexpectedEnd text offset) =>
    Names line text offset ∧ offset + text.utf8ByteSize = line.utf8ByteSize
  | .form (.missingLeftOperand text offset) => Names line text offset ∧ offset = 0
  | .form (.unmatchedClosing offset) => Names line ")" offset
  | .form (.unclosedOpening offset) => Names line "(" offset
  | .form (.invalidNumber text offset) =>
    Names line text offset ∧ IsRunAt line text offset ∧ Binary64.ofText? text = none
  | .form (.zeroOperand offset) =>
    Names line "0" offset ∧ IsRunAt line "0" offset ∧
      ∃ op : Operator, ∃ front back, line = front ++ String.singleton op.glyph ++ "0" ++ back ∧
        (front ++ String.singleton op.glyph).utf8ByteSize = offset
  | .run (.unknownOperator character offset) =>
    Names line (String.singleton character) offset ∧ offset = 0
  | .run .operandUnderflow | .run .nothingToApply => False

/-! ## 3. Syntax errors -/

namespace Reading

variable {line : String} {reading state : Reading} {here : Placed Lexeme}
  {front back row : List (Placed Lexeme)} {error : SyntaxError}

theorem eq_nil_of_lastFrom_eq_none (h : lastFrom none row = none) : row = [] := by
  cases row with
  | nil => rfl
  | cons here rest =>
    obtain ⟨last, hlast⟩ := exists_lastFrom here.item rest
    exact absurd (hlast.symm.trans h) (by simp)

/-- A parenthesis that is open behind a lexeme was open in front of it, or is that lexeme. -/
theorem mem_of_mem_enclose {opened inside : List Nat} {offset : Nat}
    (h : enclose opened here = some inside) (hmem : offset ∈ inside) :
    offset ∈ opened ∨ here = ⟨.opening, offset⟩ := by
  obtain ⟨item, position⟩ := here
  cases item with
  | opening =>
    obtain rfl : position :: opened = inside := by simpa [enclose] using h
    rcases List.mem_cons.mp hmem with rfl | hopened
    · exact .inr rfl
    · exact .inl hopened
  | closing =>
    cases opened with
    | nil => cases h
    | cons innermost outer =>
      obtain rfl : outer = inside := by simpa [enclose] using h
      exact .inl (List.mem_cons_of_mem innermost hmem)
  | number | operator | negation | unknown =>
    obtain rfl : opened = inside := by simpa [enclose] using h
    exact .inl hmem

/-- A parenthesis that is open behind a row was open in front of it or stands in it. -/
theorem mem_row_of_mem_opened {opened opened' : List Nat} {offset : Nat}
    (h : row.foldlM enclose opened = some opened') (hmem : offset ∈ opened') :
    offset ∈ opened ∨ ⟨.opening, offset⟩ ∈ row := by
  induction row generalizing opened with
  | nil =>
    obtain rfl : opened = opened' := by simpa using h
    exact .inl hmem
  | cons here rest ih =>
    obtain ⟨inside, hinside, hrest⟩ : ∃ inside, enclose opened here = some inside ∧
        rest.foldlM enclose inside = some opened' := by
      simpa [Option.bind_eq_some_iff] using h
    rcases ih hrest with hin | hin
    · rcases mem_of_mem_enclose hinside hin with hopened | rfl
      · exact .inl hopened
      · exact .inr List.mem_cons_self
    · exact .inr (List.mem_cons_of_mem here hin)

/-- A refused lexeme is pointed at, or the one behind it. -/
theorem Refused.pointsAt (h : Refused state here back.head? error)
    (hrow : Lexeme.scan line = front ++ here :: back)
    (hfront : runBefore (some here) start front = .ok state) :
    (Fault.form error).PointsAt line := by
  have hhere : Names line here.item.text here.offset := Lexeme.names_of_mem (by simp [hrow])
  generalize hnext : back.head? = next? at h
  cases h with
  | missingLeft hfirst hneeds =>
    obtain ⟨-, -, opened, -, rfl⟩ := runBefore_eq_ok_iff.mp hfront
    obtain rfl : front = [] := eq_nil_of_lastFrom_eq_none hfirst
    exact ⟨hhere, (Lexeme.line_eq_of_scan hrow).2.symm⟩
  | unexpectedEnd hleft hneeds =>
    obtain rfl : back = [] := List.head?_eq_none_iff.mp hnext
    obtain ⟨hline, hoffset⟩ := Lexeme.line_eq_of_scan hrow
    refine ⟨hhere, ?_⟩
    rw [hline, ← hoffset]
    simp [Lexeme.lineOf]
  | @unexpectedToken next hleft hadmits =>
    have hmem : next ∈ Lexeme.scan line := by
      rw [hrow]
      exact List.mem_append_right _ (List.mem_cons_of_mem _ (List.mem_of_head? hnext))
    exact Lexeme.names_of_mem hmem
  | @zeroOperand next hleft hzero =>
    obtain ⟨⟨op, hop⟩, hnumber⟩ := hzero
    obtain ⟨back, rfl⟩ : ∃ rest, back = next :: rest := List.head?_eq_some_iff.mp hnext
    have hzero : Names line next.item.text next.offset := Lexeme.names_of_mem (by simp [hrow])
    have hrun : Lexeme.scan line = (front ++ [here]) ++ next :: back := by simp [hrow]
    obtain ⟨hline, hoffset⟩ := Lexeme.line_eq_of_scan_pair hrow
    rw [hop, hnumber] at hline
    rw [hop] at hoffset
    rw [hnumber] at hzero
    exact ⟨hzero, Lexeme.isRunAt_of_scan hrun hnumber, op, _, _, hline, hoffset⟩
  | invalidNumber _ hreadable =>
    cases hitem : here.item with
    | number text =>
      have hunreadable : Binary64.ofText? text = none := by
        simpa [hitem, Lexeme.isReadable] using hreadable
      rw [hitem] at hhere
      exact ⟨hhere, Lexeme.isRunAt_of_scan hrow hitem, hunreadable⟩
    | _ => rw [hitem] at hreadable; cases hreadable
  | unmatchedClosing _ hopened =>
    rw [(enclose_eq_none_iff.mp hopened).1] at hhere
    exact hhere

end Reading

/-- **A syntax error points at what it is about.** -/
theorem Token.pointsAt_of_read {line : String} {error : SyntaxError}
    (h : Token.read (Lexeme.scan line) = .error error) : (Fault.form error).PointsAt line := by
  rcases Token.read_eq_error_iff.mp h with ⟨hrow, rfl⟩ | hrefused | hunclosed
  · show line = ""
    rw [← Lexeme.lineOf_scan line, hrow]
    rfl
  · obtain ⟨front, here, back, state, hrow, hfront, hhere⟩ := hrefused
    exact hhere.pointsAt hrow hfront
  · obtain ⟨state, innermost, outer, -, hrun, hopened, rfl⟩ := hunclosed
    obtain ⟨-, -, opened, hfold, rfl⟩ := Reading.runBefore_eq_ok_iff.mp hrun
    rw [Reading.behind_opened] at hopened
    have hmem : innermost ∈ opened := by simp [hopened]
    rcases Reading.mem_row_of_mem_opened hfold hmem with hnone | hopening
    · cases hnone
    · exact Lexeme.names_of_mem hopening

/-! ## 4. Lines -/

namespace Calculator

variable {calculator : Calculator} {line : String}

theorem evaluate_eq_error_form_iff {error : SyntaxError} :
    calculator.evaluate line = .error (.form error) ↔
      Token.read (Lexeme.scan line) = .error error := by
  rw [evaluate_eq_bind]
  cases hread : Token.read (Lexeme.scan line) with
  | error error' => simp [Except.bind, Except.mapError]
  | ok tokens =>
    cases hvalue : Token.value calculator.ranks tokens <;>
      simp [Except.bind, Except.mapError, hvalue]

/-- A run error points at the first character of the line. -/
theorem pointsAt_of_run {error : RunError}
    (h : calculator.evaluate line = .error (.run error)) : (Fault.run error).PointsAt line := by
  obtain ⟨tokens, hread, hvalue⟩ := evaluate_eq_error_run_iff.mp h
  by_cases hplain : Symbol.Plain ((Lexeme.scan line).map Placed.item)
  · obtain ⟨machine, value, -, -, hok⟩ := Token.run_of_read_plain calculator.ranks hread hplain
    rw [hok] at hvalue
    cases hvalue
  · obtain ⟨character, offset, hhead, hunknown⟩ :=
      Token.value_of_read_unknown calculator.ranks hread hplain
    rw [hunknown] at hvalue
    cases hvalue
    obtain ⟨rest, hrow⟩ := List.head?_eq_some_iff.mp hhead
    have hfirst : Lexeme.scan line = [] ++ ⟨.unknown character, offset⟩ :: rest := hrow
    have hmem : ⟨.unknown character, offset⟩ ∈ Lexeme.scan line := by
      rw [hrow]
      exact List.mem_cons_self
    exact ⟨Lexeme.names_of_mem hmem, (Lexeme.line_eq_of_scan hfirst).2.symm⟩

/-- **Faults point at the text they are about.**  Whatever the ranks, a fault of a line names the
text of a lexeme that begins at the fault's offset: the operator or parenthesis that has no left
operand begins the line, what has nothing behind it ends the line, what is no number is a whole run
of digits and points, the zero behind an operator is one too, and the character without a meaning
comes first.  Only the empty line has a fault without an offset. -/
theorem fault_pointsAt (calculator : Calculator) (line : String) :
    (∀ fault, calculator.evaluate line = .error fault → fault.PointsAt line) ∧
      (calculator.evaluate line = .error (.form .emptyExpression) ↔ line = "") := by
  have hpoints : ∀ fault, calculator.evaluate line = .error fault → fault.PointsAt line := by
    intro fault h
    cases fault with
    | form error => exact Token.pointsAt_of_read (evaluate_eq_error_form_iff.mp h)
    | run error => exact pointsAt_of_run h
  refine ⟨hpoints, hpoints _, ?_⟩
  rintro rfl
  rfl

/-- In `2×(3÷0` the zero is at fault; it stands behind eight bytes. -/
theorem fault_pointsAt_zero :
    (Calculator.mk .standard).evaluate "2×(3÷0" = .error (.form (.zeroOperand 7)) ∧
      (Fault.form (.zeroOperand 7)).PointsAt "2×(3÷0" := by
  have hfault : (Calculator.mk .standard).evaluate "2×(3÷0" = .error (.form (.zeroOperand 7)) := by
    decide +kernel
  exact ⟨hfault, (fault_pointsAt ⟨.standard⟩ "2×(3÷0").1 _ hfault⟩

end Calculator

end Reckoner
