/-
# What is written for a line is written on lines

Everything a session writes for a line is a row of single lines (`Entry.oneLine_of_mem_events`).
Much of it is taken from the line itself: a fault names a text of the line, and a token stream
shows a character without a meaning as it is.  So the line must have no line feed in it, and then
none gets into what is written.

* **Faults** name texts that stand in the line (`Fault.PointsAt`).
* **Tokens** are those of the line's lexemes, and products that were understood
  (`Lexeme.mem_of_mem_spellProductsFrom`).
* **Numbers** are written with digits and points, or with words.
-/
import Reckoner.Session
import Reckoner.Proofs.Calculator.Pointing
import Reckoner.Proofs.Decimal.Text
import Reckoner.Proofs.Reading.Products
import Reckoner.Proofs.Text.Lines

namespace Reckoner

open Text

/-! ## 1. Texts of the line -/

theorem StandsAt.oneLine {line text : String} {offset : Nat} (h : StandsAt line text offset)
    (hline : OneLine line) : OneLine text := by
  obtain ⟨front, back, rfl, -⟩ := h
  exact (oneLine_append.mp (oneLine_append.mp hline).1).2

/-! ## 2. Numbers and tokens -/

theorem oneLine_decimal (decimal : Decimal) : OneLine (String.ofList decimal.text) := by
  intro hfeed
  rw [String.toList_ofList] at hfeed
  rcases decimal.isPlain_text.characters _ hfeed with hdigit | hpoint
  · cases hdigit
  · cases hpoint

/-- A number is written on one line, if the words for what is no plain decimal are. -/
theorem Binary64.oneLine_write {spelling : Spelling} (hnan : OneLine spelling.nan)
    (hinfinity : OneLine spelling.infinity) (x : Binary64) : OneLine (x.write spelling) := by
  have hsign : ∀ negative, OneLine (signText negative) := by decide
  cases x with
  | nan => exact hnan
  | infinite negative => exact oneLine_append.mpr ⟨hsign negative, hinfinity⟩
  | finite negative quanta h => exact oneLine_append.mpr ⟨hsign _, oneLine_decimal _⟩

namespace Token

/-- The text of a token is written on one line if that of its lexeme is. -/
theorem oneLine_text {lexeme : Lexeme} (h : OneLine lexeme.text) : OneLine (text lexeme.token) := by
  cases lexeme with
  | number number => exact Binary64.oneLine_write (by decide) (by decide) _
  | operator | negation | opening | closing | unknown => exact h

/-- The token stream of a line is written on one line. -/
theorem oneLine_streamText {line : String} (hline : OneLine line) {tokens : List (Placed Token)}
    (h : read (Lexeme.scan line) = .ok tokens) : OneLine (streamText tokens) := by
  obtain ⟨-, -, -, -, rfl⟩ := read_eq_ok_iff.mp h
  refine oneLine_intercalate (by decide) ?_
  intro text hmem
  obtain ⟨token, htoken, rfl⟩ := List.mem_map.mp hmem
  obtain ⟨here, hhere, rfl⟩ := List.mem_map.mp htoken
  have hlexeme : OneLine here.item.text := by
    rcases Lexeme.mem_of_mem_spellProductsFrom hhere with hrow | hproduct
    · exact (Lexeme.names_of_mem hrow).stands.oneLine hline
    · rw [hproduct]
      decide
  exact oneLine_text hlexeme

end Token

/-! ## 3. Faults -/

theorem oneLine_about (offset : Nat) {words : String} (h : OneLine words) :
    OneLine ("Error at offset " ++ toString offset ++ words) := by
  rw [oneLine_append, oneLine_append]
  exact ⟨⟨by decide, oneLine_toString offset⟩, h⟩

theorem oneLine_quoting (offset : Nat) {words text rest : String} (hwords : OneLine words)
    (htext : OneLine text) (hrest : OneLine rest) :
    OneLine ("Error at offset " ++ toString offset ++ words ++ text ++ rest) := by
  rw [oneLine_append, oneLine_append]
  exact ⟨⟨oneLine_about offset hwords, htext⟩, hrest⟩

/-- **A fault is worded on one line** if it is about a line. -/
theorem Fault.PointsAt.oneLine_message {line : String} {fault : Fault} (h : fault.PointsAt line)
    (hline : OneLine line) : OneLine fault.message := by
  have hnamed : ∀ {text offset}, Names line text offset → OneLine text := by
    intro text offset hnames
    exact hnames.stands.oneLine hline
  cases fault with
  | form error =>
    cases error with
    | emptyExpression => exact of_decide_eq_true rfl
    | unexpectedToken text offset =>
      exact oneLine_quoting offset (by decide) (hnamed h) (by decide)
    | unexpectedEnd text offset =>
      exact oneLine_quoting offset (by decide) (hnamed h.1) (by decide)
    | missingLeftOperand text offset =>
      exact oneLine_quoting offset (by decide) (hnamed h.1) (by decide)
    | invalidNumber text offset =>
      exact oneLine_quoting offset (by decide) (hnamed h.1) (by decide)
    | unmatchedClosing offset => exact oneLine_about offset (by decide)
    | unclosedOpening offset => exact oneLine_about offset (by decide)
    | zeroOperand offset => exact oneLine_about offset (by decide)
  | run error =>
    cases error with
    | unknownOperator character offset =>
      exact oneLine_quoting offset (by decide) (hnamed h.1) (by decide)
    | operandUnderflow | nothingToApply => exact h.elim

theorem FaultKind.oneLine_label (kind : FaultKind) : OneLine kind.label := by
  cases kind <;> decide

/-! ## 4. Entries -/

/-- The line that is written. -/
def Event.line : Event → String
  | .output line | .complaint line | .note line => line

variable {tokens : Bool} {line shown : String} {fault : Fault}

theorem oneLine_of_answer (hline : OneLine line) (h : answer tokens line = .ok shown) :
    OneLine shown := by
  cases tokens with
  | true =>
    cases hread : Calculator.tokens line with
    | ok stream =>
      obtain rfl : Token.streamText stream = shown := by
        simpa [answer, hread, Except.mapError, Except.map] using h
      exact Token.oneLine_streamText hline hread
    | error error => simp [answer, hread, Except.mapError, Except.map] at h
  | false =>
    cases hvalue : ({} : Calculator).evaluate line with
    | ok value =>
      obtain rfl : value.write .screen = shown := by
        simpa [answer, hvalue, Except.map] using h
      exact Binary64.oneLine_write (by decide) (by decide) value
    | error fault => simp [answer, hvalue, Except.map] at h

/-- A line that is not answered has a fault that is about it. -/
theorem pointsAt_of_answer (h : answer tokens line = .error fault) : fault.PointsAt line := by
  cases tokens with
  | true =>
    cases hread : Calculator.tokens line with
    | ok stream => simp [answer, hread, Except.mapError, Except.map] at h
    | error error =>
      obtain rfl : Fault.form error = fault := by
        simpa [answer, hread, Except.mapError, Except.map] using h
      exact Token.pointsAt_of_read hread
  | false =>
    have hfault : ({} : Calculator).evaluate line = .error fault := by
      cases hvalue : ({} : Calculator).evaluate line with
      | ok value => simp [answer, hvalue, Except.map] at h
      | error error => simpa [answer, hvalue, Except.map] using h
    cases fault with
    | form error => exact Token.pointsAt_of_read (Calculator.evaluate_eq_error_form_iff.mp hfault)
    | run error => exact Calculator.pointsAt_of_run hfault

namespace Entry

/-- A line is answered without its blanks, unless it has nothing else. -/
theorem events_line (tokens : Bool) (line : String) :
    events { tokens } (.line line)
      = if Text.trim line = "" then [] else answerEvents (answer tokens (Text.trim line)) := by
  simp [events]

/-- **Whatever is written for a line** takes up lines of its own. -/
theorem oneLine_of_mem_events (hline : OneLine line) {event : Event}
    (h : event ∈ events { tokens } (.line line)) : OneLine event.line := by
  rw [events_line] at h
  split at h
  · cases h
  · cases hanswer : answer tokens (Text.trim line) with
    | ok shown =>
      rw [hanswer] at h
      obtain rfl := List.mem_singleton.mp h
      exact oneLine_of_answer hline.trim hanswer
    | error fault =>
      rw [hanswer] at h
      rcases List.mem_pair.mp h with rfl | rfl
      · exact fault.kind.oneLine_label
      · exact (pointsAt_of_answer hanswer).oneLine_message hline.trim

end Entry

end Reckoner
