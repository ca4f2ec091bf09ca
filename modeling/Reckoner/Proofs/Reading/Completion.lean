/-
# Rows that more lexemes can complete

A refused row is either only a beginning, or lost: whatever is written behind it, it stays refused.
The error tells which (`Token.read_error_isIncomplete_iff`).

* **Incomplete rows** are empty, or end where something has to follow, or leave a parenthesis open.
  They are completed by a number, where one is due, and a closing parenthesis for each open one.
* **Lost rows** have a lexeme that was refused for what stands on its left, on its right, or for
  itself.  All of that is still there in a longer row (`Reading.not_read_of_refused`).  The error
  may be another one then: in front of a second number `1.2.3` is no longer an invalid number but
  the second number is unexpected.
-/
import Reckoner.Proofs.Reading.Parentheses
import Reckoner.Proofs.Reading.Refusal

namespace Reckoner

/-- The errors of rows that are only a beginning. -/
def SyntaxError.isIncomplete : SyntaxError → Bool
  | .emptyExpression | .unexpectedEnd _ _ | .unclosedOpening _ => true
  | .unexpectedToken _ _ | .missingLeftOperand _ _ | .unmatchedClosing _ | .invalidNumber _ _
  | .zeroOperand _ => false

namespace Reading

variable {reading state after : Reading} {here : Placed Lexeme} {next? : Option (Placed Lexeme)}
  {row front back more : List (Placed Lexeme)} {tokens : List (Placed Token)} {error : SyntaxError}

/-! ## 1. Lost rows -/

/-- A lexeme that is lost in front of `next?` is refused too when something comes to stand behind
it there. -/
theorem not_step_of_refused (h : Refused reading here next? error)
    (hlost : error.isIncomplete = false) (more : List (Placed Lexeme)) :
    reading.step here (next?.or more.head?) ≠ .ok after := by
  intro hstep
  obtain ⟨hneighbours, hreadable, opened, hopened, -⟩ := step_eq_ok_iff.mp hstep
  cases h with
  | unexpectedEnd hleft hneeds => cases hlost
  | missingLeft hfirst hneeds => simp [neighbourError?, hfirst, hneeds] at hneighbours
  | unexpectedToken hleft hadmits =>
    have hrefused := step_eq_error_iff.mpr (Refused.unexpectedToken hleft hadmits)
    rw [Option.some_or, hrefused] at hstep
    cases hstep
  | zeroOperand hleft hzero =>
    have hrefused := step_eq_error_iff.mpr (Refused.zeroOperand hleft hzero)
    rw [Option.some_or, hrefused] at hstep
    cases hstep
  | invalidNumber _ hunreadable => simp [hunreadable] at hreadable
  | unmatchedClosing _ hnone => simp [hnone] at hopened

theorem step_of_read (h : Token.read (front ++ here :: back) = .ok tokens)
    (hfront : runBefore (some here) start front = .ok state) :
    ∃ after, state.step here back.head? = .ok after := by
  rw [Token.read_of_ne_nil (by simp), runBefore_append, List.head?_cons, Option.some_or, hfront]
    at h
  simp only [Except.bind, runBefore_cons, Option.or_none] at h
  cases hstep : state.step here back.head? with
  | ok after => exact ⟨after, rfl⟩
  | error error => rw [hstep] at h; cases h

theorem exists_runBefore_of_read (h : Token.read (front ++ here :: back) = .ok tokens) :
    ∃ state, runBefore (some here) start front = .ok state := by
  rw [Token.read_of_ne_nil (by simp), runBefore_append, List.head?_cons, Option.some_or] at h
  cases hfront : runBefore (some here) start front with
  | ok state => exact ⟨state, rfl⟩
  | error error => rw [hfront] at h; cases h

/-- **A lost row** is refused with anything behind it. -/
theorem not_read_of_refused (h : Token.read row = .error error)
    (hlost : error.isIncomplete = false) (more : List (Placed Lexeme)) :
    Token.read (row ++ more) ≠ .ok tokens := by
  intro hread
  rcases Token.read_eq_error_iff.mp h with ⟨-, rfl⟩ | hrefused | ⟨_, _, _, -, -, -, rfl⟩
  · cases hlost
  · obtain ⟨front, here, back, state, rfl, hfront, hhere⟩ := hrefused
    rw [List.append_assoc, List.cons_append] at hread
    obtain ⟨after, hstep⟩ := step_of_read hread hfront
    rw [List.head?_append] at hstep
    exact not_step_of_refused hhere hlost more hstep
  · cases hlost

/-! ## 2. Incomplete rows -/

/-- A row that has been read to its end may have a closing parenthesis behind it. -/
theorem runBefore_before_closing (h : runBefore none start row = .ok state)
    (hnext : ∀ next ∈ next?, next.item = .closing) : runBefore next? start row = .ok state := by
  obtain ⟨ho, hrest⟩ := runBefore_eq_ok_iff.mp h
  cases next? with
  | none => exact h
  | some next =>
    obtain ⟨item, offset⟩ := next
    obtain rfl : item = .closing := hnext _ rfl
    exact runBefore_eq_ok_iff.mpr ⟨ho.closing offset, hrest⟩

/-- Behind a lexeme, and in front of its like, a closing parenthesis has no problem. -/
theorem neighbourError?_of_closing {last : Lexeme} (hhere : here.item = .closing)
    (hnext : ∀ next ∈ next?, next.item = .closing) :
    neighbourError? (some last) here next? = none := by
  cases next? with
  | none => simp [neighbourError?, hhere, Symbol.needsRight]
  | some next =>
    simp [neighbourError?, hhere, hnext next rfl, Symbol.admits, Symbol.followsOperand]

theorem closing_of_mem_head?_or {closers : List (Placed Lexeme)}
    (hclosers : ∀ here ∈ closers, here.item = .closing)
    (hnext : ∀ next ∈ next?, next.item = .closing) :
    ∀ next ∈ closers.head?.or next?, next.item = .closing := by
  intro next hmem
  rcases Option.or_eq_some_iff.mp hmem with hhead | ⟨-, hlater⟩
  · exact hclosers next (List.mem_of_head? hhead)
  · exact hnext next hlater

/-- **Closing parentheses** behind whatever has been read close as many of those that are open,
the innermost first. -/
theorem runBefore_closings {last : Lexeme} {closers : List (Placed Lexeme)}
    (hlast : reading.last? = some last) (hclosers : ∀ here ∈ closers, here.item = .closing)
    (hnext : ∀ next ∈ next?, next.item = .closing)
    (hlength : closers.length ≤ reading.opened.length) :
    ∃ after, runBefore next? reading closers = .ok after ∧
      after.opened = reading.opened.drop closers.length ∧ ∃ last', after.last? = some last' := by
  induction closers generalizing reading last with
  | nil => exact ⟨reading, rfl, rfl, last, hlast⟩
  | cons here rest ih =>
    obtain ⟨hhere, hrest⟩ := List.forall_mem_cons.mp hclosers
    obtain ⟨innermost, outer, hopened⟩ : ∃ innermost outer, reading.opened = innermost :: outer :=
      List.exists_cons_of_length_pos (Nat.zero_lt_of_lt hlength)
    have hbehind := closing_of_mem_head?_or hrest hnext
    have hstep : reading.step here (rest.head?.or next?) = .ok (reading.behind [here] outer) := by
      rw [step_eq_ok_iff, hlast]
      have houter : enclose reading.opened here = some outer := by
        simp [enclose, hhere, hopened]
      exact ⟨neighbourError?_of_closing hhere hbehind, by rw [hhere]; rfl, outer, houter, rfl⟩
    have hlength' : rest.length ≤ (reading.behind [here] outer).opened.length := by
      rw [hopened] at hlength
      exact Nat.le_of_succ_le_succ hlength
    obtain ⟨after, hafter, hdrop, hlast'⟩ :=
      ih (show (reading.behind [here] outer).last? = some here.item from rfl) hrest hlength'
    refine ⟨after, ?_, ?_, hlast'⟩
    · rw [runBefore_cons, hstep]
      exact hafter
    · rw [hdrop, hopened]
      rfl

theorem runBefore_append_closings {closers : List (Placed Lexeme)} (hrow : row ≠ [])
    (h : runBefore none start row = .ok state) (hclosers : ∀ here ∈ closers, here.item = .closing)
    (hnext : ∀ next ∈ next?, next.item = .closing)
    (hlength : closers.length ≤ state.opened.length) :
    ∃ after, runBefore next? start (row ++ closers) = .ok after ∧
      after.opened = state.opened.drop closers.length ∧ ∃ last, after.last? = some last := by
  have hbehind := closing_of_mem_head?_or hclosers hnext
  obtain ⟨-, -, opened, -, rfl⟩ := runBefore_eq_ok_iff.mp h
  obtain ⟨last, hlast⟩ : ∃ last, (start.behind row opened).last? = some last := by
    cases row with
    | nil => exact absurd rfl hrow
    | cons here rest => exact exists_lastFrom here.item rest
  rw [runBefore_append, runBefore_before_closing h hbehind]
  exact runBefore_closings hlast hclosers hnext hlength

/-- A closing parenthesis for each open one. -/
def closings (opened : List Nat) : List (Placed Lexeme) := opened.map fun _ => ⟨.closing, 0⟩

/-- **Closing what is open.**  A row that has been read to its end is accepted with a closing
parenthesis for each open one. -/
theorem read_append_closings {closers : List (Placed Lexeme)} (hrow : row ≠ [])
    (h : runBefore none start row = .ok state) (hclosers : ∀ here ∈ closers, here.item = .closing)
    (hlength : closers.length = state.opened.length) :
    ∃ tokens, Token.read (row ++ closers) = .ok tokens := by
  obtain ⟨after, hafter, hopened, -⟩ : ∃ after,
      runBefore none start (row ++ closers) = .ok after ∧ _ :=
    runBefore_append_closings hrow h hclosers (by simp) (Nat.le_of_eq hlength)
  rw [hlength, List.drop_length] at hopened
  refine ⟨after.tokens.reverse, ?_⟩
  rw [Token.read_of_ne_nil (by simp [hrow]), hafter]
  simp [Except.bind, finish, hopened]

theorem read_closings (hrow : row ≠ []) (h : runBefore none start row = .ok state) :
    ∃ tokens, Token.read (row ++ closings state.opened) = .ok tokens :=
  read_append_closings hrow h (by simp [closings]) (by simp [closings])

/-- The number that stands in for an operand. -/
def one : Placed Lexeme := ⟨.number "1", 0⟩

/-- Behind a lexeme that needs something on its right a number is in order. -/
theorem step_one (hleft : reading.last? = none → here.item.needsLeft = false)
    (hneeds : here.item.needsRight) : ∃ after, reading.step here (some one) = .ok after := by
  have hadmits : here.item.admits one.item := by
    cases hitem : here.item <;> simp_all [Symbol.needsRight, one] <;> rfl
  have hreadable : here.item.isReadable := by
    cases hitem : here.item <;> simp_all [Symbol.needsRight] <;> rfl
  have hzero : ¬Lexeme.ZeroOperand here.item one.item := by simp [Lexeme.ZeroOperand, one]
  obtain ⟨opened, hopened⟩ : ∃ opened, enclose reading.opened here = some opened := by
    rw [← Option.ne_none_iff_exists']
    intro hnone
    simp [(enclose_eq_none_iff.mp hnone).1, Symbol.needsRight] at hneeds
  exact ⟨reading.behind [here] opened, step_eq_ok_iff.mpr
    ⟨neighbourError?_eq_none_iff.mpr ⟨hleft, hadmits, hzero⟩, hreadable, opened, hopened, rfl⟩⟩

/-- A row that ends where something has to follow is read to its end with a number behind it. -/
theorem runBefore_one (hfront : runBefore (some here) start front = .ok state)
    (hleft : state.last? = none → here.item.needsLeft = false) (hneeds : here.item.needsRight) :
    ∃ after, runBefore none start (front ++ [here, one]) = .ok after := by
  obtain ⟨between, hhere⟩ := step_one hleft hneeds
  have hone : between.step one none = .ok (between.behind [one] between.opened) :=
    step_eq_ok_iff.mpr ⟨rfl, by decide +kernel, between.opened, rfl, rfl⟩
  refine ⟨between.behind [one] between.opened, ?_⟩
  rw [runBefore_append, List.head?_cons, Option.some_or, hfront]
  simp only [Except.bind, runBefore_cons, List.head?_cons, List.head?_nil, Option.some_or,
    Option.none_or, hhere, hone]
  rfl

/-- **An incomplete row** is accepted with something behind it. -/
theorem exists_read_of_isIncomplete (h : Token.read row = .error error)
    (hincomplete : error.isIncomplete) :
    ∃ more, more ≠ [] ∧ ∃ tokens, Token.read (row ++ more) = .ok tokens := by
  rcases Token.read_eq_error_iff.mp h with ⟨rfl, -⟩ | hrefused | hunclosed
  · exact ⟨[one], by simp, exists_eq_ok (by decide +kernel)⟩
  · obtain ⟨front, here, back, state, rfl, hfront, hhere⟩ := hrefused
    obtain ⟨rfl, hleft, hneeds⟩ : back = [] ∧
        (state.last? = none → here.item.needsLeft = false) ∧ here.item.needsRight := by
      generalize hnext : back.head? = next? at hhere
      cases hhere with
      | unexpectedEnd hleft hneeds => exact ⟨List.head?_eq_none_iff.mp hnext, hleft, hneeds⟩
      | _ => cases hincomplete
    obtain ⟨after, hafter⟩ := runBefore_one hfront hleft hneeds
    obtain ⟨tokens, htokens⟩ := read_closings (by simp) hafter
    refine ⟨one :: closings after.opened, by simp, tokens, ?_⟩
    simpa using htokens
  · obtain ⟨state, innermost, outer, hrow, hrun, hopened, -⟩ := hunclosed
    obtain ⟨tokens, htokens⟩ := read_closings hrow hrun
    exact ⟨closings state.opened, by simp [closings, hopened], tokens, htokens⟩

end Reading

/-! ## 3. The two kinds of errors -/

/-- **Incomplete or lost.**  The error of a refused row is one of the incomplete ones exactly when
the row is accepted with more lexemes behind it.  With any other error the row is lost: however it
goes on, it is refused, and lost again. -/
theorem Token.read_error_isIncomplete_iff {row : List (Placed Lexeme)} {error : SyntaxError}
    (h : Token.read row = .error error) :
    (error.isIncomplete ↔ ∃ more, more ≠ [] ∧ ∃ tokens, Token.read (row ++ more) = .ok tokens) ∧
      (error.isIncomplete = false → ∀ more, ∃ error', Token.read (row ++ more) = .error error' ∧
        error'.isIncomplete = false) := by
  constructor
  · constructor
    · exact Reading.exists_read_of_isIncomplete h
    · rintro ⟨more, -, tokens, hread⟩
      by_contra hlost
      exact Reading.not_read_of_refused h (by simpa using hlost) more hread
  · intro hlost more
    cases hread : Token.read (row ++ more) with
    | ok tokens => exact absurd hread (Reading.not_read_of_refused h hlost more)
    | error error' =>
      refine ⟨error', rfl, ?_⟩
      by_contra hincomplete
      obtain ⟨more', -, tokens, hread'⟩ :=
        Reading.exists_read_of_isIncomplete hread (by simpa using hincomplete)
      rw [List.append_assoc] at hread'
      exact Reading.not_read_of_refused h hlost _ hread'

/-- The row of `2(-` is incomplete and can be completed; the row of `2×0` is lost, also with a
parenthesis behind it. -/
theorem Token.read_error_isIncomplete_both :
    (∃ more, more ≠ [] ∧ ∃ tokens, Token.read (Lexeme.scan "2(-" ++ more) = .ok tokens) ∧
      ∃ error, Token.read (Lexeme.scan "2×0" ++ [⟨.closing, 4⟩]) = .error error ∧
        error.isIncomplete = false := by
  have hopen : Token.read (Lexeme.scan "2(-") = .error (.unexpectedEnd "-" 2) := by decide +kernel
  have hzero : Token.read (Lexeme.scan "2×0") = .error (.zeroOperand 3) := by decide +kernel
  exact ⟨(Token.read_error_isIncomplete_iff hopen).1.mp rfl,
    (Token.read_error_isIncomplete_iff hzero).2 rfl _⟩

end Reckoner
