/-
# Where reading stops, and why

`Reckoner.Proofs.Reading.Acceptance` says when a row is accepted.  This module says what happens to
all other rows.

* **One lexeme** is refused for one of six reasons (`Reading.Refused`), each with an error of its
  own; `Reading.step_eq_error_iff` says that there are no others.
* **A row** is refused at its first such lexeme, all in front of it having been read
  (`Reading.runBefore_eq_error_iff`).
* **A whole row** is refused because it is empty, at one of its lexemes, or behind all of them,
  where a parenthesis is still open (`Token.read_eq_error_iff`).
-/
import Reckoner.Proofs.Reading.Grammar

namespace Reckoner

namespace Reading

variable {reading after : Reading} {last? : Option Lexeme} {here next : Placed Lexeme}
  {next? : Option (Placed Lexeme)} {row : List (Placed Lexeme)} {error : SyntaxError}

/-! ## 1. One lexeme -/

/-- When a lexeme is refused, and with which error. -/
inductive Refused (reading : Reading) (here : Placed Lexeme) :
    Option (Placed Lexeme) → SyntaxError → Prop where
  | missingLeft {next? : Option (Placed Lexeme)} (hfirst : reading.last? = none)
    (hneeds : here.item.needsLeft) :
    Refused reading here next? (.missingLeftOperand here.item.text here.offset)
  | unexpectedEnd (hleft : reading.last? = none → here.item.needsLeft = false)
    (hneeds : here.item.needsRight) :
    Refused reading here none (.unexpectedEnd here.item.text here.offset)
  | unexpectedToken {next : Placed Lexeme}
    (hleft : reading.last? = none → here.item.needsLeft = false)
    (hadmits : here.item.admits next.item = false) :
    Refused reading here (some next) (.unexpectedToken next.item.text next.offset)
  | zeroOperand {next : Placed Lexeme}
    (hleft : reading.last? = none → here.item.needsLeft = false)
    (hzero : Lexeme.ZeroOperand here.item next.item) :
    Refused reading here (some next) (.zeroOperand next.offset)
  | invalidNumber {next? : Option (Placed Lexeme)}
    (hneighbours : neighbourError? reading.last? here next? = none)
    (hreadable : here.item.isReadable = false) :
    Refused reading here next? (.invalidNumber here.item.text here.offset)
  | unmatchedClosing {next? : Option (Placed Lexeme)}
    (hneighbours : neighbourError? reading.last? here next? = none)
    (hopened : enclose reading.opened here = none) :
    Refused reading here next? (.unmatchedClosing here.offset)

theorem enclose_eq_none_iff {opened : List Nat} :
    enclose opened here = none ↔ here.item = .closing ∧ opened = [] := by
  obtain ⟨item, offset⟩ := here
  cases item <;> cases opened <;> simp [enclose]

theorem admits_of_zeroOperand {here next : Lexeme} (h : Lexeme.ZeroOperand here next) :
    here.admits next := by
  obtain ⟨⟨op, rfl⟩, rfl⟩ := h
  rfl

theorem refused_of_neighbourError? (h : neighbourError? reading.last? here next? = some error) :
    Refused reading here next? error := by
  unfold neighbourError? at h
  split at h
  next hmissing =>
    cases h
    simp only [Bool.and_eq_true, Option.isNone_iff_eq_none] at hmissing
    exact .missingLeft hmissing.2 hmissing.1
  next hpresent =>
    have hleft : reading.last? = none → here.item.needsLeft = false := by
      intro hnone
      simpa [hnone] using hpresent
    split at h
    · split at h
      next hright =>
        cases h
        exact .unexpectedEnd hleft hright
      next => cases h
    · split at h
      next hadmits =>
        cases h
        exact .unexpectedToken hleft (by simpa using hadmits)
      next =>
        split at h
        next op hitem =>
          split at h
          next hzero =>
            cases h
            exact .zeroOperand hleft ⟨⟨op, hitem⟩, isLiteralZero_iff.mp hzero⟩
          next => cases h
        next => cases h

/-- **Why a lexeme is refused.** -/
theorem step_eq_error_iff :
    reading.step here next? = .error error ↔ Refused reading here next? error := by
  constructor
  · intro h
    unfold step at h
    split at h
    next hneighbours =>
      cases h
      exact refused_of_neighbourError? hneighbours
    next hneighbours =>
      rw [take_eq] at h
      split at h
      next =>
        cases hopened : enclose reading.opened here <;> rw [hopened] at h <;> cases h
        exact .unmatchedClosing hneighbours hopened
      next hreadable =>
        cases h
        exact .invalidNumber hneighbours (by simpa using hreadable)
  · intro h
    have hpresent : (reading.last? = none → here.item.needsLeft = false) →
        (here.item.needsLeft && reading.last?.isNone) = false := by
      intro hleft
      cases hlast : reading.last? with
      | none => simp [hleft hlast]
      | some last => simp
    cases h with
    | missingLeft hfirst hneeds => simp [step, neighbourError?, hfirst, hneeds]
    | unexpectedEnd hleft hneeds => simp [step, neighbourError?, hpresent hleft, hneeds]
    | unexpectedToken hleft hadmits => simp [step, neighbourError?, hpresent hleft, hadmits]
    | zeroOperand hleft hzero =>
      have hadmits := admits_of_zeroOperand hzero
      obtain ⟨⟨op, hop⟩, hnext⟩ := hzero
      rw [hop] at hadmits hpresent
      simp [step, neighbourError?, hop, hpresent (by simpa [hop] using hleft), hadmits,
        isLiteralZero_iff.mpr hnext]
    | invalidNumber hneighbours hreadable => simp [step, hneighbours, take_eq, hreadable]
    | unmatchedClosing hneighbours hopened =>
      have hreadable : here.item.isReadable := by rw [(enclose_eq_none_iff.mp hopened).1]; rfl
      simp [step, hneighbours, take_eq, hreadable, hopened]

/-! ## 2. A row -/

/-- **A row is refused at its first lexeme that is.** -/
theorem runBefore_eq_error_iff : runBefore next? reading row = .error error ↔
    ∃ front here back state, row = front ++ here :: back ∧
      runBefore (some here) reading front = .ok state ∧
        Refused state here (back.head?.or next?) error := by
  induction row generalizing reading with
  | nil => simp [runBefore]
  | cons first rest ih =>
    rw [runBefore_cons]
    constructor
    · intro h
      cases hstep : reading.step first (rest.head?.or next?) with
      | error error' =>
        rw [hstep] at h
        cases h
        exact ⟨[], first, rest, reading, rfl, rfl, step_eq_error_iff.mp hstep⟩
      | ok between =>
        rw [hstep] at h
        obtain ⟨front, here, back, state, rfl, hfront, hhere⟩ := ih.mp h
        refine ⟨first :: front, here, back, state, rfl, ?_, hhere⟩
        have hnext : front.head?.or (some here) = (front ++ here :: back).head?.or next? := by
          cases front <;> rfl
        rw [runBefore_cons, hnext, hstep]
        exact hfront
    · rintro ⟨front, here, back, state, hsplit, hfront, hhere⟩
      rcases front with _ | ⟨first', front⟩
      · obtain ⟨rfl, rfl⟩ := List.cons.inj hsplit
        cases hfront
        rw [step_eq_error_iff.mpr hhere]
        rfl
      · obtain ⟨rfl, rfl⟩ := List.cons.inj hsplit
        have hnext : front.head?.or (some here) = (front ++ here :: back).head?.or next? := by
          cases front <;> rfl
        rw [runBefore_cons, hnext] at hfront
        cases hstep : reading.step first ((front ++ here :: back).head?.or next?) with
        | error error' => rw [hstep] at hfront; cases hfront
        | ok between =>
          rw [hstep] at hfront
          exact ih.mpr ⟨front, here, back, state, rfl, hfront, hhere⟩

theorem finish_eq_error_iff : reading.finish = .error error ↔
    ∃ innermost outer, reading.opened = innermost :: outer ∧
      error = .unclosedOpening innermost := by
  unfold finish
  cases reading.opened with
  | nil => simp
  | cons innermost outer => simp [eq_comm]

end Reading

/-! ## 3. A whole row -/

/-- **Why a row is refused**: it is empty, one of its lexemes is refused, or a parenthesis is open
behind all of them. -/
theorem Token.read_eq_error_iff {row : List (Placed Lexeme)} {error : SyntaxError} :
    Token.read row = .error error ↔
      (row = [] ∧ error = .emptyExpression) ∨
      (∃ front here back state, row = front ++ here :: back ∧
        Reading.runBefore (some here) Reading.start front = .ok state ∧
          Reading.Refused state here back.head? error) ∨
      ∃ state innermost outer, row ≠ [] ∧ Reading.runBefore none Reading.start row = .ok state ∧
        state.opened = innermost :: outer ∧ error = .unclosedOpening innermost := by
  have hlexeme : Reading.runBefore none Reading.start row = .error error ↔ _ :=
    Reading.runBefore_eq_error_iff
  simp only [Option.or_none] at hlexeme
  rw [← hlexeme]
  by_cases hrow : row = []
  · subst hrow
    simp [Token.read, Reading.runBefore, eq_comm]
  · rw [Token.read_of_ne_nil hrow]
    cases hrun : Reading.runBefore none Reading.start row with
    | error error' => simp [hrow, Except.bind]
    | ok state => simpa [hrow, Except.bind] using Reading.finish_eq_error_iff

end Reckoner
