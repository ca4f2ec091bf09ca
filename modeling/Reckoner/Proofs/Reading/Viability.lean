/-
# The leftmost lexeme that ruins a row

A row is *viable* when something can be written behind it, or nothing has to be, so that it is
accepted.  A lost row stops being viable at one of its lexemes, and the error should mark that one.

It does (`Token.read_error_leftmost`), with one exception.  A lexeme is checked against its
neighbours before anything else.  So where a lexeme is at fault by itself, being a number that
cannot be read or a closing parenthesis too many, and the next one is not admitted behind it, the
next one is marked although the row was ruined one lexeme earlier: in `1)2` it is the `2`, in
`1.2.3x` the `x`.

* **What has been read is viable** (`Reading.viable_concat`): a number where an operand is due and a
  closing parenthesis for each open one complete it.
* **A lexeme that is at fault by itself** is so whatever comes behind it
  (`Reading.not_viable_of_atFault`), and so is one that does not admit the next
  (`Reading.not_viable_of_refused`).
-/
import Reckoner.Proofs.Reading.Completion

namespace Reckoner

/-! ## 1. The lexeme that an error marks -/

namespace SyntaxError

/-- The errors that are about one lexeme inside a row, and not about where the row begins or
ends. -/
def marksOne : SyntaxError → Bool
  | .unexpectedToken _ _ | .unmatchedClosing _ | .invalidNumber _ _ | .zeroOperand _ => true
  | .emptyExpression | .unexpectedEnd _ _ | .missingLeftOperand _ _ | .unclosedOpening _ => false

/-- The lexeme that such an error is about, with its text and offset. -/
def Marks : SyntaxError → Placed Lexeme → Prop
  | .unexpectedToken text offset, here => here.item.text = text ∧ here.offset = offset
  | .unmatchedClosing offset, here => here = ⟨.closing, offset⟩
  | .invalidNumber text offset, here => here = ⟨.number text, offset⟩
  | .zeroOperand offset, here => here = ⟨.number "0", offset⟩
  | _, _ => False

variable {error : SyntaxError} {here there : Placed Lexeme}

theorem isIncomplete_of_marksOne (h : error.marksOne) : error.isIncomplete = false := by
  cases error <;> first | rfl | cases h

theorem Marks.offset_eq (h : error.Marks here) (h' : error.Marks there) :
    there.offset = here.offset := by
  cases error with
  | unexpectedToken text offset => exact h'.2.trans h.2.symm
  | unmatchedClosing offset | invalidNumber text offset | zeroOperand offset =>
    obtain rfl : here = _ := h
    obtain rfl : there = _ := h'
    rfl
  | _ => exact h.elim

end SyntaxError

/-! ## 2. Viable rows -/

/-- A row that is accepted with some lexemes behind it, or none. -/
def Viable (row : List (Placed Lexeme)) : Prop :=
  ∃ more tokens, Token.read (row ++ more) = .ok tokens

/-- A lexeme behind `front` that is wrong by itself: a number that cannot be read, or a closing
parenthesis where none is open. -/
def AtFault (front : List (Placed Lexeme)) (here : Placed Lexeme) : Prop :=
  here.item.isReadable = false ∨
    here.item = .closing ∧ Symbol.depthAfter 0 (front.map Placed.item) = some 0

/-- The last lexeme of a row is wrong by itself. -/
def EndsAtFault (row : List (Placed Lexeme)) : Prop :=
  ∃ front here, row = front ++ [here] ∧ AtFault front here

theorem not_endsAtFault_nil : ¬EndsAtFault [] := by
  rintro ⟨front, here, hsplit, -⟩
  simp at hsplit

theorem endsAtFault_concat_iff {front : List (Placed Lexeme)} {here : Placed Lexeme} :
    EndsAtFault (front ++ [here]) ↔ AtFault front here := by
  constructor
  · rintro ⟨front', here', hsplit, hfault⟩
    obtain ⟨rfl, hhere⟩ := List.append_inj' hsplit rfl
    obtain rfl := List.singleton_inj.mp hhere
    exact hfault
  · exact fun hfault => ⟨front, here, rfl, hfault⟩

namespace Reading

variable {state : Reading} {here next : Placed Lexeme} {next? : Option (Placed Lexeme)}
  {row front back : List (Placed Lexeme)} {error : SyntaxError}

/-- Behind a row that has been read a lexeme is at fault when it cannot be read or enclosed. -/
theorem atFault_iff (hfront : runBefore next? start front = .ok state) :
    AtFault front here ↔ here.item.isReadable = false ∨ enclose state.opened here = none := by
  obtain ⟨-, -, opened, hopened, rfl⟩ := runBefore_eq_ok_iff.mp hfront
  have hnone : Symbol.depthAfter 0 (front.map Placed.item) = some 0 ↔ opened = [] := by
    rw [← foldlM_enclose_nil_iff, show front.foldlM enclose [] = some opened from hopened]
    simp
  rw [AtFault, hnone, behind_opened, enclose_eq_none_iff]

/-! ### What has been read is viable -/

theorem viable_nil : Viable [] := by
  obtain ⟨tokens, htokens⟩ : ∃ tokens, Token.read [one] = .ok tokens :=
    exists_eq_ok (by decide +kernel)
  exact ⟨[one], tokens, htokens⟩

/-- **A lexeme that is not at fault** can be completed, with what has been read in front of it, if
it has the left neighbour it needs. -/
theorem viable_concat (hfront : runBefore (some here) start front = .ok state)
    (hleft : state.last? = none → here.item.needsLeft = false) (hsound : ¬AtFault front here) :
    Viable (front ++ [here]) := by
  rw [atFault_iff hfront, not_or, Bool.not_eq_false, ← ne_eq, Option.ne_none_iff_exists'] at hsound
  obtain ⟨hreadable, opened, hopened⟩ := hsound
  cases hneeds : here.item.needsRight with
  | true =>
    obtain ⟨after, hafter⟩ := runBefore_one hfront hleft hneeds
    obtain ⟨tokens, htokens⟩ := read_closings (by simp) hafter
    exact ⟨one :: closings after.opened, tokens, by simpa using htokens⟩
  | false =>
    have hstep : state.step here none = .ok (state.behind [here] opened) :=
      step_eq_ok_iff.mpr ⟨neighbourError?_end_eq_none_iff.mpr ⟨hleft, hneeds⟩, hreadable, opened,
        hopened, rfl⟩
    have hread : runBefore none start (front ++ [here]) = .ok (state.behind [here] opened) := by
      rw [runBefore_append, List.head?_cons, Option.some_or, hfront]
      simp only [Except.bind, runBefore_cons, List.head?_nil, Option.none_or, hstep]
      rfl
    obtain ⟨tokens, htokens⟩ := read_closings (by simp) hread
    exact ⟨_, tokens, htokens⟩

theorem needsLeft_of_neighbourError? {last? : Option Lexeme}
    (h : neighbourError? last? here next? = none) (hnone : last? = none) :
    here.item.needsLeft = false := by
  cases next? with
  | none => exact (neighbourError?_end_eq_none_iff.mp h).1 hnone
  | some next => exact (neighbourError?_eq_none_iff.mp h).1 hnone

/-- A row that has been read in front of something is viable, and its last lexeme is not at
fault. -/
theorem viable_of_runBefore (h : runBefore next? start row = .ok state) :
    Viable row ∧ ¬EndsAtFault row := by
  rcases List.eq_nil_or_concat row with rfl | ⟨front, last, rfl⟩
  · exact ⟨viable_nil, not_endsAtFault_nil⟩
  · rw [List.concat_eq_append] at h ⊢
    rw [runBefore_append, List.head?_cons, Option.some_or] at h
    cases hfront : runBefore (some last) start front with
    | error error => rw [hfront] at h; cases h
    | ok between =>
      have hstep : between.step last next? = .ok state := by
        rw [hfront] at h
        simp only [Except.bind, runBefore_cons, List.head?_nil, Option.none_or] at h
        cases hlast : between.step last next? with
        | error error => rw [hlast] at h; cases h
        | ok after => rw [hlast] at h; exact h
      obtain ⟨hneighbours, hreadable, opened, hopened, -⟩ := step_eq_ok_iff.mp hstep
      have hsound : ¬AtFault front last := by
        rw [atFault_iff hfront]
        simp [hreadable, hopened]
      exact ⟨viable_concat hfront (needsLeft_of_neighbourError? hneighbours) hsound,
        fun hends => hsound (endsAtFault_concat_iff.mp hends)⟩

/-! ### What ruins a row -/

/-- **A lexeme at fault** ruins the row. -/
theorem not_viable_of_atFault (hfront : runBefore (some here) start front = .ok state)
    (hfault : AtFault front here) : ¬Viable (front ++ [here]) := by
  rintro ⟨more, tokens, hread⟩
  rw [List.append_assoc, List.singleton_append] at hread
  obtain ⟨after, hstep⟩ := step_of_read hread hfront
  obtain ⟨-, hreadable, opened, hopened, -⟩ := step_eq_ok_iff.mp hstep
  rcases (atFault_iff hfront).mp hfault with hunreadable | hnone
  · simp [hreadable] at hunreadable
  · simp [hopened] at hnone

/-- **A lexeme that is not admitted** behind another ruins the row. -/
theorem not_viable_of_refused (hfront : runBefore (some here) start front = .ok state)
    (hrefused : Refused state here (some next) error) (hlost : error.isIncomplete = false) :
    ¬Viable (front ++ [here, next]) := by
  rintro ⟨more, tokens, hread⟩
  rw [List.append_assoc, List.cons_append, List.singleton_append] at hread
  obtain ⟨after, hstep⟩ := step_of_read hread hfront
  exact not_step_of_refused hrefused hlost more hstep

/-! ## 3. The marked lexeme -/

/-- Where the lexeme that `error` marks stands behind `front`, in relation to what ruins the row.
The row is ruined here at the latest, and not before, unless the lexeme in front is at fault by
itself.  In that case the row is ruined by the lexeme in front, and no earlier. -/
structure MarkedBehind (error : SyntaxError) (front : List (Placed Lexeme))
    (here : Placed Lexeme) : Prop where
  marks : error.Marks here
  ruined : ¬Viable (front ++ [here])
  viable_iff : Viable front ↔ ¬EndsAtFault front
  exception : EndsAtFault front →
    (∃ text offset, error = .unexpectedToken text offset) ∧ Viable front.dropLast

/-- A lexeme at fault by itself is marked at its own place. -/
theorem markedBehind_of_atFault (hfront : runBefore (some here) start front = .ok state)
    (hfault : AtFault front here) (hmarks : error.Marks here) : MarkedBehind error front here := by
  obtain ⟨hviable, hsound⟩ := viable_of_runBefore hfront
  exact ⟨hmarks, not_viable_of_atFault hfront hfault, by simp [hviable, hsound],
    fun hends => absurd hends hsound⟩

/-- A lexeme that is not admitted behind `here` is marked, whether or not `here` is at fault. -/
theorem markedBehind_of_refused (hfront : runBefore (some here) start front = .ok state)
    (hrefused : Refused state here (some next) error)
    (hleft : state.last? = none → here.item.needsLeft = false)
    (hlost : error.isIncomplete = false) (hmarks : error.Marks next)
    (hunexpected : AtFault front here → ∃ text offset, error = .unexpectedToken text offset) :
    MarkedBehind error (front ++ [here]) next := by
  refine ⟨hmarks, ?_, ?_, ?_⟩
  · simpa using not_viable_of_refused hfront hrefused hlost
  · rw [endsAtFault_concat_iff]
    exact ⟨fun hviable hfault => not_viable_of_atFault hfront hfault hviable,
      viable_concat hfront hleft⟩
  · intro hfault
    rw [List.dropLast_concat]
    exact ⟨hunexpected (endsAtFault_concat_iff.mp hfault), (viable_of_runBefore hfront).1⟩

/-- A lost row has a marked lexeme. -/
theorem exists_markedBehind (h : Token.read row = .error error) (hkind : error.marksOne) :
    ∃ front here back, row = front ++ here :: back ∧ MarkedBehind error front here := by
  have hlost := SyntaxError.isIncomplete_of_marksOne hkind
  rcases Token.read_eq_error_iff.mp h with ⟨-, rfl⟩ | hrefused | ⟨_, _, _, -, -, -, rfl⟩
  · cases hkind
  · obtain ⟨front, here, back, state, rfl, hfront, hhere⟩ := hrefused
    generalize hnext : back.head? = next? at hhere
    cases hhere with
    | missingLeft => cases hkind
    | unexpectedEnd => cases hkind
    | @unexpectedToken next hleft hadmits =>
      obtain ⟨back, rfl⟩ := List.head?_eq_some_iff.mp hnext
      exact ⟨front ++ [here], next, back, by simp,
        markedBehind_of_refused hfront (.unexpectedToken hleft hadmits) hleft hlost ⟨rfl, rfl⟩
          fun _ => ⟨_, _, rfl⟩⟩
    | @zeroOperand next hleft hzero =>
      obtain ⟨back, rfl⟩ := List.head?_eq_some_iff.mp hnext
      -- an operator can be read and closes nothing
      have hsound : ¬AtFault front here := by
        obtain ⟨⟨op, hop⟩, -⟩ := hzero
        simp [AtFault, hop, Lexeme.isReadable]
      have hmarks : SyntaxError.Marks (.zeroOperand next.offset) next := by
        rw [SyntaxError.Marks, ← hzero.2]
      exact ⟨front ++ [here], next, back, by simp,
        markedBehind_of_refused hfront (.zeroOperand hleft hzero) hleft hlost hmarks
          fun hfault => absurd hfault hsound⟩
    | invalidNumber _ hunreadable =>
      have hmarks : SyntaxError.Marks (.invalidNumber here.item.text here.offset) here := by
        obtain ⟨item, offset⟩ := here
        cases item <;> first | rfl | cases hunreadable
      exact ⟨front, here, back, rfl,
        markedBehind_of_atFault hfront ((atFault_iff hfront).mpr (.inl hunreadable)) hmarks⟩
    | unmatchedClosing _ hnone =>
      have hmarks : SyntaxError.Marks (.unmatchedClosing here.offset) here := by
        rw [SyntaxError.Marks, ← (enclose_eq_none_iff.mp hnone).1]
      exact ⟨front, here, back, rfl,
        markedBehind_of_atFault hfront ((atFault_iff hfront).mpr (.inr hnone)) hmarks⟩
  · cases hkind

end Reading

/-- **The leftmost lexeme that ruins a row.**  An error about a single lexeme marks the one at some
index `k`, and no other if offsets are distinct.  Up to and including that lexeme the row cannot be
completed.  Up to the lexeme in front of it the row can be, unless that one is at fault by itself;
then the error is that the marked lexeme is unexpected, and the row in front of both can be
completed. -/
theorem Token.read_error_leftmost {row : List (Placed Lexeme)} {error : SyntaxError}
    (h : Token.read row = .error error) (hkind : error.marksOne) :
    ∃ k here, row[k]? = some here ∧ error.Marks here ∧
      ((row.map Placed.offset).Nodup →
        ∀ (j : Nat) (there : Placed Lexeme), row[j]? = some there → error.Marks there → j = k) ∧
      ¬Viable (row.take (k + 1)) ∧
      (Viable (row.take k) ↔ ¬EndsAtFault (row.take k)) ∧
      (EndsAtFault (row.take k) →
        (∃ text offset, error = .unexpectedToken text offset) ∧ Viable (row.take (k - 1))) := by
  obtain ⟨front, here, back, rfl, hmarked⟩ := Reading.exists_markedBehind h hkind
  have hhere : (front ++ here :: back)[front.length]? = some here := by simp
  have hfront : (front ++ here :: back).take front.length = front := List.take_left
  have hupTo : (front ++ here :: back).take (front.length + 1) = front ++ [here] := by
    simp [List.take_append, List.take_of_length_le]
  have hbefore : (front ++ here :: back).take (front.length - 1) = front.dropLast := by
    rw [List.take_append_of_le_length (Nat.sub_le _ _), List.dropLast_eq_take]
  refine ⟨front.length, here, hhere, hmarked.marks, ?_, ?_, ?_, ?_⟩
  · intro hdistinct j there hthere hmarks
    have hlt : j < ((front ++ here :: back).map Placed.offset).length := by
      rw [List.length_map]
      exact (List.getElem?_eq_some_iff.mp hthere).1
    refine (List.getElem?_inj hlt hdistinct).mp ?_
    rw [List.getElem?_map, List.getElem?_map, hthere, hhere, Option.map_some, Option.map_some,
      hmarked.marks.offset_eq hmarks]
  · rw [hupTo]
    exact hmarked.ruined
  · rw [hfront]
    exact hmarked.viable_iff
  · rw [hfront, hbefore]
    exact hmarked.exception

/-- In `(3+1.2.3x` the `x` is marked, the fifth lexeme; the row is ruined by `1.2.3`. -/
theorem Token.read_error_leftmost_misread :
    Token.read (Lexeme.scan "(3+1.2.3x") = .error (.unexpectedToken "x" 8) ∧
      ¬Viable ((Lexeme.scan "(3+1.2.3x").take 4) ∧ Viable ((Lexeme.scan "(3+1.2.3x").take 3) := by
  have hread : Token.read (Lexeme.scan "(3+1.2.3x") = .error (.unexpectedToken "x" 8) := by
    decide +kernel
  have hscan : Lexeme.scan "(3+1.2.3x" = [⟨.opening, 0⟩, ⟨.number "3", 1⟩, ⟨.operator .add, 2⟩,
      ⟨.number "1.2.3", 3⟩, ⟨.unknown 'x', 8⟩] := by decide +kernel
  obtain ⟨k, here, -, -, honly, -, hviable, hexception⟩ := Token.read_error_leftmost hread rfl
  obtain rfl : 4 = k := honly (by rw [hscan]; decide) 4 ⟨.unknown 'x', 8⟩ (by rw [hscan]; rfl)
    ⟨rfl, rfl⟩
  have hends : EndsAtFault ((Lexeme.scan "(3+1.2.3x").take 4) := by
    rw [hscan]
    exact ⟨[⟨.opening, 0⟩, ⟨.number "3", 1⟩, ⟨.operator .add, 2⟩], ⟨.number "1.2.3", 3⟩, rfl,
      .inl (by decide +kernel)⟩
  exact ⟨hread, fun h => hviable.mp h hends, (hexception hends).2⟩

/-- In `1)2` the `2` is marked, but the row is ruined by the parenthesis in front of it. -/
theorem Token.read_error_behind_unmatched_closing :
    Token.read (Lexeme.scan "1)2") = .error (.unexpectedToken "2" 2) ∧
      (Lexeme.scan "1)2")[2]? = some ⟨.number "2", 2⟩ ∧
      ¬Viable ((Lexeme.scan "1)2").take 2) ∧ Viable ((Lexeme.scan "1)2").take 1) := by
  have hscan : Lexeme.scan "1)2" = [⟨.number "1", 0⟩, ⟨.closing, 1⟩, ⟨.number "2", 2⟩] := by
    decide +kernel
  have hlost : Token.read ((Lexeme.scan "1)2").take 2) = .error (.unmatchedClosing 1) := by
    decide +kernel
  obtain ⟨tokens, htokens⟩ : ∃ tokens, Token.read ((Lexeme.scan "1)2").take 1) = .ok tokens :=
    exists_eq_ok (by decide +kernel)
  refine ⟨by decide +kernel, by rw [hscan]; rfl, ?_, [], tokens, by simpa using htokens⟩
  rintro ⟨more, tokens, hread⟩
  exact Reading.not_read_of_refused hlost rfl more hread

end Reckoner
