/-
# Offsets are only carried along

Nothing in reading or in the machine computes with an offset.  Offsets are copied from lexemes to
tokens, and from either to the error that ends the work.  So lexemes at other offsets are read to
the same tokens at other offsets, or refused for the same reason about a symbol at another offset.

* **Errors** are relocated as the symbol they are about is (`SyntaxError.relocate`,
  `RunError.relocate`).
* **Two readings** of a row and of the relocated row go side by side (`Reading.Alike`).  One step
  keeps them so (`Reading.Alike.step`), and therefore a row does (`Reading.Alike.runBefore`).  In
  what sense the tokens so far are the same is left open: whatever more tokens preserve will do.
* **Two machines** that are given tokens and the relocated tokens make the same steps.
-/
import Reckoner.Proofs.Lexeme.Boundaries
import Reckoner.Proofs.Machine.Evaluation

namespace Reckoner

/-! ## 1. Relocated faults -/

namespace SyntaxError

/-- The same error about a symbol at another offset. -/
def relocate (move : Nat → Nat) : SyntaxError → SyntaxError
  | .emptyExpression => .emptyExpression
  | .unexpectedToken text offset => .unexpectedToken text (move offset)
  | .unexpectedEnd text offset => .unexpectedEnd text (move offset)
  | .missingLeftOperand text offset => .missingLeftOperand text (move offset)
  | .unmatchedClosing offset => .unmatchedClosing (move offset)
  | .unclosedOpening offset => .unclosedOpening (move offset)
  | .invalidNumber text offset => .invalidNumber text (move offset)
  | .zeroOperand offset => .zeroOperand (move offset)

/-- The offset of the symbol that an error is about. -/
def offset? : SyntaxError → Option Nat
  | .emptyExpression => none
  | .unexpectedToken _ offset | .unexpectedEnd _ offset | .missingLeftOperand _ offset
  | .unmatchedClosing offset | .unclosedOpening offset | .invalidNumber _ offset
  | .zeroOperand offset => some offset

end SyntaxError

namespace RunError

/-- The same error about a symbol at another offset. -/
def relocate (move : Nat → Nat) : RunError → RunError
  | .unknownOperator character offset => .unknownOperator character (move offset)
  | .operandUnderflow => .operandUnderflow
  | .nothingToApply => .nothingToApply

/-- The offset of the symbol that an error is about. -/
def offset? : RunError → Option Nat
  | .unknownOperator _ offset => some offset
  | .operandUnderflow | .nothingToApply => none

theorem relocate_of_offset?_eq_none (move : Nat → Nat) {error : RunError}
    (h : error.offset? = none) : error.relocate move = error := by
  cases error with
  | unknownOperator character offset => cases h
  | operandUnderflow | nothingToApply => rfl

end RunError

namespace Fault

/-- The same fault about a symbol at another offset. -/
def relocate (move : Nat → Nat) : Fault → Fault
  | .form error => .form (error.relocate move)
  | .run error => .run (error.relocate move)

/-- The offset of the symbol that a fault is about. -/
def offset? : Fault → Option Nat
  | .form error => error.offset?
  | .run error => error.offset?

/-- A fault that stays the same is about a symbol that stays where it is. -/
theorem move_offset?_of_relocate_eq {move : Nat → Nat} {fault : Fault} {offset : Nat}
    (h : fault.relocate move = fault) (hoffset : fault.offset? = some offset) :
    move offset = offset := by
  cases fault with
  | form error => cases error <;> cases hoffset <;> simpa [relocate, SyntaxError.relocate] using h
  | run error =>
    cases error with
    | unknownOperator character position =>
      cases hoffset
      simpa [relocate, RunError.relocate] using h
    | operandUnderflow | nothingToApply => cases hoffset

end Fault

/-! ## 2. The machine -/

namespace Machine

variable {ranks : Ranks} {move : Nat → Nat}

/-- Applying what is pending fails for want of operands, and that is about no symbol. -/
theorem offset?_of_apply {pending : Pending} {operands : List Binary64} {error : RunError}
    (h : pending.apply operands = .error error) : error.offset? = none := by
  unfold Pending.apply at h
  split at h <;> cases h <;> rfl

theorem offset?_of_applyWhile {ready : Pending → Bool} {pending : List Pending}
    {operands : List Binary64} {error : RunError}
    (h : applyWhile ready pending operands = .error error) : error.offset? = none := by
  induction pending generalizing operands with
  | nil => cases h
  | cons top below ih =>
    rw [applyWhile] at h
    split at h
    · cases hvalues : top.apply operands with
      | ok values =>
        rw [hvalues] at h
        exact ih h
      | error error' =>
        rw [hvalues] at h
        cases h
        exact offset?_of_apply hvalues
    · cases h

theorem applyWhile_map_mapError_relocate (ready : Pending → Bool) (pending : List Pending)
    (operands : List Binary64) (next : Machine → Machine) :
    ((applyWhile ready pending operands).map next).mapError (RunError.relocate move)
      = (applyWhile ready pending operands).map next := by
  cases h : applyWhile ready pending operands with
  | ok machine => rfl
  | error error =>
    have herror := RunError.relocate_of_offset?_eq_none move (offset?_of_applyWhile h)
    exact congrArg Except.error herror

theorem step_relocate (machine : Machine) (token : Placed Token) :
    machine.step ranks (token.relocate move)
      = (machine.step ranks token).mapError (RunError.relocate move) := by
  obtain ⟨item, offset⟩ := token
  cases item with
  | operator | closing => exact (applyWhile_map_mapError_relocate ..).symm
  | number | negation | opening | unknown => rfl

theorem run_relocate (machine : Machine) (tokens : List (Placed Token)) :
    machine.run ranks (tokens.map (Placed.relocate move))
      = (machine.run ranks tokens).mapError (RunError.relocate move) := by
  induction tokens generalizing machine with
  | nil => rfl
  | cons token tokens ih =>
    rw [List.map_cons, run_cons, run_cons, step_relocate]
    cases machine.step ranks token with
    | ok next => exact ih next
    | error error => rfl

/-- Two rows of tokens that the machine works through alike, up to relocation. -/
def RunsAlike (ranks : Ranks) (move : Nat → Nat) (one other : List (Placed Token)) : Prop :=
  start.run ranks other = (start.run ranks one).mapError (RunError.relocate move)

theorem RunsAlike.append {one other : List (Placed Token)} (h : RunsAlike ranks move one other)
    (more : List (Placed Token)) :
    RunsAlike ranks move (one ++ more) (other ++ more.map (Placed.relocate move)) := by
  rw [RunsAlike, run_append, run_append, h]
  cases start.run ranks one with
  | ok machine => exact run_relocate machine more
  | error error => rfl

theorem RunsAlike.value_eq {one other : List (Placed Token)} (h : RunsAlike ranks move one other) :
    Token.value ranks other = (Token.value ranks one).mapError (RunError.relocate move) := by
  simp only [Token.value, bind, Except.bind]
  rw [h]
  cases start.run ranks one with
  | error error => rfl
  | ok machine =>
    simp only [Except.mapError]
    cases hdrain : machine.drain with
    | error error =>
      have herror := RunError.relocate_of_offset?_eq_none move (offset?_of_applyWhile hdrain)
      simp only [herror]
    | ok drained =>
      simp only [result]
      split <;> rfl

end Machine

/-! ## 3. Reading -/

namespace Reading

variable {move : Nat → Nat} {same : List (Placed Token) → List (Placed Token) → Prop}

/-- Two results that are both errors, the same up to relocation, or stand in a relation. -/
def Agree {σ : Type} (move : Nat → Nat) (alike : σ → σ → Prop) :
    Except SyntaxError σ → Except SyntaxError σ → Prop
  | .ok one, .ok other => alike one other
  | .error error, .error error' => error' = error.relocate move
  | _, _ => False

theorem Agree.cases {σ : Type} {alike : σ → σ → Prop} {one other : Except SyntaxError σ}
    (h : Agree move alike one other) :
    (∃ state state', one = .ok state ∧ other = .ok state' ∧ alike state state') ∨
      ∃ error : SyntaxError, one = .error error ∧ other = .error (error.relocate move) := by
  cases one with
  | ok state =>
    cases other with
    | ok state' => exact .inl ⟨state, state', rfl, rfl, h⟩
    | error error => exact h.elim
  | error error =>
    cases other with
    | ok state' => exact h.elim
    | error error' => exact .inr ⟨error, rfl, congrArg Except.error h⟩

theorem Agree.bind {σ τ : Type} {alike : σ → σ → Prop} {alike' : τ → τ → Prop}
    {one other : Except SyntaxError σ} {next next' : σ → Except SyntaxError τ}
    (h : Agree move alike one other)
    (hnext : ∀ state state', alike state state' → Agree move alike' (next state) (next' state')) :
    Agree move alike' (one.bind next) (other.bind next') := by
  rcases h.cases with ⟨state, state', rfl, rfl, halike⟩ | ⟨error, rfl, rfl⟩
  · exact hnext state state' halike
  · rfl

/-- Problems between neighbours are about their relocated symbols. -/
theorem neighbourError?_relocate (last? : Option Lexeme) (here : Placed Lexeme)
    (next? : Option (Placed Lexeme)) :
    neighbourError? last? (here.relocate move) (next?.map (Placed.relocate move))
      = (neighbourError? last? here next?).map (SyntaxError.relocate move) := by
  obtain ⟨item, offset⟩ := here
  cases next? with
  | none => cases last? <;> cases item <;> rfl
  | some next =>
    cases item <;>
      simp [neighbourError?, Placed.relocate, apply_ite (Option.map (SyntaxError.relocate move)),
        SyntaxError.relocate]

theorem enclose_relocate (opened : List Nat) (here : Placed Lexeme) :
    enclose (opened.map move) (here.relocate move) = (enclose opened here).map (List.map move) := by
  obtain ⟨item, offset⟩ := here
  cases item <;> cases opened <;> rfl

theorem lastFrom_relocate (last? : Option Lexeme) (row : List (Placed Lexeme)) :
    lastFrom last? (row.map (Placed.relocate move)) = lastFrom last? row := by
  simp [lastFrom, List.foldl_map]

theorem tokensFrom_relocate (last? : Option Lexeme) (row : List (Placed Lexeme)) :
    tokensFrom last? (row.map (Placed.relocate move))
      = (tokensFrom last? row).map (Placed.relocate move) := by
  induction row generalizing last? with
  | nil => rfl
  | cons here row ih =>
    have hhere : tokensFrom last? [here.relocate move]
        = (tokensFrom last? [here]).map (Placed.relocate move) := by
      by_cases hproduct : here.item = .opening ∧ last?.any Symbol.endsOperand <;>
        simp [tokensFrom, Lexeme.spellProductsFrom, Lexeme.understoodProduct, Placed.relocate,
          Placed.map, hproduct]
    rw [List.map_cons, tokensFrom_cons, hhere, Placed.item_relocate, ih, ← List.map_append,
      ← tokensFrom_cons]

/-- Two states of reading that differ in offsets, and whose tokens are the same in some sense. -/
structure Alike (move : Nat → Nat) (same : List (Placed Token) → List (Placed Token) → Prop)
    (one other : Reading) : Prop where
  last? : other.last? = one.last?
  opened : other.opened = one.opened.map move
  tokens : same one.tokens.reverse other.tokens.reverse

/-- Two states whose tokens the machine works through alike. -/
abbrev WorkAlike (ranks : Ranks) (move : Nat → Nat) : Reading → Reading → Prop :=
  Alike move (Machine.RunsAlike ranks move)

/-- More of the same tokens, relocated, leave tokens the same. -/
def Extends (move : Nat → Nat) (same : List (Placed Token) → List (Placed Token) → Prop) : Prop :=
  ∀ one other more, same one other → same (one ++ more) (other ++ more.map (Placed.relocate move))

theorem Alike.behind {one other : Reading} (hsame : Extends move same)
    (h : Alike move same one other) (row : List (Placed Lexeme)) (opened : List Nat) :
    Alike move same (one.behind row opened)
      (other.behind (row.map (Placed.relocate move)) (opened.map move)) where
  last? := by rw [behind_last?, behind_last?, lastFrom_relocate, h.last?]
  opened := rfl
  tokens := by
    simp only [behind_tokens, List.reverse_append, List.reverse_reverse]
    rw [h.last?, tokensFrom_relocate]
    exact hsame _ _ _ h.tokens

/-- **One step** keeps two readings alike. -/
theorem Alike.step {one other : Reading} (hsame : Extends move same)
    (h : Alike move same one other) (here : Placed Lexeme) (next? : Option (Placed Lexeme)) :
    Agree move (Alike move same) (one.step here next?)
      (other.step (here.relocate move) (next?.map (Placed.relocate move))) := by
  unfold Reading.step
  rw [h.last?, neighbourError?_relocate, take_eq, take_eq, h.opened, enclose_relocate,
    Placed.item_relocate]
  cases neighbourError? one.last? here next? with
  | some error => rfl
  | none =>
    cases here.item.isReadable with
    | false => rfl
    | true =>
      cases enclose one.opened here with
      | none => rfl
      | some opened => exact h.behind hsame [here] opened

/-- **A row** keeps two readings alike. -/
theorem Alike.runBefore {one other : Reading} (hsame : Extends move same)
    (h : Alike move same one other) (next? : Option (Placed Lexeme)) (row : List (Placed Lexeme)) :
    Agree move (Alike move same) (runBefore next? one row)
      (runBefore (next?.map (Placed.relocate move)) other (row.map (Placed.relocate move))) := by
  induction row generalizing one other with
  | nil => exact h
  | cons here rest ih =>
    have hnext : (rest.map (Placed.relocate move)).head?.or (next?.map (Placed.relocate move))
        = (rest.head?.or next?).map (Placed.relocate move) := by
      cases rest <;> rfl
    rw [List.map_cons, runBefore_cons, runBefore_cons, hnext]
    exact (h.step hsame here (rest.head?.or next?)).bind fun _ _ => ih

theorem Alike.finish {one other : Reading} (h : Alike move same one other) :
    Agree move same one.finish other.finish := by
  unfold Reading.finish
  rw [h.opened]
  cases one.opened with
  | nil => exact h.tokens
  | cons innermost outer => rfl

end Reading

/-! ## 4. A whole row -/

/-- A row and the relocated row are read alike. -/
theorem Token.read_alike {move : Nat → Nat}
    {same : List (Placed Token) → List (Placed Token) → Prop} (hsame : Reading.Extends move same)
    (hnil : same [] []) (row : List (Placed Lexeme)) :
    Reading.Agree move same (Token.read row) (Token.read (row.map (Placed.relocate move))) := by
  cases row with
  | nil => rfl
  | cons here rest =>
    have hstart : Reading.Alike move same Reading.start Reading.start := ⟨rfl, rfl, hnil⟩
    rw [List.map_cons, Token.read_of_ne_nil (by simp), Token.read_of_ne_nil (by simp)]
    exact (hstart.runBefore hsame none (here :: rest)).bind fun _ _ h => h.finish

theorem Token.read_relocate {row : List (Placed Lexeme)} {tokens : List (Placed Token)}
    (move : Nat → Nat) (h : Token.read row = .ok tokens) :
    Token.read (row.map (Placed.relocate move)) = .ok (tokens.map (Placed.relocate move)) := by
  have hextends : Reading.Extends move fun one other => other = one.map (Placed.relocate move) := by
    rintro one _ more rfl
    exact List.map_append.symm
  rcases (Token.read_alike hextends rfl row).cases with
    ⟨tokens, _, hone, hother, rfl⟩ | ⟨error, hone, -⟩
  · rw [h] at hone
    cases hone
    exact hother
  · rw [h] at hone
    cases hone

end Reckoner
