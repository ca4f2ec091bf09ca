/-
# Nothing is lost and nothing is applied twice

Any row of tokens may be given to the machine: operators without operands, numbers without
operators, parentheses that are left open or close nothing.  The machine may halt on it.  Where it
does not, every operator of the row has been applied exactly once, and so the operands at the end
are as many as the numbers less the operators between two operands (`Token.value_conserves`).

What halts the machine depends on little of the row.

* **In the row** nothing but a missing operand, or a character without a meaning
  (`Machine.run_eq_error`).
* **At the end** also an open parenthesis.  The parentheses open then are those the row leaves open,
  whatever it closes besides: one that closes nothing takes none away (`Machine.depth_eq_of_run`).
-/
import Reckoner.Proofs.Grammar.Matching
import Reckoner.Proofs.Machine.Ledger

namespace Reckoner

open Reckoner.Symbol

namespace Machine

variable {ranks : Ranks} {machine next after : Machine} {token : Placed Token}
  {tokens : List (Placed Token)} {pending : List Pending} {operands : List Binary64}
  {ready : Pending → Bool} {error : RunError}

/-! ## 1. What halts the machine -/

theorem apply_eq_error {top : Pending} (h : top.apply operands = .error error) :
    error = .operandUnderflow ∨ (error = .nothingToApply ∧ top = .opening) := by
  unfold Pending.apply at h
  split at h <;> cases h <;> simp

/-- Applying halts where an operand is missing, or at a parenthesis that was ready. -/
theorem applyWhile_eq_error (h : applyWhile ready pending operands = .error error) :
    error = .operandUnderflow ∨
      (error = .nothingToApply ∧ ready .opening ∧ .opening ∈ pending) := by
  induction pending generalizing operands with
  | nil => cases h
  | cons top below ih =>
    rw [applyWhile] at h
    split at h
    next hready =>
      cases hvalues : top.apply operands with
      | ok values =>
        rw [hvalues] at h
        refine (ih h).imp_right ?_
        rintro ⟨herror, hopening, hmem⟩
        exact ⟨herror, hopening, List.mem_cons_of_mem top hmem⟩
      | error halt =>
        rw [hvalues] at h
        cases h
        refine (apply_eq_error hvalues).imp_right ?_
        rintro ⟨herror, rfl⟩
        exact ⟨herror, hready, List.mem_cons_self⟩
    next => cases h

theorem eq_error_of_map {ε α β : Type} {f : α → β} {outcome : Except ε α} {error : ε}
    (h : outcome.map f = .error error) : outcome = .error error := by
  cases outcome with
  | ok value => cases h
  | error halt => exact congrArg Except.error (Except.error.inj h)

/-- **One token** halts the machine where an operand is missing, or by having no meaning. -/
theorem step_eq_error (h : machine.step ranks token = .error error) :
    error = .operandUnderflow ∨ ∃ character offset,
      token = ⟨.unknown character, offset⟩ ∧ error = .unknownOperator character offset := by
  obtain ⟨item, offset⟩ := token
  cases item with
  | number value => cases h
  | negation => cases h
  | opening => cases h
  | operator op =>
    rcases applyWhile_eq_error (eq_error_of_map h) with rfl | ⟨-, hready, -⟩
    · exact .inl rfl
    · cases hready
  | closing =>
    rcases applyWhile_eq_error (eq_error_of_map h) with rfl | ⟨-, hready, -⟩
    · exact .inl rfl
    · cases hready
  | unknown character =>
    cases h
    exact .inr ⟨character, offset, rfl, rfl⟩

/-- **A row** halts the machine in the same two ways. -/
theorem run_eq_error (h : machine.run ranks tokens = .error error) :
    error = .operandUnderflow ∨ ∃ character offset,
      ⟨.unknown character, offset⟩ ∈ tokens ∧ error = .unknownOperator character offset := by
  induction tokens generalizing machine with
  | nil => cases h
  | cons token tokens ih =>
    rw [run_cons] at h
    cases hstep : machine.step ranks token with
    | ok between =>
      rw [hstep] at h
      refine (ih h).imp_right ?_
      rintro ⟨character, offset, hmem, herror⟩
      exact ⟨character, offset, List.mem_cons_of_mem token hmem, herror⟩
    | error halt =>
      rw [hstep] at h
      cases h
      refine (step_eq_error hstep).imp_right ?_
      rintro ⟨character, offset, rfl, herror⟩
      exact ⟨character, offset, List.mem_cons_self, herror⟩

theorem plain_of_run (h : machine.run ranks tokens = .ok next) :
    Plain (tokens.map Placed.item) := by
  induction tokens generalizing machine with
  | nil => exact plain_nil
  | cons token tokens ih =>
    obtain ⟨between, hstep, hrun⟩ := exists_of_run_cons h
    refine plain_cons.mpr ⟨?_, ih hrun⟩
    have hstepped := stepped_of_step hstep
    generalize token.item = item at hstepped
    cases hstepped <;> rfl

/-- **At the end** nothing stays pending, and no parenthesis was. -/
theorem pending_of_drain (h : machine.drain = .ok after) :
    after.pending = [] ∧ machine.depth = 0 := by
  obtain ⟨pending, operands⟩ := machine
  induction pending generalizing operands with
  | nil =>
    cases h
    exact ⟨rfl, rfl⟩
  | cons top below ih =>
    rcases applyWhile_cons_cases h with ⟨-, values, hvalues, hbelow⟩ | ⟨hready, -⟩
    · obtain ⟨hafter, hdepth⟩ := ih values hbelow
      have hne : top ≠ .opening := (Ledger.length_of_apply hvalues).1
      exact ⟨hafter, (List.count_cons_of_ne hne).trans hdepth⟩
    · cases hready

/-! ## 2. The parentheses left open -/

/-- Behind any row the parentheses open are as many whether they are counted before a token or
after it. -/
theorem depth_eq_of_step (h : machine.step ranks token = .ok next) (row : List Token) :
    (next.depth - surplus row) + (unclosed row).length
      = (machine.depth - surplus (token.item :: row)) + (unclosed (token.item :: row)).length := by
  have hstepped := stepped_of_step h
  have hsame : ∀ {item : Token}, item ≠ .opening → item ≠ .closing → next.depth = machine.depth →
      (next.depth - surplus row) + (unclosed row).length
        = (machine.depth - surplus (item :: row)) + (unclosed (item :: row)).length := by
    intro item hopening hclosing hdepth
    rw [surplus_of_ne hopening hclosing, unclosed_of_ne hopening, List.length_map, hdepth]
  generalize token.item = item at hstepped
  cases hstepped with
  | number value => exact hsame (by simp) (by simp) rfl
  | negation => exact hsame (by simp) (by simp) (by simp [depth, pushPending])
  | opening =>
    have hdepth : (machine.pushPending .opening).depth = machine.depth + 1 := List.count_cons_self
    rw [hdepth, surplus_opening, unclosed]
    split <;> simp only [List.length_cons, List.length_map] <;> omega
  | @operator op after hafter =>
    have hkept : after.depth = machine.depth :=
      depth_of_applyWhile (precedes_opening ranks _) hafter
    exact hsame (by simp) (by simp) (by simpa [depth, pushPending] using hkept)
  | closing hafter =>
    rw [depth_of_closing hafter, surplus_closing, unclosed_of_ne (by simp), List.length_map]
    omega

/-- **The parentheses open** behind a row are those that it leaves open, and those that were open in
front of it and that it does not close. -/
theorem depth_eq_of_run (h : machine.run ranks tokens = .ok next) :
    next.depth = machine.depth - surplus (tokens.map Placed.item)
      + (unclosed (tokens.map Placed.item)).length := by
  induction tokens generalizing machine with
  | nil =>
    cases h
    simp
  | cons token tokens ih =>
    obtain ⟨between, hstep, hrun⟩ := exists_of_run_cons h
    rw [ih hrun, List.map_cons]
    exact depth_eq_of_step hstep _

/-- A machine that starts empty has none open but those that the row leaves open. -/
theorem depth_eq_zero_iff (h : start.run ranks tokens = .ok next) :
    next.depth = 0 ↔ ∀ i, ¬Unclosed (tokens.map Placed.item) i := by
  have hdepth : next.depth = _ := depth_eq_of_run h
  have hstart : start.depth = 0 := rfl
  rw [hdepth, hstart, Nat.zero_sub, Nat.zero_add, List.length_eq_zero_iff,
    List.eq_nil_iff_forall_not_mem]
  simp only [mem_unclosed]

/-! ## 3. All is applied once -/

/-- **The books at the end.**  Nothing is pending any more, every operator of the row was applied
once, and the operands are the numbers less what the operators cost. -/
theorem exists_ledger (hrun : start.run ranks tokens = .ok machine)
    (hdrain : machine.drain = .ok after) :
    ∃ ledger : Ledger, (Ledger.start.run ranks tokens.zipIdx).bind Ledger.drain = .ok ledger ∧
      ledger.machine = after ∧ ledger.applied.Perm (operators (tokens.map Placed.item)) ∧
      after.operands.length + binaries (tokens.map Placed.item)
        = numbers (tokens.map Placed.item) := by
  have hstart : start = Ledger.start.machine := rfl
  rw [hstart, ← Ledger.machine_run ranks Ledger.start tokens 0] at hrun
  obtain ⟨before, hbefore, rfl⟩ := exists_of_map_eq_ok hrun
  have hnone : after.pending = [] := (pending_of_drain hdrain).1
  rw [← Ledger.machine_drain] at hdrain
  obtain ⟨ledger, hledger, rfl⟩ := exists_of_map_eq_ok hdrain
  have hpending : ledger.pending = [] := List.map_eq_nil_iff.mp hnone
  have hbalanced : Ledger.Balanced (tokens.map Placed.item) ledger :=
    (Ledger.balanced_start.run hbefore).applyWhile hledger
  have happlied : ledger.applied.Perm (operators (tokens.map Placed.item)) := by
    have hentries := hbalanced.entries
    rw [Ledger.entries, hpending] at hentries
    simpa using hentries
  refine ⟨ledger, by rw [hbefore]; exact hledger, rfl, happlied, ?_⟩
  rw [← countP_operators, ← happlied.countP_eq]
  exact hbalanced.operands

end Machine

namespace Token

variable {ranks : Ranks} {tokens : List (Placed Token)}

theorem exists_of_value_eq_ok {value : Binary64} (h : Token.value ranks tokens = .ok value) :
    ∃ machine drained, Machine.start.run ranks tokens = .ok machine ∧
      machine.drain = .ok drained ∧ drained.operands ≠ [] := by
  unfold Token.value at h
  cases hrun : Machine.start.run ranks tokens with
  | error error => simp [bind, Except.bind, hrun] at h
  | ok machine =>
    cases hdrain : machine.drain with
    | error error => simp [bind, Except.bind, hrun, hdrain] at h
    | ok drained =>
      refine ⟨machine, drained, rfl, hdrain, fun hnone => ?_⟩
      simp [bind, Except.bind, hrun, hdrain, Machine.result, hnone] at h

/-- A token stream with a value has a meaning throughout, closes all that it opens, and has more
numbers than operators between two operands. -/
theorem conserved_of_value_eq_ok {value : Binary64} (h : Token.value ranks tokens = .ok value) :
    Plain (tokens.map Placed.item) ∧ (∀ i, ¬Unclosed (tokens.map Placed.item) i) ∧
      binaries (tokens.map Placed.item) + 1 ≤ numbers (tokens.map Placed.item) := by
  obtain ⟨machine, drained, hrun, hdrain, hoperands⟩ := exists_of_value_eq_ok h
  obtain ⟨-, -, -, -, hcount⟩ := Machine.exists_ledger hrun hdrain
  have hclosed := (Machine.depth_eq_zero_iff hrun).mp (Machine.pending_of_drain hdrain).2
  have hpos := List.length_pos_of_ne_nil hoperands
  exact ⟨Machine.plain_of_run hrun, hclosed, by omega⟩

/-- **Why a token stream has no value**: an operand is missing, a character has no meaning, or at
the end a parenthesis is open. -/
theorem value_eq_error {error : RunError} (h : Token.value ranks tokens = .error error) :
    error = .operandUnderflow ∨
    (∃ character offset, ⟨.unknown character, offset⟩ ∈ tokens ∧
      error = .unknownOperator character offset) ∨
    (error = .nothingToApply ∧ ∃ machine, Machine.start.run ranks tokens = .ok machine ∧
      machine.drain = .error .nothingToApply ∧ machine.depth ≠ 0) := by
  unfold Token.value at h
  cases hrun : Machine.start.run ranks tokens with
  | error halt =>
    obtain rfl : halt = error := by simpa [bind, Except.bind, hrun] using h
    exact (Machine.run_eq_error hrun).imp_right .inl
  | ok machine =>
    cases hdrain : machine.drain with
    | error halt =>
      obtain rfl : halt = error := by simpa [bind, Except.bind, hrun, hdrain] using h
      refine (Machine.applyWhile_eq_error hdrain).imp_right ?_
      rintro ⟨rfl, -, hopening⟩
      exact .inr ⟨rfl, machine, rfl, hdrain, fun hnone => List.count_eq_zero.mp hnone hopening⟩
    | ok drained =>
      simp only [bind, Except.bind, hrun, hdrain, Machine.result] at h
      split at h <;> cases h
      exact .inl rfl

/-- **Conservation.**  On any row of tokens whatever: where the machine comes to the end, it has
applied each operator of the row exactly once, and there are as many operands as numbers less the
operators between two operands.  So a row with a value has a meaning throughout, closes all that it
opens, and has more numbers than such operators.  A row with a meaning that leaves a parenthesis
open halts the machine; that there is nothing to apply shows at the end alone, and only for such a
row; and a row that closes all it opens but has too few numbers misses an operand. -/
theorem value_conserves (ranks : Ranks) (tokens : List (Placed Token)) :
    (∀ machine drained, Machine.start.run ranks tokens = .ok machine →
      machine.drain = .ok drained →
      drained.pending = [] ∧
      drained.operands.length + binaries (tokens.map Placed.item)
        = numbers (tokens.map Placed.item) ∧
      ∃ ledger : Ledger, (Ledger.start.run ranks tokens.zipIdx).bind Ledger.drain = .ok ledger ∧
        ledger.machine = drained ∧
        ledger.applied.Perm (operators (tokens.map Placed.item))) ∧
    (∀ value, Token.value ranks tokens = .ok value →
      Plain (tokens.map Placed.item) ∧ (∀ i, ¬Unclosed (tokens.map Placed.item) i) ∧
      binaries (tokens.map Placed.item) + 1 ≤ numbers (tokens.map Placed.item)) ∧
    (Plain (tokens.map Placed.item) → (∃ i, Unclosed (tokens.map Placed.item) i) →
      Token.value ranks tokens = .error .operandUnderflow ∨
      Token.value ranks tokens = .error .nothingToApply) ∧
    Machine.start.run ranks tokens ≠ .error .nothingToApply ∧
    (Token.value ranks tokens = .error .nothingToApply →
      (∃ machine, Machine.start.run ranks tokens = .ok machine ∧
        machine.drain = .error .nothingToApply) ∧
      ∃ i, Unclosed (tokens.map Placed.item) i) ∧
    (Plain (tokens.map Placed.item) → (∀ i, ¬Unclosed (tokens.map Placed.item) i) →
      numbers (tokens.map Placed.item) ≤ binaries (tokens.map Placed.item) →
      Token.value ranks tokens = .error .operandUnderflow) := by
  refine ⟨?_, fun value hv => conserved_of_value_eq_ok hv, ?_, ?_, ?_, ?_⟩
  · intro machine drained hrun hdrain
    obtain ⟨ledger, hledger, hmachine, happlied, hcount⟩ := Machine.exists_ledger hrun hdrain
    exact ⟨(Machine.pending_of_drain hdrain).1, hcount, ledger, hledger, hmachine, happlied⟩
  · rintro hplain ⟨i, hopen⟩
    cases hv : Token.value ranks tokens with
    | ok value => exact absurd hopen ((conserved_of_value_eq_ok hv).2.1 i)
    | error error =>
      rcases value_eq_error hv with rfl | ⟨character, offset, hmem, -⟩ | ⟨rfl, -⟩
      · exact .inl rfl
      · cases hplain _ (List.mem_map_of_mem hmem)
      · exact .inr rfl
  · intro hrun
    rcases Machine.run_eq_error hrun with h | ⟨character, offset, -, h⟩ <;> cases h
  · intro hv
    rcases value_eq_error hv with h | ⟨character, offset, -, h⟩ |
      ⟨-, machine, hrun, hdrain, hdepth⟩
    · cases h
    · cases h
    · rw [Ne, Machine.depth_eq_zero_iff hrun, not_forall_not] at hdepth
      exact ⟨⟨machine, hrun, hdrain⟩, hdepth⟩
  · intro hplain hclosed hfew
    cases hv : Token.value ranks tokens with
    | ok value =>
      have hmore := (conserved_of_value_eq_ok hv).2.2
      omega
    | error error =>
      rcases value_eq_error hv with rfl | ⟨character, offset, hmem, -⟩ |
        ⟨-, machine, hrun, -, hdepth⟩
      · rfl
      · cases hplain _ (List.mem_map_of_mem hmem)
      · exact absurd ((Machine.depth_eq_zero_iff hrun).mpr hclosed) hdepth

/-- `) ∞ ∞ - +` has a value, `( ∞` leaves its parenthesis open and finds nothing to apply, and
`∞ +` misses an operand. -/
theorem value_conserves_handmade :
    (Token.value .standard [⟨.closing, 0⟩, ⟨.number (.infinite false), 1⟩,
      ⟨.number (.infinite false), 2⟩, ⟨.negation, 3⟩, ⟨.operator .add, 4⟩] = .ok .nan ∧
      binaries [.closing, .number (Binary64.infinite false), .number (.infinite false), .negation,
        .operator .add] + 1 ≤ 2) ∧
    (Token.value .standard [⟨.opening, 0⟩, ⟨.number (.infinite false), 1⟩]
        = .error .nothingToApply ∧
      ∃ i, Unclosed [.opening, .number (Binary64.infinite false)] i) ∧
    Token.value .standard [⟨.number (.infinite false), 0⟩, ⟨.operator .add, 1⟩]
      = .error .operandUnderflow := by
  have hvalue : Token.value .standard [⟨.closing, 0⟩, ⟨.number (.infinite false), 1⟩,
      ⟨.number (.infinite false), 2⟩, ⟨.negation, 3⟩, ⟨.operator .add, 4⟩] = .ok .nan := rfl
  have hopen : Token.value .standard [⟨.opening, 0⟩, ⟨.number (.infinite false), 1⟩]
      = .error .nothingToApply := rfl
  obtain ⟨-, hmore, -⟩ := value_conserves .standard _
  obtain ⟨-, -, -, -, hunclosed, -⟩ := value_conserves .standard _
  obtain ⟨-, -, -, -, -, hfew⟩ := value_conserves .standard
    [⟨.number (.infinite false), 0⟩, ⟨.operator .add, 1⟩]
  refine ⟨⟨hvalue, (hmore _ hvalue).2.2⟩, ⟨hopen, (hunclosed hopen).2⟩, ?_⟩
  refine hfew (by simp [isUnknown]) (fun i => ?_) (by decide)
  rw [← mem_unclosed]
  simp [unclosed]

end Token

end Reckoner
