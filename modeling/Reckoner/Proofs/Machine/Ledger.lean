/-
# A machine that keeps books

The machine forgets what it has applied, and it does not know one operator from another of the same
kind.  A *ledger* works as the machine does and keeps books besides: each thing pending carries the
index of its token, and what is applied is written down.

* **The books change nothing.**  Without them a ledger is the machine (`Ledger.machine_run`).
* **The books balance.**  At every moment each operator of the row read so far, negations among
  them, is either applied or pending, and it is so once.  An open parenthesis is never applied.  And
  every application but that of a negation costs one operand, so the operands there are and the
  applications of that kind make up the numbers read (`Ledger.Balanced`).
-/
import Reckoner.Proofs.Machine.Frame

namespace Reckoner

/-! ## 1. Counting symbols -/

namespace Symbol

variable {α : Type} {here : Symbol α} {row : List (Symbol α)}

/-- Whether this is an operator that stands between two operands. -/
def isOperator : Symbol α → Bool
  | .operator _ => true
  | _ => false

/-- What this becomes when it is pending, if it is an operator or a negation. -/
def pending? : Symbol α → Option Pending
  | .operator op => some (.operator op)
  | .negation => some .negation
  | _ => none

/-- How many numbers a row has. -/
def numbers (row : List (Symbol α)) : Nat := row.countP isNumber

/-- How many operators between two operands a row has. -/
def binaries (row : List (Symbol α)) : Nat := row.countP isOperator

/-- The operators and negations of a row, each with its index. -/
def operators (row : List (Symbol α)) : List (Pending × Nat) :=
  row.zipIdx.filterMap fun here => here.1.pending?.map (·, here.2)

theorem numbers_concat :
    numbers (row ++ [here]) = numbers row + if here.isNumber then 1 else 0 := by
  simp [numbers, List.countP_append, List.countP_singleton]

theorem operators_concat :
    operators (row ++ [here]) = operators row ++ (here.pending?.map (·, row.length)).toList := by
  simp only [operators, List.zipIdx_append, List.filterMap_append, Nat.zero_add]
  cases here <;> rfl

theorem operators_concat_of_none (h : here.pending? = none) :
    operators (row ++ [here]) = operators row := by
  rw [operators_concat, h]
  exact List.append_nil _

end Symbol

/-- Whether this is an operator that stands between two operands. -/
def Pending.isOperator : Pending → Bool
  | .operator _ => true
  | _ => false

/-- An operator between two operands stays one when it is pending. -/
theorem Symbol.countP_operators {α : Type} (row : List (Symbol α)) :
    (operators row).countP (·.1.isOperator) = binaries row := by
  induction row using List.reverseRecOn with
  | nil => rfl
  | append_singleton row here ih =>
    rw [operators_concat, List.countP_append, ih, binaries, binaries, List.countP_append]
    cases here <;> rfl

open Reckoner.Symbol

/-! ## 2. The ledger -/

/-- The two stacks and what has been applied, the last first.  What is pending or applied comes with
the index of its token. -/
structure Ledger where
  pending : List (Pending × Nat) := []
  operands : List Binary64 := []
  applied : List (Pending × Nat) := []

namespace Ledger

variable {ranks : Ranks} {ready : Pending → Bool} {ledger after next : Ledger}
  {pending applied : List (Pending × Nat)} {operands : List Binary64} {token : Placed Token}
  {index : Nat} {row : List Token}

/-- Nothing pending, no operand, nothing applied. -/
def start : Ledger := {}

/-- The ledger without its books. -/
def machine (ledger : Ledger) : Machine := ⟨ledger.pending.map Prod.fst, ledger.operands⟩

/-- The ledger with one more thing pending. -/
def pushPending (ledger : Ledger) (entry : Pending × Nat) : Ledger :=
  { ledger with pending := entry :: ledger.pending }

/-- Applies from the top as long as `ready` holds of what is there, and writes it down. -/
def applyWhile (ready : Pending → Bool) :
    List (Pending × Nat) → List Binary64 → List (Pending × Nat) → Except RunError Ledger
  | [], operands, applied => .ok ⟨[], operands, applied⟩
  | top :: below, operands, applied =>
    if ready top.1 then
      match top.1.apply operands with
      | .ok values => applyWhile ready below values (top :: applied)
      | .error error => .error error
    else .ok ⟨top :: below, operands, applied⟩

/-- What the token at an index does. -/
def step (ranks : Ranks) (ledger : Ledger) (entry : Placed Token × Nat) : Except RunError Ledger :=
  match entry.1.item with
  | .number value => .ok { ledger with operands := value :: ledger.operands }
  | .operator op =>
    (applyWhile (·.precedes ranks (ranks.ofOperator op)) ledger.pending ledger.operands
      ledger.applied).map (·.pushPending (.operator op, entry.2))
  | .negation => .ok (ledger.pushPending (.negation, entry.2))
  | .opening => .ok (ledger.pushPending (.opening, entry.2))
  | .closing =>
    (applyWhile (· != .opening) ledger.pending ledger.operands ledger.applied).map
      fun closed => { closed with pending := closed.pending.tail }
  | .unknown character => .error (.unknownOperator character entry.1.offset)

/-- What a row of tokens does, each with its index. -/
def run (ranks : Ranks) (ledger : Ledger) (tokens : List (Placed Token × Nat)) :
    Except RunError Ledger :=
  tokens.foldlM (step ranks) ledger

/-- Applies all that is pending. -/
def drain (ledger : Ledger) : Except RunError Ledger :=
  applyWhile (fun _ => true) ledger.pending ledger.operands ledger.applied

/-! ## 3. Without its books a ledger is the machine -/

theorem machine_applyWhile (ready : Pending → Bool) (pending : List (Pending × Nat))
    (operands : List Binary64) (applied : List (Pending × Nat)) :
    (applyWhile ready pending operands applied).map machine
      = Machine.applyWhile ready (pending.map Prod.fst) operands := by
  induction pending generalizing operands applied with
  | nil => rfl
  | cons top below ih =>
    simp only [applyWhile, List.map_cons, Machine.applyWhile]
    split
    · cases top.1.apply operands with
      | ok values => exact ih values _
      | error error => rfl
    · rfl

theorem machine_of_applyWhile (h : applyWhile ready pending operands applied = .ok after) :
    Machine.applyWhile ready (pending.map Prod.fst) operands = .ok after.machine := by
  rw [← machine_applyWhile ready pending operands applied, h]
  rfl

theorem machine_map_applyWhile {change : Ledger → Ledger} {change' : Machine → Machine}
    (h : ∀ ledger, (change ledger).machine = change' ledger.machine) :
    ((applyWhile ready pending operands applied).map change).map machine
      = (Machine.applyWhile ready (pending.map Prod.fst) operands).map change' := by
  rw [← machine_applyWhile ready pending operands applied]
  cases applyWhile ready pending operands applied with
  | ok after => exact congrArg Except.ok (h after)
  | error error => rfl

theorem machine_step (ranks : Ranks) (ledger : Ledger) (entry : Placed Token × Nat) :
    (ledger.step ranks entry).map machine = ledger.machine.step ranks entry.1 := by
  obtain ⟨⟨item, offset⟩, index⟩ := entry
  cases item with
  | operator op => exact machine_map_applyWhile fun _ => rfl
  | closing => exact machine_map_applyWhile fun _ => by simp [machine]
  | _ => rfl

/-- **Without its books** a ledger runs as the machine does. -/
theorem machine_run (ranks : Ranks) (ledger : Ledger) (tokens : List (Placed Token))
    (index : Nat) : (ledger.run ranks (tokens.zipIdx index)).map machine
      = ledger.machine.run ranks tokens := by
  induction tokens generalizing ledger index with
  | nil => rfl
  | cons token tokens ih =>
    have hstep := machine_step ranks ledger (token, index)
    rw [Machine.run_cons, ← hstep, List.zipIdx_cons, run, List.foldlM_cons]
    cases ledger.step ranks (token, index) with
    | ok between => exact ih between (index + 1)
    | error error => rfl

theorem machine_drain (ledger : Ledger) : ledger.drain.map machine = ledger.machine.drain :=
  machine_applyWhile _ _ _ _

/-! ## 4. The books balance -/

/-- What is applied, and what is pending and no parenthesis. -/
def entries (ledger : Ledger) : List (Pending × Nat) :=
  ledger.applied ++ ledger.pending.filter (·.1 != .opening)

/-- How often an operator between two operands was applied. -/
def spent (ledger : Ledger) : Nat :=
  ledger.applied.countP (·.1.isOperator)

/-- The books behind a row.  Each operator is applied or pending, and no more often than it stands
in the row, no parenthesis was applied, and the operands there are and the ones spent are the numbers
of the row. -/
structure Balanced (row : List Token) (ledger : Ledger) : Prop where
  entries : ledger.entries.Perm (operators row)
  applied : ∀ entry ∈ ledger.applied, entry.1 ≠ .opening
  operands : ledger.operands.length + ledger.spent = numbers row

theorem balanced_start : Balanced [] start := ⟨.nil, by simp [start], rfl⟩

theorem length_of_apply {top : Pending} {values : List Binary64}
    (h : top.apply operands = .ok values) : top ≠ .opening ∧
      values.length + (if top.isOperator then 1 else 0) = operands.length := by
  unfold Pending.apply at h
  split at h <;> cases h <;> simp [Pending.isOperator]

/-- **Applying** moves entries from what is pending to what is applied, and the books still
balance. -/
theorem Balanced.applyWhile (h : Balanced row ⟨pending, operands, applied⟩)
    (hafter : applyWhile ready pending operands applied = .ok after) : Balanced row after := by
  induction pending generalizing operands applied with
  | nil =>
    cases hafter
    exact h
  | cons top below ih =>
    rw [Ledger.applyWhile] at hafter
    split at hafter
    next =>
      cases hvalues : top.1.apply operands with
      | error error => simp [hvalues] at hafter
      | ok values =>
        rw [hvalues] at hafter
        obtain ⟨hne, hlength⟩ := length_of_apply hvalues
        refine ih ⟨?_, ?_, ?_⟩ hafter
        · have hentries := h.entries
          rw [Ledger.entries, List.filter_cons_of_pos (by simpa using hne)] at hentries
          exact List.perm_middle.symm.trans hentries
        · exact List.forall_mem_cons.mpr ⟨hne, h.applied⟩
        · have hnumbers := h.operands
          simp only [spent, List.countP_cons] at hnumbers hlength ⊢
          omega
    next =>
      cases hafter
      exact h

/-- What becomes pending is a new entry, unless it is a parenthesis. -/
theorem Balanced.pushPending {here : Token} {pending : Pending} (h : Balanced row ledger)
    (hnumber : here.isNumber = false)
    (hpending : here.pending? = if pending = .opening then none else some pending) :
    Balanced (row ++ [here]) (ledger.pushPending (pending, row.length)) := by
  refine ⟨?_, h.applied, ?_⟩
  · by_cases hopening : pending = .opening
    · subst hopening
      rw [operators_concat_of_none hpending]
      simpa [Ledger.entries, Ledger.pushPending] using h.entries
    · rw [operators_concat, hpending, if_neg hopening, Ledger.entries, Ledger.pushPending,
        List.filter_cons_of_pos (by simpa using hopening)]
      exact List.perm_middle.trans
        ((h.entries.cons _).trans (List.perm_append_singleton _ _).symm)
  · rw [numbers_concat, hnumber]
    exact h.operands

theorem entries_tail (h : Ledger.applyWhile (· != .opening) pending operands applied = .ok after) :
    entries { after with pending := after.pending.tail } = after.entries := by
  have htop := Machine.head?_of_applyWhile (machine_of_applyWhile h)
  obtain ⟨pending, operands, applied⟩ := after
  cases pending with
  | nil => rfl
  | cons top below =>
    obtain ⟨top, index⟩ := top
    obtain rfl : top = .opening := by simpa [machine] using htop
    simp [entries]

/-- **One token** adds its own entry, if it has one, and the books balance. -/
theorem Balanced.step (h : Balanced row ledger)
    (hstep : ledger.step ranks (token, row.length) = .ok next) :
    Balanced (row ++ [token.item]) next := by
  obtain ⟨item, offset⟩ := token
  cases item with
  | number value =>
    cases hstep
    have hnumbers := h.operands
    refine ⟨?_, h.applied, ?_⟩
    · rw [operators_concat_of_none rfl]
      exact h.entries
    · simp only [numbers_concat, isNumber, if_true, List.length_cons, spent] at hnumbers ⊢
      omega
  | negation =>
    cases hstep
    exact h.pushPending rfl rfl
  | opening =>
    cases hstep
    exact h.pushPending rfl rfl
  | operator op =>
    obtain ⟨after, hafter, rfl⟩ := Machine.exists_of_map_eq_ok hstep
    exact (h.applyWhile hafter).pushPending rfl rfl
  | closing =>
    obtain ⟨after, hafter, rfl⟩ := Machine.exists_of_map_eq_ok hstep
    have hbalanced := h.applyWhile hafter
    refine ⟨?_, hbalanced.applied, ?_⟩
    · rw [entries_tail hafter, operators_concat_of_none rfl]
      exact hbalanced.entries
    · rw [numbers_concat]
      exact hbalanced.operands
  | unknown character => cases hstep

/-- **The books balance** behind every row. -/
theorem Balanced.run {tokens : List (Placed Token)} (h : Balanced row ledger)
    (hrun : ledger.run ranks (tokens.zipIdx row.length) = .ok next) :
    Balanced (row ++ tokens.map Placed.item) next := by
  induction tokens generalizing ledger row with
  | nil =>
    cases hrun
    simpa using h
  | cons token tokens ih =>
    rw [List.zipIdx_cons, Ledger.run, List.foldlM_cons] at hrun
    cases hstep : ledger.step ranks (token, row.length) with
    | error error =>
      rw [hstep] at hrun
      cases hrun
    | ok between =>
      rw [hstep] at hrun
      rw [List.map_cons, List.append_cons]
      refine ih (h.step hstep) ?_
      rw [List.length_append]
      exact hrun

end Ledger

end Reckoner
