/-
# What lies further down is left alone

A row that closes no parenthesis it has not opened works on the top of the two stacks.  Put more
below both, and the run goes as before (`Machine.run_onto`), as long as no operator of the row
reaches through to what lies below.

* **Inside parentheses** nothing can reach through: the mark of the open parenthesis is in the way.
* **Outside of them** an operator reaches what lies below if that is of its own rank or a higher
  one.  So only these operators have to be looked at (`Symbol.Outside`).

The same symbols are all that a row can leave pending (`Machine.outside_of_mem_pending`): whatever
was pending inside parentheses has been applied when they were closed.
-/
import Reckoner.Proofs.Grammar.Outside
import Reckoner.Proofs.Machine.Evaluation

namespace Reckoner

namespace Machine

open Reckoner.Symbol

variable {ranks : Ranks} {machine next after : Machine} {token : Placed Token}
  {tokens : List (Placed Token)} {pending below : List Pending}
  {operands values outer : List Binary64} {ready : Pending → Bool} {deeper : Nat}

/-! ## 1. Applying what is pending -/

/-- The machine with more below both of its stacks. -/
def onto (machine : Machine) (below : List Pending) (outer : List Binary64) : Machine :=
  ⟨machine.pending ++ below, machine.operands ++ outer⟩

/-- The number of open parentheses. -/
def depth (machine : Machine) : Nat := machine.pending.count .opening

theorem apply_append {top : Pending} (h : top.apply operands = .ok values)
    (outer : List Binary64) : top.apply (operands ++ outer) = .ok (values ++ outer) := by
  unfold Pending.apply at h
  split at h <;> cases h <;> rfl

/-- Either the top is applied and applying goes on below it, or nothing happens. -/
theorem applyWhile_cons_cases {top : Pending}
    (h : applyWhile ready (top :: pending) operands = .ok after) :
    (ready top ∧ ∃ values, top.apply operands = .ok values ∧
      applyWhile ready pending values = .ok after) ∨
    (ready top = false ∧ after = ⟨top :: pending, operands⟩) := by
  rw [applyWhile] at h
  split at h
  next hready =>
    cases hvalues : top.apply operands with
    | error error => rw [hvalues] at h; cases h
    | ok values =>
      rw [hvalues] at h
      exact .inl ⟨hready, values, rfl, h⟩
  next hready =>
    cases h
    exact .inr ⟨by simpa using hready, rfl⟩

theorem suffix_of_applyWhile (h : applyWhile ready pending operands = .ok after) :
    after.pending <:+ pending := by
  induction pending generalizing operands with
  | nil =>
    cases h
    exact List.suffix_rfl
  | cons top pending ih =>
    rcases applyWhile_cons_cases h with ⟨-, values, -, hbelow⟩ | ⟨-, rfl⟩
    · exact (ih hbelow).trans (List.suffix_cons top pending)
    · exact List.suffix_rfl

theorem head?_of_applyWhile (h : applyWhile ready pending operands = .ok after) :
    ∀ top ∈ after.pending.head?, ready top = false := by
  induction pending generalizing operands with
  | nil =>
    cases h
    rintro _ ⟨⟩
  | cons top pending ih =>
    rcases applyWhile_cons_cases h with ⟨-, values, -, hbelow⟩ | ⟨hready, rfl⟩
    · exact ih hbelow
    · rintro _ ⟨⟩
      exact hready

/-- Where open parentheses are not ready none is lost. -/
theorem depth_of_applyWhile (hopening : ready .opening = false)
    (h : applyWhile ready pending operands = .ok after) :
    after.depth = pending.count .opening := by
  induction pending generalizing operands with
  | nil =>
    cases h
    rfl
  | cons top pending ih =>
    rcases applyWhile_cons_cases h with ⟨hready, values, -, hbelow⟩ | ⟨-, rfl⟩
    · have hne : top ≠ .opening := by
        rintro rfl
        simp [hopening] at hready
      rw [ih hbelow, List.count_cons_of_ne hne]
    · rfl

/-- Applying goes as before with more below, if it stops where it stopped. -/
theorem applyWhile_onto (h : applyWhile ready pending operands = .ok after)
    (hstop : after.pending = [] → ∀ top ∈ below.head?, ready top = false)
    (outer : List Binary64) :
    applyWhile ready (pending ++ below) (operands ++ outer) = .ok (after.onto below outer) := by
  induction pending generalizing operands with
  | nil =>
    cases h
    exact applyWhile_of_head? (hstop rfl) _
  | cons top pending ih =>
    rw [List.cons_append, applyWhile]
    rcases applyWhile_cons_cases h with ⟨hready, values, hvalues, hbelow⟩ | ⟨hready, rfl⟩
    · rw [if_pos hready, apply_append hvalues]
      exact ih hbelow
    · rw [hready]
      rfl

/-- So does applying all that is pending. -/
theorem drain_onto (h : machine.drain = .ok ⟨[], values⟩) (outer : List Binary64) :
    drain ⟨machine.pending, machine.operands ++ outer⟩ = .ok ⟨[], values ++ outer⟩ := by
  have hdrain : applyWhile _ (machine.pending ++ []) (machine.operands ++ outer) = _ :=
    applyWhile_onto h (by simp) outer
  simpa [drain, onto] using hdrain

/-! ## 2. One token -/

/-- What a token that does not halt the machine makes of it. -/
inductive Stepped (ranks : Ranks) (machine : Machine) : Token → Machine → Prop where
  | number (value : Binary64) : Stepped ranks machine (.number value) (machine.pushOperand value)
  | negation : Stepped ranks machine .negation (machine.pushPending .negation)
  | opening : Stepped ranks machine .opening (machine.pushPending .opening)
  | operator {op : Operator} {after : Machine}
    (h : applyWhile (·.precedes ranks (ranks.ofOperator op)) machine.pending machine.operands
      = .ok after) : Stepped ranks machine (.operator op) (after.pushPending (.operator op))
  | closing {after : Machine}
    (h : applyWhile (· != .opening) machine.pending machine.operands = .ok after) :
    Stepped ranks machine .closing { after with pending := after.pending.tail }

theorem exists_of_map_eq_ok {ε α β : Type} {f : α → β} {outcome : Except ε α} {result : β}
    (h : outcome.map f = .ok result) : ∃ value, outcome = .ok value ∧ f value = result := by
  cases outcome with
  | ok value => exact ⟨value, rfl, Except.ok.inj h⟩
  | error error => cases h

theorem stepped_of_step (h : machine.step ranks token = .ok next) :
    Stepped ranks machine token.item next := by
  obtain ⟨item, offset⟩ := token
  cases item with
  | number value =>
    cases h
    exact .number value
  | negation =>
    cases h
    exact .negation
  | opening =>
    cases h
    exact .opening
  | operator op =>
    obtain ⟨after, hafter, rfl⟩ := exists_of_map_eq_ok h
    exact .operator hafter
  | closing =>
    obtain ⟨after, hafter, rfl⟩ := exists_of_map_eq_ok h
    exact .closing hafter
  | unknown character => cases h

theorem precedes_opening (ranks : Ranks) (rank : Nat) :
    Pending.opening.precedes ranks rank = false := rfl

/-- What a closing parenthesis finds on top is the opening one, if any is open. -/
theorem pending_of_closing (h : applyWhile (· != .opening) pending operands = .ok after)
    (hopen : pending.count .opening ≠ 0) : ∃ below, after.pending = .opening :: below := by
  have hdepth : after.depth = pending.count .opening := depth_of_applyWhile rfl h
  cases hafter : after.pending with
  | nil =>
    rw [depth, hafter] at hdepth
    exact absurd hdepth.symm hopen
  | cons top below =>
    have htop := head?_of_applyWhile h top (by simp [hafter])
    obtain rfl : top = .opening := by simpa using htop
    exact ⟨below, rfl⟩

theorem depth_of_closing
    (h : applyWhile (· != .opening) machine.pending machine.operands = .ok after) :
    depth { after with pending := after.pending.tail } = machine.depth - 1 := by
  have hkept : after.depth = machine.depth := depth_of_applyWhile rfl h
  rw [← hkept, depth, depth]
  cases hpending : after.pending with
  | nil => rfl
  | cons top below =>
    have htop := head?_of_applyWhile h top (by simp [hpending])
    obtain rfl : top = .opening := by simpa using htop
    rw [List.count_cons_self]
    rfl

/-- The machine counts open parentheses as the grammar does. -/
theorem depth_of_step (h : machine.step ranks token = .ok next)
    (hdepth : deepen machine.depth token.item = some deeper) : next.depth = deeper := by
  have hstepped := stepped_of_step h
  generalize token.item = item at hstepped hdepth
  cases hstepped with
  | number value =>
    obtain rfl : machine.depth = deeper := by simpa [deepen] using hdepth
    rfl
  | negation =>
    obtain rfl : machine.depth = deeper := by simpa [deepen] using hdepth
    simp [depth, pushPending]
  | opening =>
    obtain rfl : machine.depth + 1 = deeper := by simpa [deepen] using hdepth
    simp [depth, pushPending]
  | operator hafter =>
    obtain rfl : machine.depth = deeper := by simpa [deepen] using hdepth
    have hkept : _ = machine.depth := depth_of_applyWhile (precedes_opening ranks _) hafter
    simpa [depth, pushPending] using hkept
  | closing hafter =>
    rw [depth_of_closing hafter]
    cases hopen : machine.depth with
    | zero => simp [hopen, deepen] at hdepth
    | succ inside => simpa [hopen, deepen] using hdepth

/-- **One token** does the same with more below, if it closes what is open and, being an operator
outside of parentheses, applies nothing below. -/
theorem step_onto (h : machine.step ranks token = .ok next)
    (hdepth : deepen machine.depth token.item = some deeper)
    (hguarded : machine.depth = 0 → ∀ op, token.item = .operator op →
      Guarded ranks (ranks.ofOperator op) below) (outer : List Binary64) :
    (machine.onto below outer).step ranks token = .ok (next.onto below outer) := by
  have hstepped := stepped_of_step h
  obtain ⟨item, offset⟩ := token
  change Stepped ranks machine item next at hstepped
  cases hstepped with
  | number value => rfl
  | negation => rfl
  | opening => rfl
  | @operator op after hafter =>
    have hstop : after.pending = [] →
        ∀ top ∈ below.head?, top.precedes ranks (ranks.ofOperator op) = false := by
      intro hnil
      have hkept : after.depth = machine.depth :=
        depth_of_applyWhile (precedes_opening ranks _) hafter
      have hnone : machine.depth = 0 := by rw [← hkept, depth, hnil]; rfl
      exact (hguarded hnone op rfl).precedes_eq_false (Nat.le_refl _)
    have honto := applyWhile_onto hafter hstop outer
    simp only [step, onto]
    rw [honto]
    rfl
  | @closing after hafter =>
    have hopen : machine.depth ≠ 0 := by
      intro hnone
      simp [hnone, deepen] at hdepth
    obtain ⟨inside, hinside⟩ := pending_of_closing hafter hopen
    have honto : applyWhile _ (machine.pending ++ below) (machine.operands ++ outer) = _ :=
      applyWhile_onto hafter (by simp [hinside]) outer
    simp only [step, onto]
    rw [honto]
    simp [Except.map, onto, hinside]

/-! ## 3. A row -/

theorem exists_of_run_cons (h : machine.run ranks (token :: tokens) = .ok next) :
    ∃ between, machine.step ranks token = .ok between ∧ between.run ranks tokens = .ok next := by
  rw [run_cons] at h
  cases hstep : machine.step ranks token with
  | ok between =>
    rw [hstep] at h
    exact ⟨between, rfl, h⟩
  | error error => rw [hstep] at h; cases h

/-- **The count of open parentheses** behind a row. -/
theorem depth_of_run (h : machine.run ranks tokens = .ok next)
    (hdepth : depthAfter machine.depth (tokens.map Placed.item) = some deeper) :
    next.depth = deeper := by
  induction tokens generalizing machine with
  | nil =>
    cases h
    simpa using hdepth
  | cons token tokens ih =>
    obtain ⟨between, hstep, hrun⟩ := exists_of_run_cons h
    rw [List.map_cons, depthAfter_cons, Option.bind_eq_some_iff] at hdepth
    obtain ⟨inside, hinside, hdepth⟩ := hdepth
    obtain rfl := depth_of_step hstep hinside
    exact ih hrun hdepth

/-- **What lies below is left alone** by a row that closes only what it opens, if its operators
outside of parentheses apply nothing there. -/
theorem run_onto (h : machine.run ranks tokens = .ok next)
    (hdepth : depthAfter machine.depth (tokens.map Placed.item) = some deeper)
    (hguarded : ∀ op, Outside machine.depth (tokens.map Placed.item) (.operator op) →
      Guarded ranks (ranks.ofOperator op) below) (outer : List Binary64) :
    (machine.onto below outer).run ranks tokens = .ok (next.onto below outer) := by
  induction tokens generalizing machine with
  | nil =>
    cases h
    rfl
  | cons token tokens ih =>
    obtain ⟨between, hstep, hrun⟩ := exists_of_run_cons h
    rw [List.map_cons, depthAfter_cons, Option.bind_eq_some_iff] at hdepth
    obtain ⟨inside, hinside, hdepth⟩ := hdepth
    obtain rfl := depth_of_step hstep hinside
    have hhere : machine.depth = 0 → ∀ op, token.item = .operator op →
        Guarded ranks (ranks.ofOperator op) below := by
      intro hnone op hop
      exact hguarded op (outside_cons.mpr (.inl ⟨hnone, hop.symm⟩))
    have hrest : ∀ op, Outside between.depth (tokens.map Placed.item) (.operator op) →
        Guarded ranks (ranks.ofOperator op) below := by
      intro op hop
      exact hguarded op (outside_cons.mpr (.inr ⟨_, hinside, hop⟩))
    rw [run_cons, step_onto hstep hinside hhere outer]
    exact ih hrun hdepth hrest

/-! ## 4. What is left pending -/

/-- The symbol of what is pending. -/
def symbolOf : Pending → Token
  | .operator op => .operator op
  | .negation => .negation
  | .opening => .opening

/-- This is pending, and no parenthesis below it is open. -/
def Outermost (machine : Machine) (pending : Pending) : Prop :=
  ∃ lower, pending :: lower <:+ machine.pending ∧ .opening ∉ pending :: lower

theorem Outermost.of_suffix {top : Pending} (h : Outermost next top)
    (hsuffix : next.pending <:+ machine.pending) : Outermost machine top := by
  obtain ⟨lower, hlower, hnone⟩ := h
  exact ⟨lower, hlower.trans hsuffix, hnone⟩

/-- What becomes pending is the only new thing that may be. -/
theorem Outermost.of_pushPending {top new : Pending}
    (h : Outermost (machine.pushPending new) top) :
    (machine.depth = 0 ∧ top = new) ∨ Outermost machine top := by
  obtain ⟨lower, hlower, hnone⟩ := h
  rcases List.suffix_cons_iff.mp hlower with heq | hlower
  · obtain ⟨rfl, rfl⟩ := List.cons.inj heq
    exact .inl ⟨List.count_eq_zero.mpr fun hmem => hnone (List.mem_cons_of_mem top hmem), rfl⟩
  · exact .inr ⟨lower, hlower, hnone⟩

/-- **One token** outside of parentheses adds at most itself to what is pending there. -/
theorem Outermost.of_step {top : Pending} (htop : Outermost next top)
    (h : machine.step ranks token = .ok next) :
    Outermost machine top ∨ (machine.depth = 0 ∧ symbolOf top = token.item) := by
  have hstepped := stepped_of_step h
  generalize token.item = item at hstepped
  cases hstepped with
  | number value => exact .inl htop
  | negation =>
    rcases htop.of_pushPending with ⟨hnone, rfl⟩ | hbefore
    · exact .inr ⟨hnone, rfl⟩
    · exact .inl hbefore
  | opening =>
    rcases htop.of_pushPending with ⟨hnone, rfl⟩ | hbefore
    · exact .inr ⟨hnone, rfl⟩
    · exact .inl hbefore
  | @operator op after hafter =>
    have hkept : after.depth = machine.depth :=
      depth_of_applyWhile (precedes_opening ranks _) hafter
    rcases htop.of_pushPending with ⟨hnone, rfl⟩ | hbefore
    · exact .inr ⟨hkept ▸ hnone, rfl⟩
    · exact .inl (hbefore.of_suffix (suffix_of_applyWhile hafter))
  | @closing after hafter =>
    have hsuffix : after.pending.tail <:+ machine.pending :=
      (List.tail_suffix _).trans (suffix_of_applyWhile hafter)
    exact .inl (htop.of_suffix hsuffix)

/-- **A row** leaves pending outside of parentheses only what stands outside of its own. -/
theorem Outermost.of_run {top : Pending} (htop : Outermost next top)
    (h : machine.run ranks tokens = .ok next)
    (hdepth : depthAfter machine.depth (tokens.map Placed.item) = some deeper) :
    Outermost machine top ∨ Outside machine.depth (tokens.map Placed.item) (symbolOf top) := by
  induction tokens generalizing machine with
  | nil =>
    cases h
    exact .inl htop
  | cons token tokens ih =>
    obtain ⟨between, hstep, hrun⟩ := exists_of_run_cons h
    rw [List.map_cons, depthAfter_cons, Option.bind_eq_some_iff] at hdepth
    obtain ⟨inside, hinside, hdepth⟩ := hdepth
    obtain rfl := depth_of_step hstep hinside
    rw [List.map_cons, outside_cons]
    rcases ih hrun hdepth with hbetween | hrest
    · rcases hbetween.of_step hstep with hbefore | hhere
      · exact .inl hbefore
      · exact .inr (.inl hhere)
    · exact .inr (.inr ⟨_, hinside, hrest⟩)

/-- **What is left pending** behind a row that closes all it opens stands in the row outside of
parentheses, and is none itself. -/
theorem outside_of_mem_pending (h : start.run ranks tokens = .ok next)
    (hdepth : depthAfter 0 (tokens.map Placed.item) = some 0) {top : Pending}
    (hmem : top ∈ next.pending) :
    top ≠ .opening ∧ Outside 0 (tokens.map Placed.item) (symbolOf top) := by
  have hclosed : next.depth = 0 := depth_of_run h hdepth
  have hnone : .opening ∉ next.pending := List.count_eq_zero.mp hclosed
  obtain ⟨upper, lower, hsplit⟩ := List.append_of_mem hmem
  have hsuffix : top :: lower <:+ next.pending := ⟨upper, hsplit.symm⟩
  have htop : Outermost next top :=
    ⟨lower, hsuffix, fun hopening => hnone (hsuffix.subset hopening)⟩
  refine ⟨fun hopening => hnone (hopening ▸ hmem), ?_⟩
  rcases htop.of_run h hdepth with ⟨_, hstart, -⟩ | houtside
  · cases List.suffix_nil.mp hstart
  · exact houtside

end Machine

end Reckoner
