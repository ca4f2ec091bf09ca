/-
# Parentheses and what lies outside of them

Inside a pair of parentheses the machine works as if it had started there.  The open parenthesis is
a mark among what is pending that no operator applies and no closing parenthesis of the inside takes
away, so all that lies below it stays.

* **A block** leaves behind the operands it leaves by itself, put on whatever was there, and nothing
  pending (`Machine.run_block`).  That holds of any row which closes all it opens and comes to its
  end, not of expressions alone: a block may leave several operands or none.
* **A parenthesis that closes nothing** applies all there is, and so does one that closes a
  parenthesis in front of everything.  The two cannot be told apart (`Token.value_opening_front`).

For the second, two runs are compared, one with a mark at the bottom and one without
(`Machine.run_marked`).  They go alike until the row closes something it has not opened.  That takes
the mark away in the one run and nothing in the other, and from there on they are the same.
-/
import Reckoner.Proofs.Machine.Conservation

namespace Reckoner

open Reckoner.Symbol

namespace Machine

variable {ranks : Ranks} {machine inside drained : Machine} {tokens : List (Placed Token)}
  {pending : List Pending} {operands : List Binary64} {ready : Pending → Bool}

/-! ## 1. A block -/

/-- Where a row has come to an end of its own above a mark, all above the mark is settled. -/
theorem settled_onto (hclosed : inside.depth = 0) (hdrain : inside.drain = .ok drained)
    (below : List Pending) (outer : List Binary64) :
    Settled ranks [] (inside.onto below outer) below (drained.operands ++ outer) := by
  obtain ⟨pending, values⟩ := drained
  obtain rfl : pending = [] := (pending_of_drain hdrain).1
  refine ⟨inside.pending, rfl, fun top hmem => ⟨?_, by simp⟩, drain_onto hdrain outer⟩
  rintro rfl
  exact List.count_eq_zero.mp hclosed hmem

/-- **A block in parentheses does not look below itself.**  Take a row whose parentheses all belong
together and that, from empty stacks, is worked out to the end without an error.  In parentheses it
does in any machine what it does there: all that was pending stays as it was, and the operands it
leaves come on top of those there were. -/
theorem run_block (hclosed : ∀ i, ¬Unclosed (tokens.map Placed.item) i)
    (hopened : ∀ j, ¬Unopened (tokens.map Placed.item) j)
    (hrun : start.run ranks tokens = .ok inside) (hdrain : inside.drain = .ok drained)
    (machine : Machine) (offset offset' : Nat) :
    machine.run ranks (⟨.opening, offset⟩ :: (tokens ++ [⟨.closing, offset'⟩]))
      = .ok ⟨machine.pending, drained.operands ++ machine.operands⟩ := by
  have hmatched : depthAfter 0 (tokens.map Placed.item) = some 0 :=
    depthAfter_zero_iff_matched.mpr ⟨hclosed, hopened⟩
  have hdepth : inside.depth = 0 := depth_of_run hrun hmatched
  have hopening : machine.step ranks ⟨.opening, offset⟩
      = .ok (start.onto (.opening :: machine.pending) machine.operands) := rfl
  have hinside : (start.onto (.opening :: machine.pending) machine.operands).run ranks tokens
      = .ok (inside.onto (.opening :: machine.pending) machine.operands) :=
    run_onto hrun hmatched (fun _ _ => guarded_opening) machine.operands
  have hsettled : Settled ranks [] (inside.onto (.opening :: machine.pending) machine.operands)
      (.opening :: machine.pending) (drained.operands ++ machine.operands) :=
    settled_onto hdepth hdrain _ _
  rw [run_cons, hopening, Except.bind, run_append, hinside, Except.bind, run_cons,
    hsettled.step_closing offset']
  rfl

/-- Two numbers and a sum in parentheses of its own, behind `∞ × -`: the block leaves two operands,
and the product and the negation wait where they were. -/
theorem run_block_two_operands :
    (Machine.mk [.negation, .operator .multiply] [.infinite false]).run .standard
      (⟨.opening, 0⟩ :: ([⟨.number (.infinite true), 1⟩, ⟨.opening, 2⟩, ⟨.number .nan, 3⟩,
        ⟨.operator .add, 4⟩, ⟨.number .nan, 5⟩, ⟨.closing, 6⟩] ++ [⟨.closing, 7⟩]))
      = .ok ⟨[.negation, .operator .multiply], [.nan, .infinite true, .infinite false]⟩ := by
  have hrun : start.run .standard [⟨.number (.infinite true), 1⟩, ⟨.opening, 2⟩,
      ⟨.number .nan, 3⟩, ⟨.operator .add, 4⟩, ⟨.number .nan, 5⟩, ⟨.closing, 6⟩]
      = .ok ⟨[], [.nan, .infinite true]⟩ := rfl
  have hdrain : drain ⟨[], [.nan, .infinite true]⟩ = .ok ⟨[], [.nan, .infinite true]⟩ := rfl
  refine run_block ?_ ?_ hrun hdrain _ 0 7
  · exact (depthAfter_zero_iff_matched.mp rfl).1
  · exact (depthAfter_zero_iff_matched.mp rfl).2

/-! ## 2. A mark at the bottom -/

/-- The machine with an open parenthesis below all that is pending. -/
def marked (machine : Machine) : Machine :=
  { machine with pending := machine.pending ++ [.opening] }

/-- The second outcome is the first, or the first with a mark at the bottom. -/
def UpToMark (outcome outcome' : Except RunError Machine) : Prop :=
  outcome' = outcome ∨ outcome' = outcome.map marked

theorem applyWhile_marked (hopening : ready .opening = false) (pending : List Pending)
    (operands : List Binary64) : applyWhile ready (pending ++ [.opening]) operands
      = (applyWhile ready pending operands).map marked := by
  induction pending generalizing operands with
  | nil => exact applyWhile_of_head? (by rintro _ ⟨⟩; exact hopening) operands
  | cons top below ih =>
    rw [List.cons_append, applyWhile, applyWhile]
    split
    · cases top.apply operands with
      | ok values => exact ih values
      | error error => rfl
    · rfl

/-- What is done to the machine after it has applied, with the mark below or without it. -/
theorem UpToMark.map_applyWhile {change : Machine → Machine} (hopening : ready .opening = false)
    (h : ∀ after, change (marked after) = marked (change after) ∨
      change (marked after) = change after) :
    UpToMark ((applyWhile ready pending operands).map change)
      ((applyWhile ready (pending ++ [.opening]) operands).map change) := by
  rw [applyWhile_marked hopening]
  cases applyWhile ready pending operands with
  | ok after =>
    rcases h after with hmarked | hsame
    · exact .inr (congrArg Except.ok hmarked)
    · exact .inl (congrArg Except.ok hsame)
  | error error => exact .inl rfl

/-- **One token** keeps the mark, or takes it away where nothing else is open. -/
theorem step_marked (ranks : Ranks) (machine : Machine) (token : Placed Token) :
    UpToMark (machine.step ranks token) (machine.marked.step ranks token) := by
  obtain ⟨item, offset⟩ := token
  cases item with
  | number value => exact .inr rfl
  | negation => exact .inr rfl
  | opening => exact .inr rfl
  | unknown character => exact .inl rfl
  | operator op => exact .map_applyWhile (precedes_opening ranks _) fun after => .inl rfl
  | closing =>
    refine .map_applyWhile rfl fun after => ?_
    obtain ⟨pending, operands⟩ := after
    -- with nothing left above it the mark is what is taken away
    cases pending with
    | nil => exact .inr rfl
    | cons top below => exact .inl rfl

/-- **A row** keeps the mark or takes it away. -/
theorem run_marked (ranks : Ranks) (machine : Machine) (tokens : List (Placed Token)) :
    UpToMark (machine.run ranks tokens) (machine.marked.run ranks tokens) := by
  induction tokens generalizing machine with
  | nil => exact .inr rfl
  | cons token tokens ih =>
    rw [run_cons, run_cons]
    rcases step_marked ranks machine token with hsame | hmarked
    · -- the mark is gone, or both have halted: the rest of the run is the same
      exact .inl (by rw [hsame])
    · rw [hmarked]
      cases machine.step ranks token with
      | ok next => exact ih next
      | error error => exact .inl rfl

/-- Where nothing is open a closing parenthesis does the same with the mark and without it. -/
theorem step_closing_marked (hnone : machine.depth = 0) (offset : Nat) :
    machine.marked.step ranks ⟨.closing, offset⟩ = machine.step ranks ⟨.closing, offset⟩ := by
  obtain ⟨pending, operands⟩ := machine
  simp only [step, marked]
  rw [applyWhile_marked rfl]
  cases hafter : applyWhile (· != .opening) pending operands with
  | error error => rfl
  | ok after =>
    have hdepth : after.depth = 0 := (depth_of_applyWhile rfl hafter).trans hnone
    have htop := head?_of_applyWhile hafter
    obtain ⟨pending, operands⟩ := after
    cases pending with
    | nil => rfl
    | cons top below =>
      obtain rfl : top = .opening := by simpa using htop top rfl
      simp [depth] at hdepth

/-- **A row that closes all it opens**, and behind it one closing parenthesis more: an opening one
in front of it all makes no difference. -/
theorem run_opening_front (hclosed : ∀ i, ¬Unclosed (tokens.map Placed.item) i)
    (offset offset' : Nat) :
    start.run ranks (⟨.opening, offset⟩ :: (tokens ++ [⟨.closing, offset'⟩]))
      = start.run ranks (tokens ++ [⟨.closing, offset'⟩]) := by
  have hopening : start.step ranks ⟨.opening, offset⟩ = .ok start.marked := rfl
  rw [run_cons, hopening, Except.bind, run_append, run_append]
  rcases run_marked ranks start tokens with hsame | hmarked
  · rw [hsame]
  · rw [hmarked]
    cases hrun : start.run ranks tokens with
    | error error => rfl
    | ok next =>
      have hnone : next.depth = 0 := (depth_eq_zero_iff hrun).mpr hclosed
      simp only [Except.map, Except.bind, run_cons, step_closing_marked hnone]

end Machine

/-- **A parenthesis that closes nothing** closes all that stands in front of it.  Take a row that
closes all it opens, whatever else it closes, and a closing parenthesis behind it.  With an opening
one put in front of the row the outcome is the same, whatever follows: the same value, or the same
error. -/
theorem Token.value_opening_front (ranks : Ranks) {front : List (Placed Token)}
    (hclosed : ∀ i, ¬Unclosed (front.map Placed.item) i) (back : List (Placed Token))
    (offset offset' : Nat) :
    Token.value ranks (⟨.opening, offset⟩ :: (front ++ ⟨.closing, offset'⟩ :: back))
      = Token.value ranks (front ++ ⟨.closing, offset'⟩ :: back) := by
  have hsplit : front ++ ⟨.closing, offset'⟩ :: back
      = (front ++ [⟨.closing, offset'⟩]) ++ back := by simp
  rw [hsplit, ← List.cons_append]
  simp only [Token.value, Machine.run_append, Machine.run_opening_front hclosed]

/-- `∞ ) + ( ∞ ) ) × - ∞`, whose first `)` closes nothing either: the last `)` makes a sum of
infinities the left operand of the product. -/
theorem Token.value_opening_front_twice :
    Token.value .standard (⟨.opening, 9⟩ :: ([⟨.number (.infinite false), 0⟩, ⟨.closing, 1⟩,
      ⟨.operator .add, 2⟩, ⟨.opening, 3⟩, ⟨.number (.infinite false), 4⟩, ⟨.closing, 5⟩]
      ++ ⟨.closing, 6⟩ :: [⟨.operator .multiply, 7⟩, ⟨.negation, 8⟩,
        ⟨.number (.infinite false), 9⟩])) = .ok (.infinite true) := by
  rw [Token.value_opening_front]
  · rfl
  · intro i
    rw [← mem_unclosed]
    simp [unclosed, surplus]

end Reckoner
