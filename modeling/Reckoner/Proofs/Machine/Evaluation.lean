/-
# The machine works out the tree

The machine never builds a tree.  It keeps two stacks and decides at each operator what may be
applied already.  Precedence climbing does build the tree, from the same row and the same ranks.
Both mean the same (`Machine.follows`), and so the value of tokens that reading gives is the
value of their tree (`Token.value_eq_value_of_tree`).

The invariant speaks about the part of the pending stack that belongs to the phrase just read.
That part is still there because nothing has forced it to be applied, but it is *settled*: what
comes next releases all of it, and applying all of it leaves exactly the value of the phrase on
top of the operands that were there before (`Machine.Settled`).

* **The stack is not ordered by rank.**  A negation becomes pending whatever lies below it.  It is
  released together with what lies above it, because its operand has taken in all that binds
  tighter than negation does.
* **What lies below is left alone.**  A phrase is read in front of an operator, a negation or a
  parenthesis that waits for it, and nothing in the phrase is of a rank to apply that
  (`Machine.Guarded`).
-/
import Reckoner.Machine
import Reckoner.Proofs.Expression.Climbing
import Reckoner.Proofs.Reading.Grammar

namespace Reckoner

namespace Machine

variable {ranks : Ranks} {least depth : Nat} {machine : Machine} {own below : List Pending}
  {operands values : List Binary64}

/-! ## 1. The stacks -/

theorem run_cons (machine : Machine) (token : Placed Token) (tokens : List (Placed Token)) :
    machine.run ranks (token :: tokens) = (machine.step ranks token).bind (·.run ranks tokens) := by
  rw [run, List.foldlM_cons]
  rfl

theorem run_append (machine : Machine) (front tokens : List (Placed Token)) :
    machine.run ranks (front ++ tokens) = (machine.run ranks front).bind (·.run ranks tokens) := by
  rw [run, List.foldlM_append]
  rfl

/-- **The loop applies the top** as long as the top is ready. -/
theorem applyWhile_eq_applyTop (ready : Pending → Bool) (machine : Machine) :
    applyWhile ready machine.pending machine.operands
      = if machine.pending.head?.any ready then
          machine.applyTop.bind fun next => applyWhile ready next.pending next.operands
        else .ok machine := by
  obtain ⟨pending, operands⟩ := machine
  cases pending with
  | nil => rfl
  | cons top below =>
    rw [applyWhile, applyTop, List.head?_cons, Option.any_some]
    cases top.apply operands <;> rfl

/-- What is ready and can all be applied is applied, whatever lies below it. -/
theorem applyWhile_append {ready : Pending → Bool} (hready : ∀ pending ∈ own, ready pending)
    (hdrain : drain ⟨own, operands⟩ = .ok ⟨[], values⟩) :
    applyWhile ready (own ++ below) operands = applyWhile ready below values := by
  induction own generalizing operands with
  | nil =>
    obtain rfl : operands = values := by simpa [drain, applyWhile] using hdrain
    rfl
  | cons top own ih =>
    obtain ⟨htop, hown⟩ := List.forall_mem_cons.mp hready
    simp only [drain, applyWhile, if_true] at hdrain
    rw [List.cons_append, applyWhile, if_pos htop]
    cases hvalues : top.apply operands with
    | error error => simp [hvalues] at hdrain
    | ok operands' =>
      rw [hvalues] at hdrain
      exact ih hown hdrain

theorem drain_concat {bottom : Pending} {value : Binary64}
    (hdrain : drain ⟨own, operands⟩ = .ok ⟨[], value :: values⟩) {result : List Binary64}
    (hbottom : bottom.apply (value :: values) = .ok result) :
    drain ⟨own ++ [bottom], operands⟩ = .ok ⟨[], result⟩ := by
  simp only [drain] at hdrain ⊢
  rw [applyWhile_append (fun _ _ => rfl) hdrain, applyWhile, if_pos rfl, hbottom]
  rfl

/-! ## 2. Guarded and settled -/

/-- Nothing of rank `least` or higher applies what is pending on top of `below`. -/
def Guarded (ranks : Ranks) (least : Nat) (below : List Pending) : Prop :=
  ∀ top ∈ below.head?, ∀ rank ∈ top.rank? ranks, rank < least

theorem guarded_nil : Guarded ranks least [] := by rintro _ ⟨⟩

theorem guarded_opening : Guarded ranks least (.opening :: below) := by rintro _ ⟨⟩ _ ⟨⟩

/-- What is pending guards itself from all that does not bind tighter. -/
theorem guarded_cons {top : Pending} {rank : Nat} (hrank : top.rank? ranks = some rank) :
    Guarded ranks (rank + 1) (top :: below) := by
  rintro _ ⟨⟩ own hown
  obtain rfl : rank = own := Option.some.inj (hrank.symm.trans hown)
  exact Nat.lt_succ_self _

theorem Guarded.mono {more : Nat} (hguarded : Guarded ranks least below) (h : least ≤ more) :
    Guarded ranks more below := by
  intro top htop rank hrank
  exact (hguarded top htop rank hrank).trans_le h

/-- What guards from all of rank `least` is not applied by an operator of that rank or a higher
one. -/
theorem Guarded.precedes_eq_false (hguarded : Guarded ranks least below) {rank : Nat}
    (hrank : least ≤ rank) : ∀ top ∈ below.head?, top.precedes ranks rank = false := by
  intro top htop
  cases h : top.rank? ranks with
  | none => simp [Pending.precedes, h]
  | some own =>
    have hless : own < least := hguarded top htop own h
    simp only [Pending.precedes, h, Option.any_some, decide_eq_false_iff_not]
    omega

theorem applyWhile_of_head? {ready : Pending → Bool}
    (hstop : ∀ top ∈ below.head?, ready top = false) (operands : List Binary64) :
    applyWhile ready below operands = .ok ⟨below, operands⟩ := by
  have hnone : below.head?.any ready = false := by
    exact (Option.any_eq_false _ _).mpr hstop
  rw [applyWhile_eq_applyTop ready ⟨below, operands⟩, hnone]
  rfl

theorem applyWhile_guarded (hguarded : Guarded ranks least below) {rank : Nat}
    (hrank : least ≤ rank) (operands : List Binary64) :
    applyWhile (·.precedes ranks rank) below operands = .ok ⟨below, operands⟩ :=
  applyWhile_of_head? (hguarded.precedes_eq_false hrank) operands

/-- What comes next applies this: a parenthesis or the end does unless it is a parenthesis itself,
and an operator does if its rank is not higher. -/
def Released (ranks : Ranks) (rest : List Token) (pending : Pending) : Prop :=
  pending ≠ .opening ∧
    ∀ op after, rest = .operator op :: after → pending.precedes ranks (ranks.ofOperator op)

/-- In front of `rest` all that is pending above `below` is released, and applying it leaves
`values`. -/
def Settled (ranks : Ranks) (rest : List Token) (machine : Machine) (below : List Pending)
    (values : List Binary64) : Prop :=
  ∃ own, machine.pending = own ++ below ∧ (∀ pending ∈ own, Released ranks rest pending) ∧
    drain ⟨own, machine.operands⟩ = .ok ⟨[], values⟩

/-- A machine with nothing of its own pending is settled. -/
theorem settled_self (rest : List Token) :
    Settled ranks rest ⟨below, values⟩ below values :=
  ⟨[], rfl, by simp, rfl⟩

/-- What lies right below a settled phrase becomes part of it once it is released too. -/
theorem Settled.apply {rest : List Token} {bottom : Pending} {value : Binary64}
    {result : List Binary64} (h : Settled ranks rest machine (bottom :: below) (value :: values))
    (hreleased : Released ranks rest bottom)
    (hbottom : bottom.apply (value :: values) = .ok result) :
    Settled ranks rest machine below result := by
  obtain ⟨own, hpending, hown, hdrain⟩ := h
  refine ⟨own ++ [bottom], by simpa using hpending, ?_, drain_concat hdrain hbottom⟩
  intro pending hmem
  rcases List.mem_append.mp hmem with hmem | hmem
  · exact hown pending hmem
  · rw [List.mem_singleton.mp hmem]
    exact hreleased

/-- An operator applies all that is settled, stops at the guard, and becomes pending itself. -/
theorem Settled.step_operator {op : Operator} {after : List Token} (offset : Nat)
    (h : Settled ranks (.operator op :: after) machine below values)
    (hguarded : Guarded ranks least below) (hrank : least ≤ ranks.ofOperator op) :
    machine.step ranks ⟨.operator op, offset⟩ = .ok ⟨.operator op :: below, values⟩ := by
  obtain ⟨own, hpending, hown, hdrain⟩ := h
  simp only [step, hpending]
  rw [applyWhile_append (fun pending hmem => (hown pending hmem).2 op after rfl) hdrain,
    applyWhile_guarded hguarded hrank]
  rfl

theorem Settled.step_closing {rest : List Token} (offset : Nat)
    (h : Settled ranks rest machine (.opening :: below) values) :
    machine.step ranks ⟨.closing, offset⟩ = .ok ⟨below, values⟩ := by
  obtain ⟨own, hpending, hown, hdrain⟩ := h
  have hready : ∀ pending ∈ own, (pending != .opening) = true := fun pending hmem => by
    simpa using (hown pending hmem).1
  simp only [step, hpending]
  rw [applyWhile_append hready hdrain]
  rfl

theorem Settled.drain {rest : List Token} (h : Settled ranks rest machine [] values) :
    machine.drain = .ok ⟨[], values⟩ := by
  obtain ⟨own, hpending, -, hdrain⟩ := h
  rw [List.append_nil] at hpending
  rw [Machine.drain, hpending]
  exact hdrain

/-- What is pending is released where nothing comes that binds tighter. -/
theorem released_of_stopsBelow {rest : List Token} {top : Pending} {rank : Nat}
    (hrank : top.rank? ranks = some rank) (h : Expression.StopsBelow ranks (rank + 1) rest) :
    Released ranks rest top := by
  constructor
  · rintro rfl
    cases hrank
  · intro op after hrest
    have hless := h op after hrest
    simp only [Pending.precedes, hrank, Option.any_some, decide_eq_true_eq]
    omega

/-! ## 3. The machine follows climbing -/

/-- Running a row comes, in front of `rest`, to a machine in which `values` are settled. -/
def Reaches (ranks : Ranks) (machine : Machine) (row : List (Placed Token)) (rest : List Token)
    (below : List Pending) (values : List Binary64) : Prop :=
  ∃ after reached, after.map Placed.item = rest ∧
    machine.run ranks row = Machine.run ranks reached after ∧
    Settled ranks rest reached below values

theorem Reaches.of_step {next : Machine} {token : Placed Token} {row : List (Placed Token)}
    {rest : List Token} (hstep : machine.step ranks token = .ok next)
    (h : Reaches ranks next row rest below values) :
    Reaches ranks machine (token :: row) rest below values := by
  obtain ⟨after, reached, hafter, hrun, hsettled⟩ := h
  refine ⟨after, reached, hafter, ?_, hsettled⟩
  rw [run_cons, hstep]
  exact hrun

theorem Reaches.apply {row : List (Placed Token)} {rest : List Token} {bottom : Pending}
    {value : Binary64} {result : List Binary64}
    (h : Reaches ranks machine row rest (bottom :: below) (value :: values))
    (hreleased : Released ranks rest bottom)
    (hbottom : bottom.apply (value :: values) = .ok result) :
    Reaches ranks machine row rest below result := by
  obtain ⟨after, reached, hafter, hrun, hsettled⟩ := h
  exact ⟨after, reached, hafter, hrun, hsettled.apply hreleased hbottom⟩

/-- The run goes on from where the values are settled. -/
theorem Reaches.trans {row : List (Placed Token)} {middle rest : List Token}
    {below' : List Pending} {values' : List Binary64}
    (h : Reaches ranks machine row middle below values)
    (hnext : ∀ after reached, after.map Placed.item = middle →
      Settled ranks middle reached below values → Reaches ranks reached after rest below' values') :
    Reaches ranks machine row rest below' values' := by
  obtain ⟨after, reached, hafter, hrun, hsettled⟩ := h
  obtain ⟨after', reached', hafter', hrun', hsettled'⟩ := hnext after reached hafter hsettled
  exact ⟨after', reached', hafter', hrun.trans hrun', hsettled'⟩

/-- What climbing reads, the machine works out above any stack that guards it. -/
def FollowsClimb (ranks : Ranks) (depth : Nat) : Prop :=
  ∀ least (row : List (Placed Token)) tree rest,
    Expression.climb? ranks depth least (row.map Placed.item) = some (tree, rest) →
    ∀ below operands, Guarded ranks least below →
      Reaches ranks ⟨below, operands⟩ row rest below (tree.value :: operands)

/-- The first operand needs no guard: nothing is applied before it is read. -/
def FollowsOperand (ranks : Ranks) (depth : Nat) : Prop :=
  ∀ (row : List (Placed Token)) tree rest,
    Expression.operand? ranks depth (row.map Placed.item) = some (tree, rest) →
    ∀ below operands, Reaches ranks ⟨below, operands⟩ row rest below (tree.value :: operands)

/-- Extending starts where the left operand is settled. -/
def FollowsExtend (ranks : Ranks) (depth : Nat) : Prop :=
  ∀ least left (row : List (Placed Token)) tree rest,
    Expression.extend? ranks depth least left (row.map Placed.item) = some (tree, rest) →
    ∀ machine below operands, Guarded ranks least below →
      Settled ranks (row.map Placed.item) machine below (left.value :: operands) →
      Reaches ranks machine row rest below (tree.value :: operands)

theorem followsOperand_succ (hc : FollowsClimb ranks depth) :
    FollowsOperand ranks (depth + 1) := by
  intro row tree rest h below operands
  cases row with
  | nil => simp [Expression.operand?] at h
  | cons token row =>
    obtain ⟨item, offset⟩ := token
    cases item with
    | number value =>
      obtain ⟨rfl, rfl⟩ : Expression.number value = tree ∧ row.map Placed.item = rest := by
        simpa [Expression.operand?] using h
      exact ⟨row, ⟨below, value :: operands⟩, rfl, rfl, settled_self _⟩
    | negation =>
      simp only [List.map_cons, Expression.operand?] at h
      split at h
      · rename_i inner rest' hinner
        cases h
        have hinside := hc _ row inner rest hinner (.negation :: below) operands (guarded_cons rfl)
        have hreleased : Released ranks rest .negation :=
          released_of_stopsBelow rfl (Expression.stopsBelow_climb? hinner)
        exact (hinside.apply hreleased rfl).of_step rfl
      · cases h
    | opening =>
      simp only [List.map_cons, Expression.operand?] at h
      split at h
      · rename_i inner rest' hinner
        cases h
        have hinside := hc _ row tree (.closing :: rest) hinner (.opening :: below) operands
          guarded_opening
        refine (hinside.trans fun after reached hafter hsettled => ?_).of_step rfl
        obtain ⟨⟨item, offset'⟩, after, rfl, hitem, rfl⟩ := List.map_eq_cons_iff.mp hafter
        obtain rfl : item = .closing := hitem
        have hclosed : Reaches ranks ⟨below, tree.value :: operands⟩ after
            (after.map Placed.item) below (tree.value :: operands) :=
          ⟨after, _, rfl, rfl, settled_self _⟩
        exact hclosed.of_step (hsettled.step_closing offset')
      · cases h
    | operator op => simp [Expression.operand?] at h
    | closing => simp [Expression.operand?] at h
    | unknown character => simp [Expression.operand?] at h

theorem followsExtend_succ (hc : FollowsClimb ranks depth) (he : FollowsExtend ranks depth) :
    FollowsExtend ranks (depth + 1) := by
  intro least left row tree rest h machine below operands hguarded hsettled
  by_cases hrow : ∃ op after, row.map Placed.item = .operator op :: after
  · obtain ⟨op, after, hop⟩ := hrow
    obtain ⟨⟨item, offset⟩, row, rfl, hitem, rfl⟩ := List.map_eq_cons_iff.mp hop
    obtain rfl : item = .operator op := hitem
    rw [List.map_cons, Expression.extend?_operator] at h
    split at h
    · rename_i hrank
      split at h
      · rename_i right rest' hright
        have hstep := hsettled.step_operator offset hguarded hrank
        have hinside := hc _ row right rest' hright (.operator op :: below)
          (left.value :: operands) (guarded_cons rfl)
        have hreleased : Released ranks rest' (.operator op) :=
          released_of_stopsBelow rfl (Expression.stopsBelow_climb? hright)
        refine ((hinside.apply hreleased rfl).trans fun after reached hafter hjoined => ?_).of_step
          hstep
        subst hafter
        exact he least _ after tree rest h reached below operands hguarded hjoined
      · cases h
    · cases h
      exact ⟨_, machine, rfl, rfl, hsettled⟩
  · rw [Expression.extend?_stop fun op after heq => hrow ⟨op, after, heq⟩] at h
    cases h
    exact ⟨row, machine, rfl, rfl, hsettled⟩

theorem followsClimb_succ (ho : FollowsOperand ranks depth) (he : FollowsExtend ranks depth) :
    FollowsClimb ranks (depth + 1) := by
  intro least row tree rest h below operands hguarded
  rw [Expression.climb?] at h
  split at h
  · rename_i left rest' hleft
    refine (ho row left rest' hleft below operands).trans fun after reached hafter hsettled => ?_
    subst hafter
    exact he least left after tree rest h reached below operands hguarded hsettled
  · cases h

/-- **The machine follows climbing**, at every depth. -/
theorem follows (ranks : Ranks) (depth : Nat) :
    FollowsOperand ranks depth ∧ FollowsExtend ranks depth ∧ FollowsClimb ranks depth := by
  induction depth with
  | zero =>
    refine ⟨?_, ?_, ?_⟩
    · intro _ _ _ h
      simp [Expression.operand?] at h
    · intro _ _ _ _ _ h
      simp [Expression.extend?] at h
    · intro _ _ _ _ h
      simp [Expression.climb?] at h
  | succ depth ih =>
    obtain ⟨ho, he, hc⟩ := ih
    exact ⟨followsOperand_succ hc, followsExtend_succ hc he, followsClimb_succ ho he⟩

/-- A row that has a tree is worked out whole above any stack that guards it. -/
theorem run_of_ofTokens? {tokens : List (Placed Token)} {tree : Expression}
    (h : Expression.ofTokens? ranks (tokens.map Placed.item) = some tree)
    (hguarded : Guarded ranks 0 below) (operands : List Binary64) :
    ∃ machine, Machine.run ranks ⟨below, operands⟩ tokens = .ok machine ∧
      Settled ranks [] machine below (tree.value :: operands) := by
  unfold Expression.ofTokens? at h
  split at h
  · rename_i hclimb
    cases h
    obtain ⟨-, -, hc⟩ := follows ranks (2 * (tokens.map Placed.item).length + 2)
    obtain ⟨after, machine, hafter, hrun, hsettled⟩ :=
      hc 0 tokens tree [] hclimb below operands hguarded
    obtain rfl : after = [] := List.map_eq_nil_iff.mp hafter
    exact ⟨machine, hrun, hsettled⟩
  · cases h

/-- **A row in parentheses** leaves its value, whatever is pending outside. -/
theorem run_parentheses {tokens : List (Placed Token)} {tree : Expression}
    (h : Expression.ofTokens? ranks (tokens.map Placed.item) = some tree) (machine : Machine)
    (offset offset' : Nat) :
    machine.run ranks (⟨.opening, offset⟩ :: (tokens ++ [⟨.closing, offset'⟩]))
      = .ok (machine.pushOperand tree.value) := by
  obtain ⟨pending, operands⟩ := machine
  obtain ⟨inside, hrun, hsettled⟩ :=
    run_of_ofTokens? h (guarded_opening : Guarded ranks 0 (.opening :: pending)) operands
  have hopening : step ranks ⟨pending, operands⟩ ⟨.opening, offset⟩
      = .ok ⟨.opening :: pending, operands⟩ := rfl
  rw [run_cons, hopening, Except.bind, run_append, hrun, Except.bind, run_cons,
    hsettled.step_closing offset']
  rfl

end Machine

/-! ## 4. The value of what has been read -/

/-- Tokens that reading gives for a row of meaningful lexemes have a tree. -/
theorem Token.ofTokens?_of_read (ranks : Ranks) {lexemes : List (Placed Lexeme)}
    {tokens : List (Placed Token)} (hplain : Symbol.Plain (lexemes.map Placed.item))
    (h : Token.read lexemes = .ok tokens) :
    ∃ tree, Expression.ofTokens? ranks (tokens.map Placed.item) = some tree :=
  Expression.ofTokens?_of_derives ranks (Token.derives_of_read hplain h)

/-- From two empty stacks a row that has a tree leaves its value and nothing else. -/
theorem Machine.run_start_of_ofTokens? {ranks : Ranks} {tokens : List (Placed Token)}
    {tree : Expression} (h : Expression.ofTokens? ranks (tokens.map Placed.item) = some tree) :
    ∃ machine, Machine.start.run ranks tokens = .ok machine ∧
      machine.drain = .ok ⟨[], [tree.value]⟩ := by
  obtain ⟨machine, hrun, hsettled⟩ := run_of_ofTokens? h guarded_nil []
  exact ⟨machine, hrun, hsettled.drain⟩

/-- The value of a token stream is what the run and the last applications leave on top. -/
theorem Token.value_of_drain {ranks : Ranks} {tokens : List (Placed Token)} {machine : Machine}
    {value : Binary64} {operands : List Binary64}
    (hrun : Machine.start.run ranks tokens = .ok machine)
    (hdrain : machine.drain = .ok ⟨[], value :: operands⟩) :
    Token.value ranks tokens = .ok value := by
  simp only [Token.value, hrun, bind, Except.bind, hdrain]
  rfl

theorem Token.value_of_ofTokens? {ranks : Ranks} {tokens : List (Placed Token)} {tree : Expression}
    (h : Expression.ofTokens? ranks (tokens.map Placed.item) = some tree) :
    Token.value ranks tokens = .ok tree.value := by
  obtain ⟨machine, hrun, hdrain⟩ := Machine.run_start_of_ofTokens? h
  exact Token.value_of_drain hrun hdrain

/-- **The machine works out the tree.**  Under any ranks, tokens that reading gives for a row of
meaningful lexemes have a tree by precedence climbing, and their value is the value of that tree. -/
theorem Token.value_eq_value_of_tree (ranks : Ranks) {lexemes : List (Placed Lexeme)}
    {tokens : List (Placed Token)} (hplain : Symbol.Plain (lexemes.map Placed.item))
    (h : Token.read lexemes = .ok tokens) :
    ∃ tree, Expression.ofTokens? ranks (tokens.map Placed.item) = some tree ∧
      Token.value ranks tokens = .ok tree.value := by
  obtain ⟨tree, htree⟩ := Token.ofTokens?_of_read ranks hplain h
  exact ⟨tree, htree, Token.value_of_ofTokens? htree⟩

/-- Under a table that ranks negation lowest and sums highest, a line with every kind of token. -/
theorem Token.value_eq_value_of_tree_inverted :
    ∃ tokens tree, Token.read (Lexeme.scan "2^-3(1−4)÷-.5+6") = .ok tokens ∧
      Expression.ofTokens? ⟨9, 5, 0⟩ (tokens.map Placed.item) = some tree ∧
      Token.value ⟨9, 5, 0⟩ tokens = .ok tree.value := by
  have hplain : Symbol.Plain ((Lexeme.scan "2^-3(1−4)÷-.5+6").map Placed.item) := by
    unfold Symbol.Plain
    decide +kernel
  obtain ⟨tokens, h⟩ : ∃ tokens, Token.read (Lexeme.scan "2^-3(1−4)÷-.5+6") = .ok tokens :=
    exists_eq_ok (by decide +kernel)
  obtain ⟨tree, htree, hvalue⟩ := Token.value_eq_value_of_tree ⟨9, 5, 0⟩ hplain h
  exact ⟨tokens, tree, h, htree, hvalue⟩

end Reckoner
