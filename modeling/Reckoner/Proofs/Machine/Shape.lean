/-
# The shape of what is pending

An operator becomes pending once all of its rank or a higher one has been applied, so what it comes
to lie on is the bottom, an open parenthesis, or something of a lower rank.  Between two parentheses
operators therefore rise strictly in rank, and there are no more of them than tiers.  That holds of
every row of tokens and every table, at every moment of the work (`Machine.shape_of_visited`).

A negation becomes pending whatever lies below it, and only the rest of the row keeps what comes
above it in bounds.  Where powers rank highest every operator applies it, and tokens that have been
read never put one negation on another.  So it stays on top of its part of the stack, and the stack
has at most five entries to an open parenthesis, and four more (`Machine.length_le_of_shape`).

* **The moments** of the work are those between two tokens and those amid the loops that apply what
  is pending (`Machine.Visited`).  The latter only shorten the stack.
* **Both shapes say what may lie on what**, all the way down (`Machine.Fits`).  A shorter stack has
  them too, and a token adds at most itself (`Machine.Fits.step`).
-/
import Mathlib.Data.List.Perm.Subperm
import Reckoner.Calculator
import Reckoner.Proofs.Binary64.Integers
import Reckoner.Proofs.Machine.Frame
import Reckoner.Proofs.Machine.RankOrder
import Reckoner.Proofs.Reading.Grammar

namespace Reckoner

open Reckoner.Symbol

namespace Machine

/-! ## 1. The moments of the work -/

/-- Applying what is ready comes through these machines.  The last thing applied may have been taken
off only, and with it some of its operands. -/
inductive Passes (ready : Pending → Bool) : Machine → Machine → Prop where
  | here (machine : Machine) : Passes ready machine machine
  | taken {top : Pending} {below : List Pending} {operands values : List Binary64}
    (hready : ready top) (hvalues : values <:+ operands) :
    Passes ready ⟨top :: below, operands⟩ ⟨below, values⟩
  | applied {top : Pending} {below : List Pending} {operands values : List Binary64}
    {after : Machine} (hready : ready top) (hvalues : top.apply operands = .ok values)
    (hbelow : Passes ready ⟨below, values⟩ after) : Passes ready ⟨top :: below, operands⟩ after

/-- What a token applies before it does anything else. -/
def ready? (ranks : Ranks) : Token → Option (Pending → Bool)
  | .operator op => some (·.precedes ranks (ranks.ofOperator op))
  | .closing => some (· != .opening)
  | _ => none

/-- The machines that working a row of tokens out comes through: behind some of the tokens, while the
next one applies what it finds, and while the rest is applied at the end. -/
inductive Visited (ranks : Ranks) (tokens : List (Placed Token)) : Machine → Prop where
  | behind {front back : List (Placed Token)} {machine : Machine} (hsplit : tokens = front ++ back)
    (hrun : start.run ranks front = .ok machine) : Visited ranks tokens machine
  | amid {front back : List (Placed Token)} {token : Placed Token} {ready : Pending → Bool}
    {machine after : Machine} (hsplit : tokens = front ++ token :: back)
    (hrun : start.run ranks front = .ok machine) (hready : ready? ranks token.item = some ready)
    (hpasses : Passes ready machine after) : Visited ranks tokens after
  | ending {machine after : Machine} (hrun : start.run ranks tokens = .ok machine)
    (hpasses : Passes (fun _ => true) machine after) : Visited ranks tokens after

variable {ranks : Ranks} {machine next after : Machine} {token : Placed Token}
  {tokens : List (Placed Token)} {pending below : List Pending} {top : Pending}
  {operands : List Binary64} {ready : Pending → Bool}

theorem Passes.suffix (h : Passes ready machine after) : after.pending <:+ machine.pending := by
  induction h with
  | here machine => exact List.suffix_rfl
  | taken => exact List.suffix_cons _ _
  | applied hready hvalues hbelow ih => exact ih.trans (List.suffix_cons _ _)

/-- At every moment what is pending is part of what was pending behind some of the tokens. -/
theorem Visited.exists_behind (h : Visited ranks tokens machine) :
    ∃ front back before, tokens = front ++ back ∧ start.run ranks front = .ok before ∧
      machine.pending <:+ before.pending := by
  cases h with
  | behind hsplit hrun => exact ⟨_, _, _, hsplit, hrun, List.suffix_rfl⟩
  | amid hsplit hrun hready hpasses => exact ⟨_, _, _, hsplit, hrun, hpasses.suffix⟩
  | ending hrun hpasses => exact ⟨tokens, [], _, by simp, hrun, hpasses.suffix⟩

/-! ## 2. What lies on what -/

/-- All that is pending lies on something that fits. -/
def Fits (fit : Pending → List Pending → Prop) (pending : List Pending) : Prop :=
  ∀ top below, top :: below <:+ pending → fit top below

variable {fit : Pending → List Pending → Prop}

theorem fits_nil : Fits fit [] := by
  intro top below h
  cases List.suffix_nil.mp h

theorem Fits.of_suffix (h : Fits fit pending) (hsuffix : below <:+ pending) : Fits fit below :=
  fun top lower hlower => h top lower (hlower.trans hsuffix)

theorem Fits.cons (h : Fits fit below) (htop : fit top below) : Fits fit (top :: below) := by
  intro upper lower hlower
  rcases List.suffix_cons_iff.mp hlower with heq | hlower
  · obtain ⟨rfl, rfl⟩ := List.cons.inj heq
    exact htop
  · exact h upper lower hlower

/-- **One token** puts at most itself on what it leaves, so only that has to fit. -/
theorem Fits.step (h : Fits fit machine.pending) (hstep : machine.step ranks token = .ok next)
    (hnegation : token.item = .negation → fit .negation machine.pending)
    (hopening : fit .opening machine.pending)
    (hoperator : ∀ op after, applyWhile (·.precedes ranks (ranks.ofOperator op)) machine.pending
      machine.operands = .ok after → fit (.operator op) after.pending) :
    Fits fit next.pending := by
  have hstepped := stepped_of_step hstep
  generalize token.item = item at hstepped hnegation
  cases hstepped with
  | number value => exact h
  | negation => exact h.cons (hnegation rfl)
  | opening => exact h.cons hopening
  | operator hafter =>
    exact (h.of_suffix (suffix_of_applyWhile hafter)).cons (hoperator _ _ hafter)
  | closing hafter =>
    exact h.of_suffix ((List.tail_suffix _).trans (suffix_of_applyWhile hafter))

/-! ## 3. Operators rise -/

/-- An operator lies on the bottom, on an open parenthesis, or on something of a lower rank. -/
def Rises (ranks : Ranks) (top : Pending) (below : List Pending) : Prop :=
  ∀ op, top = .operator op → Guarded ranks (ranks.ofOperator op) below

theorem guarded_of_applyWhile {rank : Nat}
    (h : applyWhile (·.precedes ranks rank) pending operands = .ok after) :
    Guarded ranks rank after.pending := by
  intro top htop own hown
  have hstop := head?_of_applyWhile h top htop
  rw [Option.mem_def] at hown
  simpa [Pending.precedes, hown] using hstop

/-- **A row** lets operators rise, whatever its tokens and the ranks are. -/
theorem Fits.rises_of_run (h : Fits (Rises ranks) machine.pending)
    (hrun : machine.run ranks tokens = .ok next) : Fits (Rises ranks) next.pending := by
  induction tokens generalizing machine with
  | nil =>
    cases hrun
    exact h
  | cons token tokens ih =>
    obtain ⟨between, hstep, hrun⟩ := exists_of_run_cons hrun
    have hbetween : Fits (Rises ranks) between.pending := by
      refine h.step hstep ?_ ?_ ?_
      · rintro - _ ⟨⟩
      · rintro _ ⟨⟩
      · rintro op after hafter _ ⟨⟩
        exact guarded_of_applyWhile hafter
    exact ih hbetween hrun

/-- Operators that lie on one another have falling ranks from the top down. -/
theorem pairwise_of_rises {ops : List Operator}
    (h : Fits (Rises ranks) (ops.map .operator ++ below)) :
    (ops.map ranks.ofOperator).Pairwise (· > ·) := by
  rw [← List.isChain_iff_pairwise]
  induction ops with
  | nil => exact .nil
  | cons op ops ih =>
    have hlower : Fits (Rises ranks) (ops.map .operator ++ below) :=
      h.of_suffix (List.suffix_cons _ _)
    cases ops with
    | nil => exact .singleton _
    | cons lower ops =>
      have hguarded := h _ _ List.suffix_rfl op rfl
      exact .cons_cons (hguarded (.operator lower) rfl _ rfl) (ih hlower)

/-- **There are no more of them than tiers.** -/
theorem length_le_three {ops : List Operator}
    (h : (ops.map ranks.ofOperator).Pairwise (· > ·)) : ops.length ≤ 3 := by
  have hnodup : (ops.map Operator.tier).Nodup := by
    refine List.pairwise_map.mpr ((List.pairwise_map.mp h).imp fun {a b} hless htier => ?_)
    rw [Ranks.ofOperator_eq, Ranks.ofOperator_eq, htier] at hless
    exact Nat.lt_irrefl _ hless
  have htiers := (List.subperm_of_subset hnodup fun tier _ => tier.mem_all).length_le
  simpa [Tier.all] using htiers

/-! ## 4. Negations stay on top -/

/-- Nothing lies on a negation but an open parenthesis. -/
def SparesSign (top : Pending) (below : List Pending) : Prop :=
  below.head? = some .negation → top = .opening

/-- No powers rank below sums or below products. -/
structure PowersFirst (ranks : Ranks) : Prop where
  additive : ranks.additive ≤ ranks.power
  multiplicative : ranks.multiplicative ≤ ranks.power

/-- Where powers rank highest every operator applies a negation on top. -/
theorem head?_ne_negation (hpowers : PowersFirst ranks) {op : Operator}
    (h : applyWhile (·.precedes ranks (ranks.ofOperator op)) pending operands = .ok after) :
    after.pending.head? ≠ some .negation := by
  intro htop
  have hless : ranks.ofNegation < ranks.ofOperator op := guarded_of_applyWhile h _ htop _ rfl
  have hpower : ranks.ofOperator op ≤ ranks.power := by
    cases op with
    | add | subtract => exact hpowers.additive
    | multiply | divide => exact hpowers.multiplicative
    | power => exact Nat.le_refl _
  exact Nat.lt_irrefl _ (hless.trans_le hpower)

/-- Behind a token that lets a negation follow, none is on top. -/
theorem head?_ne_negation_of_follows (hstep : machine.step ranks token = .ok next)
    (hfollows : Symbol.follows false (some token.item) (.negation : Token)) :
    next.pending.head? ≠ some .negation := by
  have hstepped := stepped_of_step hstep
  generalize token.item = item at hstepped hfollows
  cases hstepped with
  | number value => cases hfollows
  | negation => cases hfollows
  | closing hafter => cases hfollows
  | opening => simp [pushPending]
  | operator hafter => simp [pushPending]

/-- **A row** in which neighbours fit keeps negations on top, where powers rank highest. -/
theorem Fits.sparesSign_of_run {last? : Option Token} {row : List Token}
    (h : Fits SparesSign machine.pending) (hpowers : PowersFirst ranks)
    (hlast : Symbol.follows false last? .negation → machine.pending.head? ≠ some .negation)
    (hlinked : Linked false last? (tokens.map Placed.item ++ row))
    (hrun : machine.run ranks tokens = .ok next) : Fits SparesSign next.pending := by
  induction tokens generalizing machine last? with
  | nil =>
    cases hrun
    exact h
  | cons token tokens ih =>
    obtain ⟨between, hstep, hrun⟩ := exists_of_run_cons hrun
    obtain ⟨hhere, hlinked⟩ := hlinked
    have hbetween : Fits SparesSign between.pending := by
      -- a negation comes where one may follow, an operator only once the one on top is applied
      refine h.step hstep (fun hitem htop => ?_) (fun _ => rfl) fun op after hafter htop => ?_
      · exact absurd htop (hlast (hitem ▸ hhere))
      · exact absurd htop (head?_ne_negation hpowers hafter)
    exact ih hbetween (head?_ne_negation_of_follows hstep) hlinked hrun

theorem Fits.head?_below (h : Fits SparesSign (top :: below)) (htop : top ≠ .opening) :
    below.head? ≠ some .negation :=
  fun hhead => htop (h top below List.suffix_rfl hhead)

/-! ## 5. How much is pending -/

/-- What is pending down to the innermost open parenthesis. -/
def scope (pending : List Pending) : List Pending := pending.takeWhile (· != .opening)

/-- Below a top that is no negation the scope is made of operators. -/
theorem exists_operators_of_scope (h : Fits SparesSign pending)
    (htop : pending.head? ≠ some .negation) :
    ∃ ops : List Operator, scope pending = ops.map .operator := by
  induction pending with
  | nil => exact ⟨[], rfl⟩
  | cons top below ih =>
    cases top with
    | opening => exact ⟨[], rfl⟩
    | negation => exact absurd rfl htop
    | operator op =>
      obtain ⟨ops, hops⟩ := ih (h.of_suffix (List.suffix_cons _ _)) (h.head?_below (by simp))
      exact ⟨op :: ops, congrArg (Pending.operator op :: ·) hops⟩

theorem length_scope_le_three (hrises : Fits (Rises ranks) pending)
    (hsigns : Fits SparesSign pending) (htop : pending.head? ≠ some .negation) :
    (scope pending).length ≤ 3 := by
  obtain ⟨ops, hops⟩ := exists_operators_of_scope hsigns htop
  obtain ⟨below, hbelow⟩ : scope pending <+: pending := List.takeWhile_prefix _
  rw [hops] at hbelow
  rw [hops, List.length_map]
  exact length_le_three (pairwise_of_rises (hbelow ▸ hrises))

/-- **A scope** has at most three operators and a negation on top of them. -/
theorem length_scope_le (hrises : Fits (Rises ranks) pending) (hsigns : Fits SparesSign pending) :
    (scope pending).length ≤ 4 := by
  by_cases htop : pending.head? = some .negation
  · obtain ⟨below, rfl⟩ := List.head?_eq_some_iff.mp htop
    have hsuffix : below <:+ .negation :: below := List.suffix_cons _ _
    exact Nat.succ_le_succ (length_scope_le_three (hrises.of_suffix hsuffix)
      (hsigns.of_suffix hsuffix) (hsigns.head?_below (by simp)))
  · exact (length_scope_le_three hrises hsigns htop).trans (by decide)

/-- The stack is made of scopes, one more than there are open parentheses. -/
theorem length_le_of_scope {most : Nat}
    (h : ∀ below, below <:+ pending → (scope below).length ≤ most) :
    pending.length ≤ (most + 1) * pending.count .opening + (scope pending).length := by
  induction pending with
  | nil => simp
  | cons top below ih =>
    have hbelow := ih fun lower hlower => h lower (hlower.trans (List.suffix_cons _ _))
    by_cases htop : top = .opening
    · -- the scope below is closed off and counts in full
      subst htop
      have hmost := h below (List.suffix_cons _ _)
      rw [List.count_cons_self, List.length_cons, Nat.mul_succ]
      omega
    · have hscope : scope (top :: below) = top :: scope below :=
        List.takeWhile_cons_of_pos (by simpa using htop)
      rw [List.count_cons_of_ne htop, hscope, List.length_cons, List.length_cons]
      omega

/-- **How much is pending** where operators rise and negations are on top: five entries to an open
parenthesis, and four more. -/
theorem length_le_of_shape (hrises : Fits (Rises ranks) machine.pending)
    (hsigns : Fits SparesSign machine.pending) :
    machine.pending.length ≤ 5 * machine.depth + 4 := by
  have hscope : ∀ below, below <:+ machine.pending → (scope below).length ≤ 4 :=
    fun below hbelow => length_scope_le (hrises.of_suffix hbelow) (hsigns.of_suffix hbelow)
  exact (length_le_of_scope hscope).trans (Nat.add_le_add_left (hscope _ List.suffix_rfl) _)

/-! ## 6. At every moment -/

theorem Visited.rises (h : Visited ranks tokens machine) : Fits (Rises ranks) machine.pending := by
  obtain ⟨front, back, before, -, hrun, hsuffix⟩ := h.exists_behind
  exact (fits_nil.rises_of_run hrun).of_suffix hsuffix

/-- At every moment negations are on top, where powers rank highest and the tokens have been
read. -/
theorem Visited.sparesSign (h : Visited ranks tokens machine) {lexemes : List (Placed Lexeme)}
    (hread : Token.read lexemes = .ok tokens) (hpowers : PowersFirst ranks) :
    Fits SparesSign machine.pending := by
  obtain ⟨front, back, before, rfl, hrun, hsuffix⟩ := h.exists_behind
  have hlinked := Token.linked_of_read hread
  rw [List.map_append] at hlinked
  have hstart : start.pending.head? ≠ some .negation := by simp [start]
  exact (fits_nil.sparesSign_of_run hpowers (fun _ => hstart) hlinked hrun).of_suffix hsuffix

/-- **The shape of what is pending**, at every moment of working any row of tokens out, under any
ranks.  Each operator lies on the bottom, on an open parenthesis, or on something of a lower rank.
So operators that lie on one another rise strictly in rank, and there are at most three.  Where the
tokens have been read and powers rank highest, a negation is the topmost of its scope, and with `d`
open parentheses there are at most `5d + 4` entries. -/
theorem shape_of_visited (h : Visited ranks tokens machine) :
    (∀ op below, .operator op :: below <:+ machine.pending →
      below = [] ∨ (∃ lower, below = .opening :: lower) ∨
        ∃ next lower rank, below = next :: lower ∧ next.rank? ranks = some rank ∧
          rank < ranks.ofOperator op) ∧
    (∀ ops : List Operator, ops.map .operator <:+: machine.pending →
      (ops.map ranks.ofOperator).Pairwise (· > ·) ∧ ops.length ≤ 3) ∧
    ∀ lexemes, Token.read lexemes = .ok tokens → ranks.additive ≤ ranks.power →
      ranks.multiplicative ≤ ranks.power →
      (∀ upper lower, machine.pending = upper ++ .negation :: lower →
        upper = [] ∨ ∃ higher, upper = higher ++ [.opening]) ∧
      machine.pending.length ≤ 5 * machine.depth + 4 := by
  refine ⟨?_, ?_, ?_⟩
  · intro op below hbelow
    have hguarded := h.rises _ below hbelow op rfl
    cases below with
    | nil => exact .inl rfl
    | cons next lower =>
      cases hrank : next.rank? ranks with
      | none =>
        cases next with
        | opening => exact .inr (.inl ⟨lower, rfl⟩)
        | operator | negation => cases hrank
      | some rank => exact .inr (.inr ⟨next, lower, rank, rfl, hrank, hguarded next rfl rank hrank⟩)
  · rintro ops ⟨upper, lower, hsplit⟩
    have hsuffix : ops.map .operator ++ lower <:+ machine.pending := ⟨upper, by rw [← hsplit]; simp⟩
    have hfalling := pairwise_of_rises (h.rises.of_suffix hsuffix)
    exact ⟨hfalling, length_le_three hfalling⟩
  · intro lexemes hread hadditive hmultiplicative
    have hsigns := h.sparesSign hread ⟨hadditive, hmultiplicative⟩
    refine ⟨fun upper lower hsplit => ?_, length_le_of_shape h.rises hsigns⟩
    rcases List.eq_nil_or_concat upper with rfl | ⟨higher, top, rfl⟩
    · exact .inl rfl
    · obtain rfl : top = .opening :=
        hsigns top (.negation :: lower) ⟨higher, by rw [hsplit]; simp⟩ rfl
      exact .inr ⟨higher, by simp⟩

/-- Behind the second negation of `1+2×3^-(1+2×3^-4)` one parenthesis is open, and the nine entries
that are pending are as many as there can be. -/
theorem shape_of_visited_full :
    ∃ tokens machine, Token.read (Lexeme.scan "1+2×3^-(1+2×3^-4)") = .ok tokens ∧
      Visited .standard tokens machine ∧ machine.depth = 1 ∧ machine.pending.length = 9 ∧
      machine.pending.length ≤ 5 * machine.depth + 4 := by
  obtain ⟨front, back, operands, hread, hrun⟩ : ∃ front back operands,
      Token.read (Lexeme.scan "1+2×3^-(1+2×3^-4)") = .ok (front ++ back) ∧
      start.run .standard front = .ok ⟨[.negation, .operator .power, .operator .multiply,
        .operator .add, .opening, .negation, .operator .power, .operator .multiply,
        .operator .add], operands⟩ :=
    ⟨[⟨.number (.ofWhole 1), 0⟩, ⟨.operator .add, 1⟩, ⟨.number (.ofWhole 2), 2⟩,
        ⟨.operator .multiply, 3⟩, ⟨.number (.ofWhole 3), 5⟩, ⟨.operator .power, 6⟩, ⟨.negation, 7⟩,
        ⟨.opening, 8⟩, ⟨.number (.ofWhole 1), 9⟩, ⟨.operator .add, 10⟩,
        ⟨.number (.ofWhole 2), 11⟩, ⟨.operator .multiply, 12⟩, ⟨.number (.ofWhole 3), 14⟩,
        ⟨.operator .power, 15⟩, ⟨.negation, 16⟩],
      [⟨.number (.ofWhole 4), 17⟩, ⟨.closing, 18⟩], _, by decide +kernel, rfl⟩
  have hvisited : Visited .standard (front ++ back) _ := .behind rfl hrun
  obtain ⟨-, -, hsigns⟩ := shape_of_visited hvisited
  exact ⟨_, _, hread, hvisited, rfl, rfl, (hsigns _ hread (by decide) (by decide)).2⟩

end Machine

end Reckoner
