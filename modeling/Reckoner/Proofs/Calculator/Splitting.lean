/-
# Where a line may be split

An operator between two lines makes them one line, and the value of that line is not in general the
two values joined: `2+3` and `4`, with a product between them, come to 14.  They are joined when
the operator takes in all of the left line and no part of the right one reaches back past it
(`Calculator.evaluate_split`):

* **on the left** no operator and no negation outside of parentheses has a lower rank.  So all that
  the left line leaves pending is applied before the operator becomes pending;
* **on the right** every operator outside of parentheses has a higher rank.  So none of them
  applies the operator, which waits below all that is pending (`Machine.run_onto`).  A negation
  may have any rank, since it applies nothing when it becomes pending.

Operators of one tier between operands thus group from the left, however many there are.
-/
import Reckoner.Proofs.Calculator.Substitution
import Reckoner.Proofs.Machine.Frame

namespace Reckoner

open Reckoner.Symbol

/-! ## 1. Ranks outside of parentheses -/

/-- Every operator and every negation of the row outside of parentheses has at least this rank. -/
def Token.BindsAtLeast (ranks : Ranks) (rank : Nat) (row : List Token) : Prop :=
  (∀ op, Outside 0 row (.operator op) → rank ≤ ranks.ofOperator op) ∧
    (Outside 0 row .negation → rank ≤ ranks.ofNegation)

/-- Every operator of the row outside of parentheses has a higher rank. -/
def Token.BindsTighter (ranks : Ranks) (rank : Nat) (row : List Token) : Prop :=
  ∀ op, Outside 0 row (.operator op) → rank < ranks.ofOperator op

/-! ## 2. Two rows -/

namespace Token

variable {ranks : Ranks} {op : Operator} {front back : List (Placed Lexeme)}
  {tokens tokens' : List (Placed Token)} {tree tree' : Expression}

/-- **An operator between two rows** is read between their tokens. -/
theorem read_join (h : read front = .ok tokens) (hplain : Plain (front.map Placed.item))
    (h' : read back = .ok tokens') (hplain' : Plain (back.map Placed.item))
    (hzero : back.head?.map Placed.item ≠ some (.number "0")) (op : Operator) (offset : Nat) :
    read (front ++ ⟨.operator op, offset⟩ :: back)
      = .ok (tokens ++ ⟨.operator op, offset⟩ :: tokens') := by
  have hjoined := (derives_loose_of_read hplain h).join op (derives_loose_of_read hplain' h')
  obtain ⟨-, hlinked, hdepth⟩ := derives_iff_linked.mp hjoined
  obtain ⟨hne, ho, hreadable, -, rfl⟩ := read_eq_ok_iff.mp h
  obtain ⟨hne', ho', hreadable', -, rfl⟩ := read_eq_ok_iff.mp h'
  obtain ⟨-, hchain⟩ := inOrder_start_iff.mp ⟨hne, ho⟩
  obtain ⟨-, hchain'⟩ := inOrder_start_iff.mp ⟨hne', ho'⟩
  have hitems : (front ++ ⟨.operator op, offset⟩ :: back).map Placed.item
      = front.map Placed.item ++ .operator op :: back.map Placed.item := by simp
  rw [← hitems] at hlinked hdepth
  have hnozero : ((front ++ ⟨.operator op, offset⟩ :: back).map Placed.item).IsChain
      fun here next => ¬Lexeme.ZeroOperand here next := by
    rw [hitems, List.isChain_append, List.isChain_cons]
    refine ⟨hchain, ⟨?_, hchain'⟩, ?_⟩
    · rintro next hnext ⟨-, rfl⟩
      exact hzero (by simpa using hnext)
    · rintro last - next hnext ⟨-, rfl⟩
      simp at hnext
  obtain ⟨hne, ho⟩ := inOrder_start_iff.mpr ⟨hlinked, hnozero⟩
  refine read_eq_ok_iff.mpr ⟨hne, ho, ?_, Reading.foldlM_enclose_nil_iff.mpr hdepth, ?_⟩
  · intro here hmem
    rcases List.mem_append.mp hmem with hfront | hback
    · exact hreadable here hfront
    · rcases List.mem_cons.mp hback with rfl | hback
      · rfl
      · exact hreadable' here hback
  · have hoperator : ∀ last?, Reading.tokensFrom last? [⟨.operator op, offset⟩]
        = [⟨.operator op, offset⟩] := fun last? => by
      simp [Reading.tokensFrom, Lexeme.spellProductsFrom, Lexeme.understoodProduct, Placed.map,
        Lexeme.token, Symbol.map]
    rw [Reading.tokensFrom_append, Reading.tokensFrom_cons, hoperator, Reading.tokensFrom_some rfl]
    rfl

/-- **An operator between two rows** joins their values, where nothing on the left binds more
loosely and everything on the right binds tighter. -/
theorem value_join (htree : Expression.ofTokens? ranks (tokens.map Placed.item) = some tree)
    (hdepth : depthAfter 0 (tokens.map Placed.item) = some 0)
    (hleft : BindsAtLeast ranks (ranks.ofOperator op) (tokens.map Placed.item))
    (htree' : Expression.ofTokens? ranks (tokens'.map Placed.item) = some tree')
    (hdepth' : depthAfter 0 (tokens'.map Placed.item) = some 0)
    (hright : BindsTighter ranks (ranks.ofOperator op) (tokens'.map Placed.item)) (offset : Nat) :
    value ranks (tokens ++ ⟨.operator op, offset⟩ :: tokens')
      = .ok (op.apply tree.value tree'.value) := by
  obtain ⟨machine, hrun, hdrain⟩ := Machine.run_start_of_ofTokens? htree
  obtain ⟨machine', hrun', hdrain'⟩ := Machine.run_start_of_ofTokens? htree'
  -- all that is pending from the left is applied, and the operator alone becomes pending
  have hready : ∀ pending ∈ machine.pending, pending.precedes ranks (ranks.ofOperator op) := by
    intro pending hmem
    obtain ⟨hclosed, houtside⟩ := Machine.outside_of_mem_pending hrun hdepth hmem
    cases pending with
    | operator op' => simpa [Pending.precedes, Pending.rank?] using hleft.1 op' houtside
    | negation => simpa [Pending.precedes, Pending.rank?] using hleft.2 houtside
    | opening => exact absurd rfl hclosed
  have hstep : machine.step ranks ⟨.operator op, offset⟩
      = .ok (Machine.start.onto [.operator op] [tree.value]) := by
    have happlied : Machine.applyWhile _ (machine.pending ++ []) machine.operands = _ :=
      Machine.applyWhile_append hready hdrain
    rw [List.append_nil] at happlied
    simp only [Machine.step]
    rw [happlied]
    rfl
  -- nothing on the right applies it, so it is applied last
  have hguarded : ∀ op', Outside 0 (tokens'.map Placed.item) (.operator op') →
      Machine.Guarded ranks (ranks.ofOperator op') [.operator op] :=
    fun op' houtside => (Machine.guarded_cons rfl).mono (hright op' houtside)
  have honto : (Machine.start.onto [.operator op] [tree.value]).run ranks tokens' = _ :=
    Machine.run_onto hrun' hdepth' hguarded [tree.value]
  have hlast : (machine'.onto [.operator op] [tree.value]).drain
      = .ok ⟨[], [op.apply tree.value tree'.value]⟩ :=
    Machine.drain_concat (Machine.drain_onto hdrain' [tree.value]) rfl
  refine value_of_drain ?_ hlast
  rw [Machine.run_append, hrun, Except.bind, Machine.run_cons, hstep]
  exact honto

end Token

/-! ## 3. Two lines -/

namespace Calculator

variable {calculator : Calculator} {rank : Nat} {op : Operator} {left right line : String}
  {x y value : Binary64}

/-- The line has this value, and outside of parentheses nothing in it has a lower rank. -/
structure LeftOperand (calculator : Calculator) (rank : Nat) (line : String) (value : Binary64) :
    Prop where
  evaluate : calculator.evaluate line = .ok value
  binds : ∀ tokens, Calculator.tokens line = .ok tokens →
    Token.BindsAtLeast calculator.ranks rank (tokens.map Placed.item)

/-- The line has this value, outside of parentheses all its operators have higher ranks, and it does
not begin with the number written `0`. -/
structure RightOperand (calculator : Calculator) (rank : Nat) (line : String) (value : Binary64) :
    Prop where
  evaluate : calculator.evaluate line = .ok value
  binds : ∀ tokens, Calculator.tokens line = .ok tokens →
    Token.BindsTighter calculator.ranks rank (tokens.map Placed.item)
  nonzero : (Lexeme.scan line).head?.map Placed.item ≠ some (.number "0")

theorem scan_join (op : Operator) (left right : String) :
    Lexeme.scan (left ++ String.singleton op.glyph ++ right)
      = Lexeme.scan left ++ ⟨.operator op, left.utf8ByteSize⟩ ::
        (Lexeme.scan right).map
          (Placed.relocate (left.utf8ByteSize + op.glyph.utf8Size + ·)) := by
  have hglyph : Lexeme.isNumeral op.glyph = false := by cases op <;> decide
  have hoperator : (.ofGlyph op.glyph : Lexeme) = .operator op := by cases op <;> rfl
  rw [Lexeme.scan_around hglyph, hoperator]

/-- What two lines with an operator between them are read as, and their value. -/
theorem tokens_join (hleft : LeftOperand calculator (calculator.ranks.ofOperator op) left x)
    (hright : RightOperand calculator (calculator.ranks.ofOperator op) right y) :
    ∃ tokens tokens' joined, Calculator.tokens left = .ok tokens ∧
      Calculator.tokens right = .ok tokens' ∧
      Calculator.tokens (left ++ String.singleton op.glyph ++ right) = .ok joined ∧
      depthAfter 0 (tokens.map Placed.item) = some 0 ∧
      joined.map Placed.item
        = tokens.map Placed.item ++ .operator op :: tokens'.map Placed.item ∧
      Token.value calculator.ranks joined = .ok (op.apply x y) := by
  obtain ⟨hplain, tokens, tree, hread, htree, rfl⟩ := denotes_of_evaluate hleft.evaluate
  obtain ⟨hplain', tokens', tree', hread', htree', rfl⟩ := denotes_of_evaluate hright.evaluate
  have hdepth := (Token.derives_of_read hplain hread).depthAfter_eq 0
  have hdepth' := (Token.derives_of_read hplain' hread').depthAfter_eq 0
  let move (offset : Nat) : Nat := left.utf8ByteSize + op.glyph.utf8Size + offset
  have hitems := Placed.map_item_relocate move tokens'
  refine ⟨tokens, tokens',
    tokens ++ ⟨.operator op, left.utf8ByteSize⟩ :: tokens'.map (Placed.relocate move),
    hread, hread', ?_, hdepth, by simp [hitems], ?_⟩
  · rw [Calculator.tokens, scan_join]
    refine Token.read_join hread hplain (Token.read_relocate move hread') ?_ ?_ op _
    · rwa [Placed.map_item_relocate]
    · have hnonzero := hright.nonzero
      rw [List.head?_map, Option.map_map]
      exact hnonzero
  · refine Token.value_join htree hdepth (hleft.binds tokens hread) ?_ ?_ ?_ _
    · rwa [hitems]
    · rwa [hitems]
    · rw [hitems]
      exact hright.binds tokens' hread'

/-- Two lines with an operator between them have their values joined. -/
theorem evaluate_join (hleft : LeftOperand calculator (calculator.ranks.ofOperator op) left x)
    (hright : RightOperand calculator (calculator.ranks.ofOperator op) right y) :
    calculator.evaluate (left ++ String.singleton op.glyph ++ right) = .ok (op.apply x y) := by
  obtain ⟨_, _, joined, -, -, hjoined, -, -, hvalue⟩ := tokens_join hleft hright
  rw [evaluate, hjoined]
  exact congrArg (Except.mapError _) hvalue

/-- Where negation does not bind more loosely, the joined line is a left operand again. -/
theorem LeftOperand.join (hleft : LeftOperand calculator (calculator.ranks.ofOperator op) left x)
    (hright : RightOperand calculator (calculator.ranks.ofOperator op) right y)
    (hnegation : calculator.ranks.ofOperator op ≤ calculator.ranks.ofNegation) :
    LeftOperand calculator (calculator.ranks.ofOperator op)
      (left ++ String.singleton op.glyph ++ right) (op.apply x y) where
  evaluate := evaluate_join hleft hright
  binds := by
    intro joined hjoined
    obtain ⟨tokens, tokens', _, hread, hread', hjoined', hdepth, hitems, -⟩ :=
      tokens_join hleft hright
    obtain rfl := Except.ok.inj (hjoined.symm.trans hjoined')
    have houtside : ∀ symbol, Outside 0 (joined.map Placed.item) symbol ↔
        Outside 0 (tokens.map Placed.item) symbol ∨ symbol = .operator op ∨
          Outside 0 (tokens'.map Placed.item) symbol := by
      intro symbol
      rw [hitems, outside_append hdepth, outside_cons]
      simp [deepen]
    constructor
    · intro op' hop'
      rcases (houtside _).mp hop' with hin | hop | hin
      · exact (hleft.binds tokens hread).1 op' hin
      · cases hop
        exact Nat.le_refl _
      · exact (hright.binds tokens' hread' op' hin).le
    · intro _
      exact hnegation

/-! ## 4. Chains -/

/-- An operator and the line on its right, with the value of that line. -/
structure Link where
  op : Operator
  line : String
  value : Binary64

/-- A line with more lines behind it, each behind an operator. -/
def chainLine (first : String) (links : List Link) : String :=
  links.foldl (fun line link => line ++ String.singleton link.op.glyph ++ link.line) first

/-- The values joined from the left. -/
def chainValue (first : Binary64) (links : List Link) : Binary64 :=
  links.foldl (fun value link => link.op.apply value link.value) first

/-- **A chain** of operators of one rank groups from the left. -/
theorem leftOperand_chain (hnegation : rank ≤ calculator.ranks.ofNegation) {links : List Link}
    (hlinks : ∀ link ∈ links, calculator.ranks.ofOperator link.op = rank ∧
      RightOperand calculator rank link.line link.value)
    (hfirst : LeftOperand calculator rank line value) :
    LeftOperand calculator rank (chainLine line links) (chainValue value links) := by
  induction links generalizing line value with
  | nil => exact hfirst
  | cons link links ih =>
    obtain ⟨⟨hrank, hright⟩, hrest⟩ := List.forall_mem_cons.mp hlinks
    subst hrank
    exact ih hrest (hfirst.join hright hnegation)

/-- The line is a single operand with this value: a number or an expression in parentheses, with or
without a negation in front. -/
structure SingleOperand (calculator : Calculator) (line : String) (value : Binary64) : Prop where
  evaluate : calculator.evaluate line = .ok value
  derives : ∀ tokens, Calculator.tokens line = .ok tokens →
    Derives false .term (tokens.map Placed.item)

theorem SingleOperand.leftOperand (h : SingleOperand calculator line value)
    (hnegation : rank ≤ calculator.ranks.ofNegation) : LeftOperand calculator rank line value where
  evaluate := h.evaluate
  binds tokens htokens :=
    ⟨fun op hop => absurd hop (not_outside_operator_of_term (h.derives tokens htokens) op),
      fun _ => hnegation⟩

theorem SingleOperand.rightOperand (h : SingleOperand calculator line value)
    (hnonzero : (Lexeme.scan line).head?.map Placed.item ≠ some (.number "0")) :
    RightOperand calculator rank line value where
  evaluate := h.evaluate
  binds tokens htokens op hop :=
    absurd hop (not_outside_operator_of_term (h.derives tokens htokens) op)
  nonzero := hnonzero

/-- **Splitting a line.**  Whatever the ranks, an operator between two lines joins their values if
on its left nothing outside of parentheses binds more loosely than it does, and on its right all
operators outside of parentheses bind tighter.  Under the standard ranks, operands with operators
of one tier between them have their values joined from the left, however many there are and
whether or not they are negated or in parentheses. -/
theorem evaluate_split (calculator : Calculator) :
    (∀ op left right x y,
      LeftOperand calculator (calculator.ranks.ofOperator op) left x →
      RightOperand calculator (calculator.ranks.ofOperator op) right y →
        calculator.evaluate (left ++ String.singleton op.glyph ++ right) = .ok (op.apply x y)) ∧
    ∀ rank first value links, SingleOperand ⟨.standard⟩ first value →
      (∀ link ∈ links, Ranks.standard.ofOperator link.op = rank ∧
        SingleOperand ⟨.standard⟩ link.line link.value ∧
        (Lexeme.scan link.line).head?.map Placed.item ≠ some (.number "0")) →
      (Calculator.mk .standard).evaluate (chainLine first links)
        = .ok (chainValue value links) := by
  constructor
  · intro op left right x y hleft hright
    exact evaluate_join hleft hright
  · intro rank first value links hfirst hlinks
    cases links with
    | nil => exact hfirst.evaluate
    | cons link links =>
      -- negation is of the highest tier
      have hnegation : rank ≤ Ranks.standard.ofNegation := by
        rw [← (hlinks link List.mem_cons_self).1]
        cases link.op <;> decide
      refine (leftOperand_chain hnegation ?_ (hfirst.leftOperand hnegation)).evaluate
      intro link hmem
      obtain ⟨hrank, hsingle, hnonzero⟩ := hlinks link hmem
      exact ⟨hrank, hsingle.rightOperand hnonzero⟩

/-- Under a table that ranks negation lowest, `1−2(3)+-2×3` may be split at its second sum.  Under
the standard one, `7−-2+(1+1)` has the values of its three operands joined from the left. -/
theorem evaluate_split_sums :
    (∃ x y, (Calculator.mk ⟨5, 6, 0⟩).evaluate "1−2(3)" = .ok x ∧
      (Calculator.mk ⟨5, 6, 0⟩).evaluate "-2×3" = .ok y ∧
      (Calculator.mk ⟨5, 6, 0⟩).evaluate ("1−2(3)" ++ "+" ++ "-2×3") = .ok (x + y)) ∧
    ∃ x y z, (Calculator.mk .standard).evaluate "7" = .ok x ∧
      (Calculator.mk .standard).evaluate "-2" = .ok y ∧
      (Calculator.mk .standard).evaluate "(1+1)" = .ok z ∧
      (Calculator.mk .standard).evaluate ("7" ++ "−" ++ "-2" ++ "+" ++ "(1+1)")
        = .ok (x - y + z) := by
  constructor
  · obtain ⟨x, hx⟩ : ∃ x, (Calculator.mk ⟨5, 6, 0⟩).evaluate "1−2(3)" = .ok x :=
      exists_eq_ok (by decide +kernel)
    obtain ⟨y, hy⟩ : ∃ y, (Calculator.mk ⟨5, 6, 0⟩).evaluate "-2×3" = .ok y :=
      exists_eq_ok (by decide +kernel)
    have hleft : Calculator.tokens "1−2(3)" = .ok [⟨.number (.ofBits 0x3FF0000000000000), 0⟩,
        ⟨.operator .subtract, 1⟩, ⟨.number (.ofBits 0x4000000000000000), 4⟩,
        ⟨.operator .multiply, 5⟩, ⟨.opening, 5⟩, ⟨.number (.ofBits 0x4008000000000000), 6⟩,
        ⟨.closing, 7⟩] := by decide +kernel
    have hright : Calculator.tokens "-2×3" = .ok [⟨.negation, 0⟩,
        ⟨.number (.ofBits 0x4000000000000000), 1⟩, ⟨.operator .multiply, 2⟩,
        ⟨.number (.ofBits 0x4008000000000000), 4⟩] := by decide +kernel
    refine ⟨x, y, hx, hy, (evaluate_split ⟨⟨5, 6, 0⟩⟩).1 .add _ _ x y ⟨hx, ?_⟩ ⟨hy, ?_, ?_⟩⟩
    · intro tokens htokens
      obtain rfl := Except.ok.inj (hleft.symm.trans htokens)
      simp [Token.BindsAtLeast, outside_cons, deepen, Ranks.ofOperator, Ranks.ofNegation]
    · intro tokens htokens
      obtain rfl := Except.ok.inj (hright.symm.trans htokens)
      simp [Token.BindsTighter, outside_cons, deepen, Ranks.ofOperator]
    · decide +kernel
  · obtain ⟨x, hx⟩ : ∃ x, (Calculator.mk .standard).evaluate "7" = .ok x :=
      exists_eq_ok (by decide +kernel)
    obtain ⟨y, hy⟩ : ∃ y, (Calculator.mk .standard).evaluate "-2" = .ok y :=
      exists_eq_ok (by decide +kernel)
    obtain ⟨z, hz⟩ : ∃ z, (Calculator.mk .standard).evaluate "(1+1)" = .ok z :=
      exists_eq_ok (by decide +kernel)
    have hfirst : Calculator.tokens "7" = .ok [⟨.number (.ofBits 0x401C000000000000), 0⟩] := by
      decide +kernel
    have hsecond : Calculator.tokens "-2"
        = .ok [⟨.negation, 0⟩, ⟨.number (.ofBits 0x4000000000000000), 1⟩] := by decide +kernel
    have hthird : Calculator.tokens "(1+1)" = .ok [⟨.opening, 0⟩,
        ⟨.number (.ofBits 0x3FF0000000000000), 1⟩, ⟨.operator .add, 2⟩,
        ⟨.number (.ofBits 0x3FF0000000000000), 3⟩, ⟨.closing, 4⟩] := by decide +kernel
    refine ⟨x, y, z, hx, hy, hz, (evaluate_split ⟨.standard⟩).2 1 "7" x
      [⟨.subtract, "-2", y⟩, ⟨.add, "(1+1)", z⟩] ⟨hx, ?_⟩ ?_⟩
    · intro tokens htokens
      obtain rfl := Except.ok.inj (hfirst.symm.trans htokens)
      exact .plain (.number _)
    · simp only [List.forall_mem_cons]
      refine ⟨⟨rfl, ⟨hy, ?_⟩, by decide +kernel⟩, ⟨rfl, ⟨hz, ?_⟩, by decide +kernel⟩, by simp⟩
      · intro tokens htokens
        obtain rfl := Except.ok.inj (hsecond.symm.trans htokens)
        exact .negated (.number _)
      · intro tokens htokens
        obtain rfl := Except.ok.inj (hthird.symm.trans htokens)
        exact .plain (.parentheses (.joined .add (.single (.plain (.number _)))
          (.plain (.number _))))

end Calculator

end Reckoner
