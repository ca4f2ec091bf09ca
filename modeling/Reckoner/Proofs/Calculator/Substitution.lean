/-
# What stands in parentheses counts by its value alone

An expression in parentheses may be replaced by another one of the same value, in any line at all
(`Calculator.evaluate_substitute`).  The line then has the same value as before, or it fails in
the same way, and about the same symbol.  That symbol is never inside the parentheses: it lies in
front of them, where it stays, or it is the closing one or lies behind it, and then it moves along.

The proof goes through the two lines side by side.

* **In front** they are the same.
* **In parentheses** reading finds nothing to complain about in either (`runBefore_parentheses`),
  and the machine comes out with the same value on top (`Machine.run_parentheses`).
* **Behind** they are relocated copies of each other, and are read and worked out alike.
-/
import Reckoner.Proofs.Calculator.Relocation
import Reckoner.Proofs.Machine.Safety
import Reckoner.Proofs.Reading.Parentheses

namespace Reckoner

variable {ranks : Ranks} {move : Nat → Nat} {row row' : List (Placed Lexeme)} {value : Binary64}

/-! ## 1. The value of a row -/

/-- A row that has a value. -/
def Lexeme.Denotes (ranks : Ranks) (row : List (Placed Lexeme)) (value : Binary64) : Prop :=
  Symbol.Plain (row.map Placed.item) ∧ ∃ tokens tree, Token.read row = .ok tokens ∧
    Expression.ofTokens? ranks (tokens.map Placed.item) = some tree ∧ tree.value = value

theorem Placed.map_item_relocate {σ : Type} (move : Nat → Nat) (row : List (Placed σ)) :
    (row.map (Placed.relocate move)).map Placed.item = row.map Placed.item := by
  simp [Function.comp_def]

theorem Lexeme.Denotes.relocate (h : Lexeme.Denotes ranks row value) (move : Nat → Nat) :
    Lexeme.Denotes ranks (row.map (Placed.relocate move)) value := by
  obtain ⟨hplain, tokens, tree, hread, htree, hvalue⟩ := h
  refine ⟨?_, _, tree, Token.read_relocate move hread, ?_, hvalue⟩
  · rwa [Placed.map_item_relocate]
  · rwa [Placed.map_item_relocate]

/-- A line that has a value has it as a row. -/
theorem Calculator.denotes_of_evaluate {calculator : Calculator} {line : String}
    (h : calculator.evaluate line = .ok value) :
    Lexeme.Denotes calculator.ranks (Lexeme.scan line) value := by
  rw [Calculator.evaluate_eq_bind] at h
  cases hread : Token.read (Lexeme.scan line) with
  | error error =>
    rw [hread] at h
    cases h
  | ok tokens =>
    replace h : (Token.value calculator.ranks tokens).mapError Fault.run = .ok value := by
      rw [hread] at h
      exact h
    by_cases hplain : Symbol.Plain ((Lexeme.scan line).map Placed.item)
    · obtain ⟨tree, htree⟩ := Token.ofTokens?_of_read calculator.ranks hplain hread
      rw [Token.value_of_ofTokens? htree] at h
      exact ⟨hplain, tokens, tree, hread, htree, Except.ok.inj h⟩
    · obtain ⟨character, offset, -, herror⟩ :=
        Token.value_of_read_unknown calculator.ranks hread hplain
      rw [herror] at h
      cases h

/-! ## 2. In parentheses -/

namespace Machine

/-- An understood product can only fail for want of operands. -/
theorem relocate_of_run_product {machine : Machine} {last? : Option Lexeme} {offset : Nat}
    {error : RunError} (h : machine.run ranks (Reading.product last? offset) = .error error)
    (move : Nat → Nat) : error.relocate move = error := by
  have hrelocated : machine.run ranks ((Reading.product last? offset).map (Placed.relocate move))
      = machine.run ranks (Reading.product last? offset) := by
    -- an operator does not look at its offset
    unfold Reading.product
    split <;> rfl
  rw [run_relocate, h] at hrelocated
  exact Except.error.inj hrelocated

/-- A row in parentheses makes an operand of its value, once a product that is understood in front
of it has been taken. -/
theorem run_enclosed {tokens : List (Placed Token)} {tree : Expression}
    (h : Expression.ofTokens? ranks (tokens.map Placed.item) = some tree) (machine : Machine)
    (last? : Option Lexeme) (offset offset' : Nat) :
    machine.run ranks (Reading.product last? offset ++
        ⟨.opening, offset⟩ :: (tokens ++ [⟨.closing, offset'⟩]))
      = (machine.run ranks (Reading.product last? offset)).map (·.pushOperand tree.value) := by
  rw [run_append]
  cases machine.run ranks (Reading.product last? offset) with
  | error error => rfl
  | ok next => exact run_parentheses h next offset offset'

/-- Rows of the same value in parentheses leave two machines alike. -/
theorem RunsAlike.parentheses {one other tokens tokens' : List (Placed Token)}
    {tree tree' : Expression} (h : RunsAlike ranks move one other)
    (htree : Expression.ofTokens? ranks (tokens.map Placed.item) = some tree)
    (htree' : Expression.ofTokens? ranks (tokens'.map Placed.item) = some tree')
    (hvalue : tree.value = tree'.value) (last? : Option Lexeme) (offset close close' : Nat) :
    RunsAlike ranks move
      (one ++ (Reading.product last? offset ++
        ⟨.opening, offset⟩ :: (tokens ++ [⟨.closing, close⟩])))
      (other ++ (Reading.product last? offset ++
        ⟨.opening, offset⟩ :: (tokens' ++ [⟨.closing, close'⟩]))) := by
  rw [RunsAlike, run_append, run_append, h]
  cases start.run ranks one with
  | error error => rfl
  | ok machine =>
    simp only [Except.bind, Except.mapError]
    rw [run_enclosed htree, run_enclosed htree', hvalue]
    cases hrun : machine.run ranks (Reading.product last? offset) with
    | ok next => rfl
    | error error => exact congrArg Except.error (relocate_of_run_product hrun move).symm

end Machine

/-- **Rows of the same value in parentheses** are read alike, with all that follows them. -/
theorem Reading.WorkAlike.parentheses {one other : Reading} (h : WorkAlike ranks move one other)
    (hrow : Lexeme.Denotes ranks row value) (hrow' : Lexeme.Denotes ranks row' value)
    (offset close : Nat) (back : List (Placed Lexeme)) :
    Agree move (WorkAlike ranks move)
      (Reading.runBefore none one (⟨.opening, offset⟩ :: (row ++ ⟨.closing, close⟩ :: back)))
      (Reading.runBefore none other (⟨.opening, offset⟩ ::
        (row' ++ ⟨.closing, move close⟩ :: back.map (Placed.relocate move)))) := by
  obtain ⟨hplain, tokens, tree, hread, htree, rfl⟩ := hrow
  obtain ⟨hplain', tokens', tree', hread', htree', hvalue⟩ := hrow'
  have hclosing : neighbourError? (some .opening) ⟨.closing, move close⟩
        (back.map (Placed.relocate move)).head?
      = (neighbourError? (some .opening) ⟨.closing, close⟩ back.head?).map
          (SyntaxError.relocate move) := by
    rw [← neighbourError?_relocate, List.head?_map]
    rfl
  rw [runBefore_parentheses hread hplain, runBefore_parentheses hread' hplain', hclosing]
  cases neighbourError? (some .opening) ⟨.closing, close⟩ back.head? with
  | some error => rfl
  | none =>
    have henclosing : WorkAlike ranks move
        (one.enclosing row offset close) (other.enclosing row' offset (move close)) := by
      refine ⟨rfl, h.opened, ?_⟩
      rw [reverse_tokens_enclosing hread, reverse_tokens_enclosing hread', h.last?]
      exact h.tokens.parentheses htree htree' hvalue.symm _ _ _ _
    exact henclosing.runBefore (fun _ _ more h => h.append more) none back

/-- A whole row of one expression in parentheses, with nothing behind them. -/
theorem Token.value_of_parentheses {front : List (Placed Lexeme)} {reading : Reading}
    {machine : Machine} {result : Binary64} {offset : Nat} (hrow : Lexeme.Denotes ranks row value)
    (hread : Reading.runBefore (some ⟨.opening, offset⟩) Reading.start front = .ok reading)
    (hopened : reading.opened = []) (hlast : reading.last?.any Symbol.endsOperand = false)
    (hrun : Machine.start.run ranks reading.tokens.reverse = .ok machine)
    (hdrain : (machine.pushOperand value).drain = .ok ⟨[], [result]⟩) (close : Nat) :
    ∃ tokens,
      Token.read (front ++ ⟨.opening, offset⟩ :: (row ++ [⟨.closing, close⟩])) = .ok tokens ∧
        Token.value ranks tokens = .ok result := by
  obtain ⟨hplain, tokens, tree, htokens, htree, rfl⟩ := hrow
  refine ⟨(reading.enclosing row offset close).tokens.reverse, ?_, ?_⟩
  · rw [Token.read_of_ne_nil (by simp), Reading.runBefore_append, List.head?_cons, Option.some_or,
      hread, Except.bind, Reading.runBefore_parentheses htokens hplain]
    -- a closing parenthesis at the end has no right neighbour to be at odds with
    change (reading.enclosing row offset close).finish = _
    rw [Reading.finish, Reading.opened_enclosing, hopened]
  · refine Token.value_of_drain ?_ hdrain
    rw [Reading.reverse_tokens_enclosing htokens, Machine.run_append, hrun, Except.bind,
      Machine.run_enclosed htree, Reading.product, hlast]
    rfl

/-! ## 3. In a line -/

namespace Calculator

variable {calculator : Calculator} {line line' inner inner' front back : String}

theorem evaluate_of_agree (h : Reading.Agree move (Machine.RunsAlike calculator.ranks move)
      (Token.read (Lexeme.scan line)) (Token.read (Lexeme.scan line'))) :
    calculator.evaluate line' = (calculator.evaluate line).mapError (Fault.relocate move) := by
  rw [evaluate_eq_bind, evaluate_eq_bind]
  rcases h.cases with ⟨tokens, tokens', hread, hread', hsame⟩ | ⟨error, hread, hread'⟩
  · rw [hread, hread']
    simp only [Except.mapError, Except.bind, hsame.value_eq]
    cases Token.value calculator.ranks tokens <;> rfl
  · rw [hread, hread']
    rfl

/-- What is read in front of a parenthesis stays where it is. -/
theorem alike_front (ranks : Ranks)
    (hfront : ∀ offset < front.utf8ByteSize, move offset = offset) (offset : Nat) :
    Reading.Agree move (Reading.WorkAlike ranks move)
      (Reading.runBefore (some ⟨.opening, offset⟩) Reading.start (Lexeme.scan front))
      (Reading.runBefore (some ⟨.opening, offset⟩) Reading.start (Lexeme.scan front)) := by
  have hstart : Reading.WorkAlike ranks move Reading.start Reading.start :=
    ⟨rfl, rfl, rfl⟩
  have hrelocated : (Lexeme.scan front).map (Placed.relocate move) = Lexeme.scan front := by
    have hplaced : ∀ placed ∈ Lexeme.scan front, placed.relocate move = id placed := by
      intro placed hmem
      rw [Placed.relocate, hfront _ (Lexeme.offset_lt_of_mem_scan hmem)]
      rfl
    rw [List.map_congr_left hplaced, List.map_id]
  have hrun := hstart.runBefore (fun _ _ more h => h.append more) (some ⟨.opening, offset⟩)
    (Lexeme.scan front)
  rw [hrelocated] at hrun
  -- only the parenthesis has moved, and nothing in front of it depends on where it stands
  rwa [Reading.runBefore_before_opening Reading.start _ offset (move offset)] at hrun ⊢

/-- **Substitution**, with offsets moved in any way that suits the symbols outside the
parentheses. -/
theorem evaluate_relocate (h : calculator.evaluate inner = .ok value)
    (h' : calculator.evaluate inner' = .ok value)
    (hfront : ∀ offset < front.utf8ByteSize, move offset = offset)
    (hback : ∀ offset, move (front.utf8ByteSize + 1 + inner.utf8ByteSize + offset)
      = front.utf8ByteSize + 1 + inner'.utf8ByteSize + offset) :
    calculator.evaluate (front ++ "(" ++ inner' ++ ")" ++ back)
      = (calculator.evaluate (front ++ "(" ++ inner ++ ")" ++ back)).mapError
          (Fault.relocate move) := by
  have hclosing : move (front.utf8ByteSize + 1 + inner.utf8ByteSize)
      = front.utf8ByteSize + 1 + inner'.utf8ByteSize := hback 0
  have hbehind : ((Lexeme.scan back).map
        (Placed.relocate (front.utf8ByteSize + 1 + inner.utf8ByteSize + 1 + ·))).map
          (Placed.relocate move)
      = (Lexeme.scan back).map
          (Placed.relocate (front.utf8ByteSize + 1 + inner'.utf8ByteSize + 1 + ·)) := by
    rw [List.map_map]
    refine List.map_congr_left fun placed _ => ?_
    rw [Function.comp_apply, Placed.relocate_relocate]
    simp only [Placed.relocate, Function.comp_apply, Nat.add_assoc] at hback ⊢
    rw [hback]
  refine evaluate_of_agree ?_
  -- each line is read in front of the parentheses, then with them to its end, and then finished
  rw [Lexeme.scan_parentheses, Lexeme.scan_parentheses, Token.read_of_ne_nil (by simp),
    Token.read_of_ne_nil (by simp), Reading.runBefore_append, Reading.runBefore_append,
    List.head?_cons, List.head?_cons, Option.some_or]
  have hinside := (denotes_of_evaluate h).relocate (front.utf8ByteSize + 1 + ·)
  have hinside' := (denotes_of_evaluate h').relocate (front.utf8ByteSize + 1 + ·)
  have hfinish : ∀ one other, Reading.WorkAlike calculator.ranks move one other →
      Reading.Agree move (Machine.RunsAlike calculator.ranks move) one.finish other.finish :=
    fun _ _ halike => halike.finish
  have hstart := alike_front calculator.ranks hfront front.utf8ByteSize
  refine (hstart.bind fun one other halike => ?_).bind hfinish
  rw [← hbehind, ← hclosing]
  exact halike.parentheses hinside hinside' _ _ _

/-- How far what stands behind some parentheses moves when `inner` in them becomes `inner'`. -/
def shift (front inner inner' : String) (offset : Nat) : Nat :=
  if offset < front.utf8ByteSize then offset
  else offset - inner.utf8ByteSize + inner'.utf8ByteSize

theorem shift_back (front inner inner' : String) (offset : Nat) :
    shift front inner inner' (front.utf8ByteSize + 1 + inner.utf8ByteSize + offset)
      = front.utf8ByteSize + 1 + inner'.utf8ByteSize + offset := by
  rw [shift, if_neg (by omega)]
  omega

/-- Moves what stands in some parentheses and the opening one, and nothing else. -/
def stir (front inner : String) (offset : Nat) : Nat :=
  if front.utf8ByteSize ≤ offset ∧ offset < front.utf8ByteSize + 1 + inner.utf8ByteSize then
    offset + 1
  else offset

/-- No fault is about a symbol in parentheses that has a value by itself: it would have to move
with that symbol, while the line stays the same. -/
theorem offset_outside (h : calculator.evaluate inner = .ok value) {fault : Fault} {offset : Nat}
    (hfault : calculator.evaluate (front ++ "(" ++ inner ++ ")" ++ back) = .error fault)
    (hoffset : fault.offset? = some offset) :
    offset < front.utf8ByteSize ∨ front.utf8ByteSize + 1 + inner.utf8ByteSize ≤ offset := by
  have hfront : ∀ offset < front.utf8ByteSize, stir front inner offset = offset :=
    fun offset hlt => if_neg (by omega)
  have hback : ∀ offset, stir front inner (front.utf8ByteSize + 1 + inner.utf8ByteSize + offset)
      = front.utf8ByteSize + 1 + inner.utf8ByteSize + offset := fun offset => if_neg (by omega)
  have hstirred : calculator.evaluate (front ++ "(" ++ inner ++ ")" ++ back) = _ :=
    evaluate_relocate h h hfront hback
  rw [hfault] at hstirred
  have hfixed : stir front inner offset = offset :=
    Fault.move_offset?_of_relocate_eq (Except.error.inj hstirred).symm hoffset
  by_contra hinside
  have hmoved : stir front inner offset = offset + 1 := if_pos (by omega)
  omega

/-- What a line comes to in which nothing stands behind some parentheses. -/
theorem evaluate_of_drain {reading : Reading} {machine : Machine} {result : Binary64}
    (h : calculator.evaluate inner = .ok value)
    (hread : Reading.runBefore (some ⟨.opening, front.utf8ByteSize⟩) Reading.start
      (Lexeme.scan front) = .ok reading)
    (hopened : reading.opened = []) (hlast : reading.last?.any Symbol.endsOperand = false)
    (hrun : Machine.start.run calculator.ranks reading.tokens.reverse = .ok machine)
    (hdrain : (machine.pushOperand value).drain = .ok ⟨[], [result]⟩) :
    calculator.evaluate (front ++ "(" ++ inner ++ ")") = .ok result := by
  have hinside := (denotes_of_evaluate h).relocate (front.utf8ByteSize + 1 + ·)
  obtain ⟨tokens, htokens, hvalue⟩ := Token.value_of_parentheses hinside hread hopened hlast hrun
    hdrain (front.utf8ByteSize + 1 + inner.utf8ByteSize)
  have hline : front ++ "(" ++ inner ++ ")" = front ++ "(" ++ inner ++ ")" ++ "" := by simp
  have hscan : Token.read (Lexeme.scan (front ++ "(" ++ inner ++ ")")) = .ok tokens := by
    rw [hline, Lexeme.scan_parentheses]
    exact htokens
  rw [evaluate_eq_bind, hscan, Except.mapError, Except.bind, hvalue]
  rfl

/-- **What stands in parentheses counts by its value alone.**  An expression in parentheses has the
value that it has by itself, and with a negation in front the negated value.  In any line at all it
may be replaced by another one of the same value: the line keeps its value, or fails in the same
way about the same symbol, which lies in front of the parentheses, and stays there, or is the
closing one or lies behind it, and moves along. -/
theorem evaluate_substitute (calculator : Calculator) :
    (∀ inner value, calculator.evaluate inner = .ok value →
      calculator.evaluate ("(" ++ inner ++ ")") = .ok value ∧
        calculator.evaluate ("-(" ++ inner ++ ")") = .ok (-value)) ∧
    ∀ inner inner' value, calculator.evaluate inner = .ok value →
      calculator.evaluate inner' = .ok value → ∀ front back,
        calculator.evaluate (front ++ "(" ++ inner' ++ ")" ++ back)
            = (calculator.evaluate (front ++ "(" ++ inner ++ ")" ++ back)).mapError
                (Fault.relocate (shift front inner inner')) ∧
          ∀ fault offset,
            calculator.evaluate (front ++ "(" ++ inner ++ ")" ++ back) = .error fault →
              fault.offset? = some offset →
                offset < front.utf8ByteSize ∨
                  front.utf8ByteSize + 1 + inner.utf8ByteSize ≤ offset := by
  constructor
  · intro inner value h
    have hplain : calculator.evaluate ("" ++ "(" ++ inner ++ ")") = .ok value :=
      evaluate_of_drain h rfl rfl rfl rfl rfl
    have hnegated : calculator.evaluate ("-" ++ "(" ++ inner ++ ")") = .ok (-value) :=
      evaluate_of_drain h rfl rfl rfl rfl rfl
    exact ⟨by simpa using hplain, hnegated⟩
  · intro inner inner' value h h' front back
    have hfront : ∀ offset < front.utf8ByteSize, shift front inner inner' offset = offset :=
      fun offset hlt => if_pos hlt
    exact ⟨evaluate_relocate h h' hfront (shift_back front inner inner'),
      fun fault offset hfault hoffset => offset_outside h hfault hoffset⟩

/-- The sum `1+1` may be replaced by `2`.  In `3(1+1))` the last parenthesis is at fault, and it
moves along. -/
theorem evaluate_substitute_sum :
    ∃ value, (Calculator.mk .standard).evaluate "2" = .ok value ∧
      (Calculator.mk .standard).evaluate ("(" ++ "2" ++ ")") = .ok value ∧
      (Calculator.mk .standard).evaluate ("3" ++ "(" ++ "2" ++ ")" ++ ")")
        = ((Calculator.mk .standard).evaluate ("3" ++ "(" ++ "1+1" ++ ")" ++ ")")).mapError
            (Fault.relocate (shift "3" "1+1" "2")) ∧
      (6 < "3".utf8ByteSize ∨ "3".utf8ByteSize + 1 + "1+1".utf8ByteSize ≤ 6) := by
  have hvalues : (Calculator.mk .standard).evaluate "1+1"
      = (Calculator.mk .standard).evaluate "2" := by decide +kernel
  have hfault : (Calculator.mk .standard).evaluate ("3" ++ "(" ++ "1+1" ++ ")" ++ ")")
      = .error (.form (.unmatchedClosing 6)) := by decide +kernel
  obtain ⟨value, h⟩ : ∃ value, (Calculator.mk .standard).evaluate "2" = .ok value :=
    exists_eq_ok (by decide +kernel)
  obtain ⟨hparentheses, hsubstitute⟩ := evaluate_substitute ⟨.standard⟩
  obtain ⟨hlines, houtside⟩ := hsubstitute "1+1" "2" value (hvalues.trans h) h "3" ")"
  exact ⟨value, h, (hparentheses "2" value h).1, hlines, houtside _ 6 hfault rfl⟩

end Calculator

end Reckoner
