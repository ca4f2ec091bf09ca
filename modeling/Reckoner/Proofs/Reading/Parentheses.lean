/-
# Reading a row in parentheses

A row that is accepted by itself is accepted in parentheses wherever they stand.  What has been
read in front of it makes no difference, and what follows it sees only the closing parenthesis.

* **The neighbours** of the row change at its two ends.  The first lexeme gets one on its left and
  the last one on its right, and both parentheses are what these would put up with
  (`InOrder.parentheses`).
* **The parentheses** that are open outside stay open: those inside are closed inside
  (`foldlM_enclose_append`).

So behind the closing parenthesis reading goes on as it would behind any other
(`runBefore_parentheses`).
-/
import Reckoner.Proofs.Reading.Grammar

namespace Reckoner

namespace Reading

open Reckoner.Symbol

variable {reading : Reading} {row back : List (Placed Lexeme)} {tokens : List (Placed Token)}

/-! ## 1. The two ends of a row -/

/-- Which left neighbour a lexeme has makes no difference to its problems, if it has one. -/
theorem neighbourError?_some (last last' : Lexeme) (here : Placed Lexeme)
    (next? : Option (Placed Lexeme)) :
    neighbourError? (some last) here next? = neighbourError? (some last') here next? := rfl

/-- A lexeme that has no problem without a left neighbour has none with one. -/
theorem neighbourError?_of_none {here : Placed Lexeme} {next? : Option (Placed Lexeme)}
    (h : neighbourError? none here next? = none) (last : Lexeme) :
    neighbourError? (some last) here next? = none := by
  cases hleft : here.item.needsLeft with
  | true => simp [neighbourError?, hleft] at h
  | false =>
    simp only [neighbourError?, hleft, Bool.false_and] at h ⊢
    exact h

theorem neighbourError?_closing {last? : Option Lexeme} {here : Placed Lexeme}
    (h : neighbourError? last? here none = none) (offset : Nat) :
    neighbourError? last? here (some ⟨.closing, offset⟩) = none := by
  obtain ⟨hleft, hright⟩ := neighbourError?_end_eq_none_iff.mp h
  refine neighbourError?_eq_none_iff.mpr ⟨hleft, ?_, ?_⟩
  · cases hitem : here.item <;> simp_all [admits, followsOperand, needsRight]
  · simp [Lexeme.ZeroOperand]

theorem neighbourError?_opening {here : Placed Lexeme} {next? : Option (Placed Lexeme)}
    (h : neighbourError? none here next? = none) (hknown : here.item.isUnknown = false)
    (last? : Option Lexeme) (offset : Nat) :
    neighbourError? last? ⟨.opening, offset⟩ (some here) = none := by
  have hleft : here.item.needsLeft = false := by
    cases hleft : here.item.needsLeft with
    | true => simp [neighbourError?, hleft] at h
    | false => rfl
  refine neighbourError?_eq_none_iff.mpr ⟨fun _ => rfl, ?_, ?_⟩
  · cases hitem : here.item <;> simp_all [admits, startsOperand, needsLeft, isUnknown]
  · simp [Lexeme.ZeroOperand]

theorem InOrder.closing {last? : Option Lexeme} (h : InOrder none last? row) (offset : Nat) :
    InOrder (some ⟨.closing, offset⟩) last? row := by
  induction row generalizing last? with
  | nil => trivial
  | cons here rest ih =>
    obtain ⟨hhere, hrest⟩ := h
    refine ⟨?_, ih hrest⟩
    cases rest with
    | nil => exact neighbourError?_closing hhere offset
    | cons next rest => exact hhere

/-- **A row with a meaning** that is in order by itself is so in parentheses. -/
theorem InOrder.parentheses (hrow : row ≠ []) (h : InOrder none none row)
    (hplain : Plain (row.map Placed.item)) (last? : Option Lexeme) (offset offset' : Nat) :
    InOrder (some ⟨.closing, offset'⟩) last? (⟨.opening, offset⟩ :: row) := by
  have hclosing := h.closing offset'
  cases row with
  | nil => exact absurd rfl hrow
  | cons here rest =>
    obtain ⟨hhere, hrest⟩ := hclosing
    have hknown := (plain_cons.mp hplain).1
    have hfirst := neighbourError?_opening hhere hknown last? offset
    exact ⟨hfirst, neighbourError?_of_none hhere .opening, hrest⟩

/-- Everything admits an opening parenthesis, so where that stands makes no difference. -/
theorem neighbourError?_before_opening (last? : Option Lexeme) (here : Placed Lexeme)
    (offset offset' : Nat) :
    neighbourError? last? here (some ⟨.opening, offset⟩)
      = neighbourError? last? here (some ⟨.opening, offset'⟩) := by
  cases hitem : here.item <;>
    simp [neighbourError?, hitem, admits, followsOperand, startsOperand, startsAtom,
      Lexeme.isLiteralZero]

theorem runBefore_before_opening (reading : Reading) (row : List (Placed Lexeme))
    (offset offset' : Nat) :
    runBefore (some ⟨.opening, offset⟩) reading row
      = runBefore (some ⟨.opening, offset'⟩) reading row := by
  induction row generalizing reading with
  | nil => rfl
  | cons here rest ih =>
    have hstep : reading.step here (rest.head?.or (some ⟨.opening, offset⟩))
        = reading.step here (rest.head?.or (some ⟨.opening, offset'⟩)) := by
      cases rest with
      | nil =>
        unfold Reading.step
        rw [List.head?_nil, Option.none_or, Option.none_or,
          neighbourError?_before_opening reading.last? here offset offset']
      | cons next rest => rfl
    rw [runBefore_cons, runBefore_cons, hstep]
    cases reading.step here (rest.head?.or (some ⟨.opening, offset'⟩)) with
    | ok after => exact ih after
    | error error => rfl

/-! ## 2. Open parentheses outside -/

theorem foldlM_enclose_append {opened opened' : List Nat}
    (h : row.foldlM enclose opened = some opened') (outer : List Nat) :
    row.foldlM enclose (opened ++ outer) = some (opened' ++ outer) := by
  induction row generalizing opened with
  | nil =>
    obtain rfl : opened = opened' := by simpa using h
    rfl
  | cons here rest ih =>
    obtain ⟨inside, hinside, hrest⟩ : ∃ inside, enclose opened here = some inside ∧
        rest.foldlM enclose inside = some opened' := by
      simpa [Option.bind_eq_some_iff] using h
    have hhere : enclose (opened ++ outer) here = some (inside ++ outer) := by
      obtain ⟨item, offset⟩ := here
      cases item <;> cases opened <;> cases hinside <;> rfl
    simp [hhere, ih hrest]

/-! ## 3. The tokens -/

/-- The product that is understood in front of a parenthesis. -/
def product (last? : Option Lexeme) (offset : Nat) : List (Placed Token) :=
  if last?.any endsOperand then [⟨.operator .multiply, offset⟩] else []

theorem tokensFrom_singleton_opening (last? : Option Lexeme) (offset : Nat) :
    tokensFrom last? [⟨.opening, offset⟩] = product last? offset ++ [⟨.opening, offset⟩] := by
  cases h : last?.any endsOperand <;>
    simp [tokensFrom, Lexeme.spellProductsFrom, Lexeme.understoodProduct, product, h, Placed.map,
      Lexeme.token, Symbol.map]

/-- Behind a lexeme that ends no operand a row has the tokens that it has by itself. -/
theorem tokensFrom_some {last : Lexeme} (hlast : last.endsOperand = false)
    (row : List (Placed Lexeme)) : tokensFrom (some last) row = tokensFrom none row := by
  cases row with
  | nil => rfl
  | cons here rest =>
    simp [tokensFrom, Lexeme.spellProductsFrom, Lexeme.understoodProduct, hlast]

/-! ## 4. Behind the closing parenthesis -/

/-- The state behind a row in parentheses. -/
def enclosing (reading : Reading) (row : List (Placed Lexeme)) (offset offset' : Nat) : Reading :=
  (reading.behind (⟨.opening, offset⟩ :: row) (offset :: reading.opened)).behind
    [⟨.closing, offset'⟩] reading.opened

theorem opened_enclosing (offset offset' : Nat) :
    (reading.enclosing row offset offset').opened = reading.opened := rfl

theorem reverse_tokens_enclosing (h : Token.read row = .ok tokens) (offset offset' : Nat) :
    (reading.enclosing row offset offset').tokens.reverse
      = reading.tokens.reverse ++ (product reading.last? offset ++
          ⟨.opening, offset⟩ :: (tokens ++ [⟨.closing, offset'⟩])) := by
  obtain ⟨-, -, -, -, rfl⟩ := Token.read_eq_ok_iff.mp h
  have hclosing : tokensFrom (lastFrom reading.last? (⟨.opening, offset⟩ :: row))
      [⟨.closing, offset'⟩] = [⟨.closing, offset'⟩] := by
    simp [tokensFrom, Lexeme.spellProductsFrom, Lexeme.understoodProduct, Placed.map, Lexeme.token,
      Symbol.map]
  simp only [enclosing, behind_tokens, behind_last?, List.reverse_append, List.reverse_reverse]
  rw [hclosing, tokensFrom_cons, tokensFrom_some rfl, tokensFrom_singleton_opening]
  simp

theorem exists_lastFrom (last : Lexeme) (row : List (Placed Lexeme)) :
    ∃ last', lastFrom (some last) row = some last' := by
  induction row generalizing last with
  | nil => exact ⟨last, rfl⟩
  | cons here rest ih => exact ih here.item

/-- Up to its closing parenthesis an accepted row is read in any state. -/
theorem runBefore_opening (h : Token.read row = .ok tokens)
    (hplain : Plain (row.map Placed.item)) (reading : Reading) (offset offset' : Nat) :
    runBefore (some ⟨.closing, offset'⟩) reading (⟨.opening, offset⟩ :: row)
      = .ok (reading.behind (⟨.opening, offset⟩ :: row) (offset :: reading.opened)) := by
  obtain ⟨hne, ho, hreadable, hopened, -⟩ := Token.read_eq_ok_iff.mp h
  have hinside := foldlM_enclose_append hopened (offset :: reading.opened)
  exact runBefore_eq_ok_iff.mpr ⟨ho.parentheses hne hplain _ _ _,
    List.forall_mem_cons.mpr ⟨rfl, hreadable⟩, _, hinside, rfl⟩

/-- **A row in parentheses.**  Behind an accepted row only the right neighbour of the closing
parenthesis can be a problem, and what follows is read with the same parentheses open. -/
theorem runBefore_parentheses (h : Token.read row = .ok tokens)
    (hplain : Plain (row.map Placed.item)) (reading : Reading) (offset offset' : Nat)
    (back : List (Placed Lexeme)) :
    runBefore none reading (⟨.opening, offset⟩ :: (row ++ ⟨.closing, offset'⟩ :: back))
      = match neighbourError? (some .opening) ⟨.closing, offset'⟩ back.head? with
        | some error => .error error
        | none => runBefore none (reading.enclosing row offset offset') back := by
  have hfront := runBefore_opening h hplain reading offset offset'
  obtain ⟨last, hlast⟩ : ∃ last,
      lastFrom reading.last? (⟨.opening, offset⟩ :: row) = some last :=
    exists_lastFrom .opening row
  rw [← List.cons_append, runBefore_append, List.head?_cons, Option.some_or, hfront]
  simp only [Except.bind, runBefore_cons, Option.or_none]
  rw [Reading.step, behind_last?, hlast, neighbourError?_some last .opening, take_eq]
  cases neighbourError? (some .opening) ⟨.closing, offset'⟩ back.head? <;> rfl

end Reading

end Reckoner
