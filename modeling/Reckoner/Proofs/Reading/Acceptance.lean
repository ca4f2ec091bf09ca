/-
# When reading succeeds, and what it gives

Reading stops at the first problem.  This module says when there is none, and what has been read
then.  Three conditions are independent of each other:

* **neighbours** (`Reading.InOrder`): no lexeme has a problem with the lexemes beside it;
* **numbers** (`Lexeme.isReadable`): every number text is read as a number;
* **parentheses** (`Reading.enclose`): none is closed that is not open.

Where they hold, each lexeme becomes its token and the understood products are written out
(`Reading.runBefore_eq_ok_iff`), and a whole row is accepted when no parenthesis is left open
(`Token.read_eq_ok_iff`).  A product is understood in front of an opening parenthesis that stands
right behind an operand, and it is written out at the offset of the parenthesis
(`Lexeme.spellProducts`).

A row is often only a part of a longer one.  Then its last lexeme has a right neighbour, which the
row itself does not hold; `Reading.runBefore` reads a row in front of a given lexeme.
-/
import Reckoner.Token.Reading

namespace Reckoner

theorem exists_eq_ok {ε α : Type} {outcome : Except ε α} (h : outcome.toOption.isSome) :
    ∃ result, outcome = .ok result := by
  cases outcome with
  | ok result => exact ⟨result, rfl⟩
  | error error => cases h

/-! ## 1. From lexemes to tokens -/

/-- The same symbol with its number, if it is one, held in another way. -/
def Symbol.map {α β : Type} (f : α → β) : Symbol α → Symbol β
  | .number value => .number (f value)
  | .operator op => .operator op
  | .negation => .negation
  | .opening => .opening
  | .closing => .closing
  | .unknown character => .unknown character

/-- The same place with another symbol. -/
def Placed.map {σ τ : Type} (f : σ → τ) (placed : Placed σ) : Placed τ :=
  ⟨f placed.item, placed.offset⟩

namespace Lexeme

/-- Whether this is no number, or one that can be read. -/
def isReadable : Lexeme → Bool
  | .number text => (Binary64.ofText? text).isSome
  | _ => true

/-- The token of a lexeme.  A number that cannot be read has none; any would do. -/
def token : Lexeme → Token := Symbol.map fun text => (Binary64.ofText? text).getD .nan

/-- The operator that is understood in front of a lexeme standing behind `last?`, if any. -/
def understoodProduct (last? : Option Lexeme) (here : Placed Lexeme) : List (Placed Lexeme) :=
  if here.item = .opening ∧ last?.any Symbol.endsOperand then
    [⟨.operator .multiply, here.offset⟩]
  else []

/-- Writes out the products that are understood in a row behind `last?`. -/
def spellProductsFrom (last? : Option Lexeme) : List (Placed Lexeme) → List (Placed Lexeme)
  | [] => []
  | here :: rest =>
    understoodProduct last? here ++ here :: spellProductsFrom (some here.item) rest

/-- The row with every product written out. -/
def spellProducts (lexemes : List (Placed Lexeme)) : List (Placed Lexeme) :=
  spellProductsFrom none lexemes

end Lexeme

namespace Reading

variable {reading after : Reading} {here : Placed Lexeme} {next? : Option (Placed Lexeme)}

/-! ## 2. One lexeme -/

/-- The offsets of the parentheses open behind a lexeme, unless it closes one too many. -/
def enclose (opened : List Nat) (here : Placed Lexeme) : Option (List Nat) :=
  match here.item, opened with
  | .opening, _ => some (here.offset :: opened)
  | .closing, [] => none
  | .closing, _ :: outer => some outer
  | _, _ => some opened

/-- The tokens of a row behind `last?`, understood products written out. -/
def tokensFrom (last? : Option Lexeme) (row : List (Placed Lexeme)) : List (Placed Token) :=
  (Lexeme.spellProductsFrom last? row).map (Placed.map Lexeme.token)

/-- The lexeme a row ends with behind `last?`. -/
def lastFrom (last? : Option Lexeme) (row : List (Placed Lexeme)) : Option Lexeme :=
  row.foldl (fun _ here => some here.item) last?

/-- The state behind a row that has been read in a state, with these parentheses open. -/
def behind (reading : Reading) (row : List (Placed Lexeme)) (opened : List Nat) : Reading where
  last? := lastFrom reading.last? row
  opened := opened
  tokens := (tokensFrom reading.last? row).reverse ++ reading.tokens

@[simp] theorem behind_last? (reading : Reading) (row : List (Placed Lexeme)) (opened : List Nat) :
    (reading.behind row opened).last? = lastFrom reading.last? row := rfl

@[simp] theorem behind_opened (reading : Reading) (row : List (Placed Lexeme))
    (opened : List Nat) : (reading.behind row opened).opened = opened := rfl

@[simp] theorem behind_tokens (reading : Reading) (row : List (Placed Lexeme))
    (opened : List Nat) : (reading.behind row opened).tokens
      = (tokensFrom reading.last? row).reverse ++ reading.tokens := rfl

theorem tokensFrom_cons (last? : Option Lexeme) (here : Placed Lexeme)
    (row : List (Placed Lexeme)) :
    tokensFrom last? (here :: row)
      = tokensFrom last? [here] ++ tokensFrom (some here.item) row := by
  simp [tokensFrom, Lexeme.spellProductsFrom]

theorem tokensFrom_append (last? : Option Lexeme) (front row : List (Placed Lexeme)) :
    tokensFrom last? (front ++ row)
      = tokensFrom last? front ++ tokensFrom (lastFrom last? front) row := by
  induction front generalizing last? with
  | nil => rfl
  | cons here front ih =>
    rw [List.cons_append, tokensFrom_cons, ih, tokensFrom_cons last? here front, List.append_assoc]
    rfl

theorem behind_cons (reading : Reading) (here : Placed Lexeme) (row : List (Placed Lexeme))
    (between opened : List Nat) :
    reading.behind (here :: row) opened = (reading.behind [here] between).behind row opened := by
  simp [behind, tokensFrom_cons reading.last? here row, lastFrom]

/-- **A lexeme whose neighbours are in order** leaves its token, behind an understood product if
there is one, unless its number cannot be read or it closes a parenthesis too many. -/
theorem take_eq (reading : Reading) (here : Placed Lexeme) : reading.take here =
    if here.item.isReadable then
      match enclose reading.opened here with
      | some opened => .ok (reading.behind [here] opened)
      | none => .error (.unmatchedClosing here.offset)
    else .error (.invalidNumber here.item.text here.offset) := by
  obtain ⟨item, offset⟩ := here
  cases item with
  | number text =>
    cases h : Binary64.ofText? text <;>
      simp [take, h, Lexeme.isReadable, enclose, behind, tokensFrom, lastFrom, emit, Lexeme.text,
        Lexeme.spellProductsFrom, Lexeme.understoodProduct, Placed.map, Lexeme.token, Symbol.map,
        Symbol.text]
  | opening =>
    by_cases h : reading.last?.any Symbol.endsOperand = true <;>
      simp [take, h, Lexeme.isReadable, enclose, behind, tokensFrom, lastFrom, emit,
        Lexeme.spellProductsFrom, Lexeme.understoodProduct, Placed.map, Lexeme.token, Symbol.map]
  | closing =>
    cases h : reading.opened <;>
      simp [take, h, Lexeme.isReadable, enclose, behind, tokensFrom, lastFrom, emit,
        Lexeme.spellProductsFrom, Lexeme.understoodProduct, Placed.map, Lexeme.token, Symbol.map]
  | operator | negation | unknown =>
    simp [take, Lexeme.isReadable, enclose, behind, tokensFrom, lastFrom, emit,
      Lexeme.spellProductsFrom, Lexeme.understoodProduct, Placed.map, Lexeme.token, Symbol.map]

theorem step_eq_ok_iff : reading.step here next? = .ok after ↔
    neighbourError? reading.last? here next? = none ∧ here.item.isReadable ∧
      ∃ opened, enclose reading.opened here = some opened ∧
        reading.behind [here] opened = after := by
  unfold step
  rw [take_eq]
  cases neighbourError? reading.last? here next? with
  | some error => simp
  | none =>
    cases enclose reading.opened here <;> cases here.item.isReadable <;> simp

/-! ## 3. A row in front of a lexeme -/

/-- Reads a row behind which `next?` stands. -/
def runBefore (next? : Option (Placed Lexeme)) (reading : Reading) :
    List (Placed Lexeme) → Except SyntaxError Reading
  | [] => .ok reading
  | here :: rest =>
    match reading.step here (rest.head?.or next?) with
    | .ok after => runBefore next? after rest
    | .error error => .error error

theorem runBefore_cons (reading : Reading) (here : Placed Lexeme) (rest : List (Placed Lexeme)) :
    runBefore next? reading (here :: rest)
      = (reading.step here (rest.head?.or next?)).bind (runBefore next? · rest) := by
  rw [runBefore]
  cases reading.step here (rest.head?.or next?) <;> rfl

/-- A whole row has nothing behind it. -/
theorem run_eq_runBefore (reading : Reading) (row : List (Placed Lexeme)) :
    reading.run row = runBefore none reading row := by
  induction row generalizing reading with
  | nil => rfl
  | cons here rest ih =>
    rw [run, runBefore, Option.or_none]
    cases reading.step here rest.head? with
    | ok after => exact ih after
    | error error => rfl

/-- The two parts of a row are read one after the other, the first in front of the second. -/
theorem runBefore_append (front row : List (Placed Lexeme)) :
    runBefore next? reading (front ++ row)
      = (runBefore (row.head?.or next?) reading front).bind (runBefore next? · row) := by
  induction front generalizing reading with
  | nil => rfl
  | cons here rest ih =>
    have hnext : (rest ++ row).head?.or next? = rest.head?.or (row.head?.or next?) := by
      cases rest <;> simp
    rw [List.cons_append, runBefore_cons, runBefore_cons, hnext]
    cases reading.step here (rest.head?.or (row.head?.or next?)) with
    | ok after => exact ih
    | error error => rfl

/-- No lexeme of a row behind `last?` and in front of `next?` has a problem with its neighbours. -/
def InOrder (next? : Option (Placed Lexeme)) : Option Lexeme → List (Placed Lexeme) → Prop
  | _, [] => True
  | last?, here :: rest =>
    neighbourError? last? here (rest.head?.or next?) = none ∧ InOrder next? (some here.item) rest

/-- **When a row is read**, and the state that reading leads to. -/
theorem runBefore_eq_ok_iff {row : List (Placed Lexeme)} :
    runBefore next? reading row = .ok after ↔
      InOrder next? reading.last? row ∧ (∀ here ∈ row, here.item.isReadable) ∧
        ∃ opened, row.foldlM enclose reading.opened = some opened ∧
          reading.behind row opened = after := by
  induction row generalizing reading with
  | nil => simp [runBefore, InOrder, behind, tokensFrom, lastFrom, Lexeme.spellProductsFrom]
  | cons here rest ih =>
    have hstep : runBefore next? reading (here :: rest) = .ok after ↔
        ∃ between, reading.step here (rest.head?.or next?) = .ok between ∧
          runBefore next? between rest = .ok after := by
      rw [runBefore_cons]
      cases reading.step here (rest.head?.or next?) <;> simp [Except.bind]
    rw [hstep]
    constructor
    · rintro ⟨between, hhere, hrest⟩
      obtain ⟨hn, hr, inside, hi, rfl⟩ := step_eq_ok_iff.mp hhere
      obtain ⟨ho, hrs, opened, hopened, rfl⟩ := ih.mp hrest
      refine ⟨⟨hn, ho⟩, List.forall_mem_cons.mpr ⟨hr, hrs⟩, opened, ?_, behind_cons ..⟩
      simpa [hi] using hopened
    · rintro ⟨⟨hn, ho⟩, hr, opened, hopened, rfl⟩
      obtain ⟨hr, hrs⟩ := List.forall_mem_cons.mp hr
      obtain ⟨inside, hi, hopened⟩ : ∃ inside, enclose reading.opened here = some inside ∧
          rest.foldlM enclose inside = some opened := by
        simpa [Option.bind_eq_some_iff] using hopened
      exact ⟨reading.behind [here] inside, step_eq_ok_iff.mpr ⟨hn, hr, inside, hi, rfl⟩,
        ih.mpr ⟨ho, hrs, opened, hopened, (behind_cons ..).symm⟩⟩

end Reading

/-! ## 4. A whole row -/

theorem Token.read_of_ne_nil {row : List (Placed Lexeme)} (h : row ≠ []) :
    Token.read row = (Reading.runBefore none Reading.start row).bind Reading.finish := by
  cases row with
  | nil => exact absurd rfl h
  | cons here rest =>
    simp only [Token.read, Reading.run_eq_runBefore]
    cases Reading.runBefore none Reading.start (here :: rest) <;> rfl

/-- **Acceptance.**  A row is accepted exactly when neighbours, numbers and parentheses are in order
and none is left open; its tokens are those of its lexemes, understood products written out. -/
theorem Token.read_eq_ok_iff {row : List (Placed Lexeme)} {tokens : List (Placed Token)} :
    Token.read row = .ok tokens ↔
      row ≠ [] ∧ Reading.InOrder none none row ∧ (∀ here ∈ row, here.item.isReadable) ∧
        row.foldlM Reading.enclose [] = some [] ∧ Reading.tokensFrom none row = tokens := by
  cases row with
  | nil => simp [Token.read]
  | cons here rest =>
    have hread : Token.read (here :: rest) = .ok tokens ↔
        ∃ reading, Reading.runBefore none Reading.start (here :: rest) = .ok reading ∧
          reading.finish = .ok tokens := by
      rw [Token.read_of_ne_nil (List.cons_ne_nil here rest)]
      cases Reading.runBefore none Reading.start (here :: rest) <;> simp [Except.bind]
    rw [hread]
    simp only [Reading.runBefore_eq_ok_iff]
    constructor
    · rintro ⟨_, ⟨ho, hr, opened, hopened, rfl⟩, hfinish⟩
      cases opened with
      | nil =>
        refine ⟨by simp, ho, hr, hopened, ?_⟩
        simpa [Reading.finish, Reading.start] using hfinish
      | cons offset outer => simp [Reading.finish] at hfinish
    · rintro ⟨-, ho, hr, hopened, rfl⟩
      exact ⟨_, ⟨ho, hr, [], hopened, rfl⟩, by simp [Reading.finish, Reading.start]⟩

end Reckoner
