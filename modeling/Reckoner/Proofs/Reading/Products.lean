/-
# Rows in which products are written

Reading writes out the products that a line leaves to be understood.  A row is part of what comes
of it, and all that is added are products (`Lexeme.mem_of_mem_spellProductsFrom`).  Where every
product is written already, nothing is added (`Lexeme.spellProductsFrom_of_linked`), so such a row
keeps its lexemes when it is read.

Whether a product is written makes no difference to what is read, or to why nothing is
(`Token.read_spellProducts`).  Two lexemes look at a product that comes to stand between them:

* **the operand in front** admits an operator as it admits a parenthesis
  (`Reading.neighbourError?_spellProductsFrom`);
* **the parenthesis behind** has an operator on its left now, so nothing is understood there any
  more, and the written operator leaves the token that would have been put in
  (`Reading.run_understoodProduct`).
-/
import Reckoner.Proofs.Reading.Grammar

namespace Reckoner

/-! ## 1. The strict grammar is part of the loose one -/

namespace Symbol

variable {α : Type} {here next : Symbol α} {last? : Option (Symbol α)} {row : List (Symbol α)}

theorem joins_loose (h : here.joins false next) : here.joins true next := by
  cases here <;> cases next <;> first | exact h | rfl

theorem Linked.loosen (h : Linked false last? row) : Linked true last? row := by
  induction row generalizing last? with
  | nil => exact h
  | cons here row ih =>
    obtain ⟨hhere, hrow⟩ := h
    refine ⟨?_, ih hrow⟩
    cases last? with
    | none => exact hhere
    | some last => exact joins_loose hhere

end Symbol

/-! ## 2. What is written out -/

namespace Lexeme

variable {last? : Option Lexeme} {here : Placed Lexeme} {row : List (Placed Lexeme)}

theorem mem_spellProductsFrom (last? : Option Lexeme) (h : here ∈ row) :
    here ∈ spellProductsFrom last? row := by
  induction row generalizing last? with
  | nil => cases h
  | cons first rest ih =>
    rw [spellProductsFrom, List.mem_append, List.mem_cons]
    rcases List.mem_cons.mp h with rfl | hrest
    · exact .inr (.inl rfl)
    · exact .inr (.inr (ih _ hrest))

/-- **Only products are added** to a row when its products are written out. -/
theorem mem_of_mem_spellProductsFrom (h : here ∈ spellProductsFrom last? row) :
    here ∈ row ∨ here.item = .operator .multiply := by
  induction row generalizing last? with
  | nil => cases h
  | cons first rest ih =>
    rw [spellProductsFrom, List.mem_append, List.mem_cons] at h
    rcases h with hproduct | rfl | hrest
    · rw [understoodProduct] at hproduct
      split at hproduct
      · obtain rfl := List.mem_singleton.mp hproduct
        exact .inr rfl
      · cases hproduct
    · exact .inl List.mem_cons_self
    · exact (ih hrest).imp_left (List.mem_cons_of_mem first)

/-- **Nothing is added** to a row in which all products are written. -/
theorem spellProductsFrom_of_linked (h : Symbol.Linked false last? (row.map Placed.item)) :
    spellProductsFrom last? row = row := by
  induction row generalizing last? with
  | nil => rfl
  | cons here row ih =>
    obtain ⟨hhere, hrow⟩ := h
    have hnone : understoodProduct last? here = [] := by
      refine if_neg ?_
      rintro ⟨hopening, hends⟩
      cases last? with
      | none => cases hends
      | some last =>
        -- the strict grammar lets no parenthesis open right behind an operand
        have hjoins : last.joins false .opening := hopening ▸ hhere
        rw [Symbol.joins_opening hends] at hjoins
        cases hjoins
    rw [spellProductsFrom, hnone, ih hrow, List.nil_append]

end Lexeme

/-- A row whose tokens have a meaning has one. -/
theorem Token.plain_of_read {row : List (Placed Lexeme)} {tokens : List (Placed Token)}
    (h : read row = .ok tokens) (hplain : Symbol.Plain (tokens.map Placed.item)) :
    Symbol.Plain (row.map Placed.item) := by
  obtain ⟨-, -, -, -, rfl⟩ := read_eq_ok_iff.mp h
  rw [Reading.items_tokensFrom, Lexeme.token, Symbol.plain_map] at hplain
  intro lexeme hmem
  obtain ⟨here, hhere, rfl⟩ := List.mem_map.mp hmem
  exact hplain _ (List.mem_map_of_mem (Lexeme.mem_spellProductsFrom none hhere))

/-! ## 3. Written and understood -/

namespace Reading

/-- A lexeme has the same problems in front of a row as in front of the row with its products
written out. -/
theorem neighbourError?_spellProductsFrom (last? : Option Lexeme) (here : Placed Lexeme)
    (row : List (Placed Lexeme)) :
    neighbourError? last? here (Lexeme.spellProductsFrom (some here.item) row).head?
      = neighbourError? last? here row.head? := by
  cases row with
  | nil => rfl
  | cons next rest =>
    rw [Lexeme.spellProductsFrom, Lexeme.understoodProduct]
    split
    next hproduct =>
      obtain ⟨hopening, hends⟩ := hproduct
      replace hends : here.item.endsOperand := hends
      -- whatever ends an operand admits an operator and a parenthesis, and is no operator
      obtain ⟨item, offset⟩ := here
      cases item <;>
        simp_all [neighbourError?, Symbol.admits, Symbol.followsOperand, Symbol.endsOperand]
    next => rfl

/-- Behind an operand a product may be written in front of a parenthesis. -/
theorem step_writtenProduct {reading : Reading} (hends : reading.last?.any Symbol.endsOperand)
    (offset : Nat) :
    reading.step ⟨.operator .multiply, offset⟩ (some ⟨.opening, offset⟩)
      = .ok (reading.emit ⟨.operator .multiply, offset⟩ (.operator .multiply)) := by
  obtain ⟨last, hlast, -⟩ : ∃ last, reading.last? = some last ∧ last.endsOperand := by
    simpa [Option.any_eq_true] using hends
  rw [step, hlast]
  rfl

/-- Behind the written product the parenthesis leads where it leads behind the operand. -/
theorem step_behind_writtenProduct {reading : Reading}
    (hends : reading.last?.any Symbol.endsOperand) (offset : Nat)
    (next? : Option (Placed Lexeme)) :
    (reading.emit ⟨.operator .multiply, offset⟩ (.operator .multiply)).step ⟨.opening, offset⟩ next?
      = reading.step ⟨.opening, offset⟩ next? := by
  have htake : (reading.emit ⟨.operator .multiply, offset⟩ (.operator .multiply)).take
      ⟨.opening, offset⟩ = reading.take ⟨.opening, offset⟩ := by
    rw [take, take, if_pos hends]
    rfl
  rw [step, step, htake]
  rfl

/-- The product understood in front of a lexeme may be written there. -/
theorem run_understoodProduct (reading : Reading) (here : Placed Lexeme)
    (rest : List (Placed Lexeme)) :
    reading.run (Lexeme.understoodProduct reading.last? here ++ here :: rest)
      = reading.run (here :: rest) := by
  rw [Lexeme.understoodProduct]
  split
  next hproduct =>
    obtain ⟨hopening, hends⟩ := hproduct
    obtain ⟨item, offset⟩ := here
    obtain rfl : item = .opening := hopening
    rw [List.singleton_append, run, List.head?_cons, step_writtenProduct hends]
    simp only [run]
    rw [step_behind_writtenProduct hends]
  next => rfl

theorem last?_of_step {reading after : Reading} {here : Placed Lexeme}
    {next? : Option (Placed Lexeme)} (h : reading.step here next? = .ok after) :
    after.last? = some here.item := by
  obtain ⟨-, -, opened, -, rfl⟩ := step_eq_ok_iff.mp h
  rfl

/-- **A row is read as with its products written out**, in every state. -/
theorem run_spellProductsFrom (reading : Reading) (row : List (Placed Lexeme)) :
    reading.run (Lexeme.spellProductsFrom reading.last? row) = reading.run row := by
  induction row generalizing reading with
  | nil => rfl
  | cons here rest ih =>
    have hstep : reading.step here (Lexeme.spellProductsFrom (some here.item) rest).head?
        = reading.step here rest.head? := by
      rw [step, step, neighbourError?_spellProductsFrom]
    rw [Lexeme.spellProductsFrom, run_understoodProduct, run, run, hstep]
    cases hafter : reading.step here rest.head? with
    | ok after =>
      have hrest := ih after
      rwa [last?_of_step hafter] at hrest
    | error error => rfl

end Reading

/-- A lexeme becomes this token: a number its value, and all else the same symbol. -/
inductive Lexeme.ReadAs : Lexeme → Token → Prop where
  | number {text : String} {value : Binary64} (h : Binary64.ofText? text = some value) :
    ReadAs (.number text) (.number value)
  | operator (op : Operator) : ReadAs (.operator op) (.operator op)
  | negation : ReadAs .negation .negation
  | opening : ReadAs .opening .opening
  | closing : ReadAs .closing .closing
  | unknown (character : Char) : ReadAs (.unknown character) (.unknown character)

/-- A lexeme becomes a token at its own place. -/
def Placed.ReadAs (here : Placed Lexeme) (token : Placed Token) : Prop :=
  here.item.ReadAs token.item ∧ token.offset = here.offset

theorem Lexeme.readAs_token {lexeme : Lexeme} (h : lexeme.isReadable) :
    lexeme.ReadAs lexeme.token := by
  cases lexeme with
  | number text =>
    obtain ⟨value, hvalue⟩ := Option.isSome_iff_exists.mp h
    have htoken : Lexeme.token (.number text) = .number value := by simp [token, Symbol.map, hvalue]
    rw [htoken]
    exact .number hvalue
  | operator op => exact .operator op
  | negation => exact .negation
  | opening => exact .opening
  | closing => exact .closing
  | unknown character => exact .unknown character

/-- **A token of a line** is what a lexeme of the line is read as, or a product that was
understood. -/
theorem Token.exists_lexeme_of_read {row : List (Placed Lexeme)} {tokens : List (Placed Token)}
    {token : Token} (h : read row = .ok tokens) (hmem : token ∈ tokens.map Placed.item) :
    (∃ here ∈ row, here.item.ReadAs token) ∨ token = .operator .multiply := by
  obtain ⟨-, -, hreadable, -, rfl⟩ := read_eq_ok_iff.mp h
  rw [Reading.items_tokensFrom] at hmem
  obtain ⟨lexeme, hlexeme, rfl⟩ := List.mem_map.mp hmem
  obtain ⟨here, hhere, rfl⟩ := List.mem_map.mp hlexeme
  rcases Lexeme.mem_of_mem_spellProductsFrom hhere with hrow | hproduct
  · exact .inl ⟨here, hrow, Lexeme.readAs_token (hreadable here hrow)⟩
  · rw [hproduct]
    exact .inr rfl

/-- **Written and understood products are the same.**  Any row at all is read as the row in which
its products are written out: to the same tokens, or with the same error.  The tokens are those of
the written row, one for each lexeme, in order and in place. -/
theorem Token.read_spellProducts (row : List (Placed Lexeme)) :
    Token.read (Lexeme.spellProducts row) = Token.read row ∧
      ∀ tokens, Token.read row = .ok tokens →
        List.Forall₂ Placed.ReadAs (Lexeme.spellProducts row) tokens := by
  constructor
  · cases row with
    | nil => rfl
    | cons here rest =>
      have hne : Lexeme.spellProducts (here :: rest) ≠ [] := by
        simp [Lexeme.spellProducts, Lexeme.spellProductsFrom]
      have hrun : Reading.start.run (Lexeme.spellProducts (here :: rest))
          = Reading.start.run (here :: rest) := Reading.run_spellProductsFrom .start (here :: rest)
      rw [Token.read_of_ne_nil hne, Token.read_of_ne_nil (List.cons_ne_nil here rest),
        ← Reading.run_eq_runBefore, ← Reading.run_eq_runBefore, hrun]
  · intro tokens h
    obtain ⟨-, -, hreadable, -, rfl⟩ := Token.read_eq_ok_iff.mp h
    rw [Reading.tokensFrom, List.forall₂_map_right_iff, ← Lexeme.spellProducts, List.forall₂_same]
    intro here hmem
    have hhere : here.item.isReadable := by
      rcases Lexeme.mem_of_mem_spellProductsFrom hmem with hrow | hproduct
      · exact hreadable here hrow
      · rw [hproduct]
        rfl
    exact ⟨Lexeme.readAs_token hhere, rfl⟩

/-- In `2(3)(.5)` two products are understood, each at the offset of its parenthesis. -/
theorem Token.read_spellProducts_three_factors :
    ∃ tokens, Token.read (Lexeme.scan "2(3)(.5)") = .ok tokens ∧
      Token.read [⟨.number "2", 0⟩, ⟨.operator .multiply, 1⟩, ⟨.opening, 1⟩, ⟨.number "3", 2⟩,
        ⟨.closing, 3⟩, ⟨.operator .multiply, 4⟩, ⟨.opening, 4⟩, ⟨.number ".5", 5⟩, ⟨.closing, 7⟩]
          = .ok tokens ∧
      List.Forall₂ Placed.ReadAs (Lexeme.spellProducts (Lexeme.scan "2(3)(.5)")) tokens := by
  have hrow : Lexeme.spellProducts (Lexeme.scan "2(3)(.5)")
      = [⟨.number "2", 0⟩, ⟨.operator .multiply, 1⟩, ⟨.opening, 1⟩, ⟨.number "3", 2⟩,
        ⟨.closing, 3⟩, ⟨.operator .multiply, 4⟩, ⟨.opening, 4⟩, ⟨.number ".5", 5⟩,
        ⟨.closing, 7⟩] := by decide +kernel
  obtain ⟨tokens, h⟩ : ∃ tokens, Token.read (Lexeme.scan "2(3)(.5)") = .ok tokens :=
    exists_eq_ok (by decide +kernel)
  obtain ⟨hsame, hreadAs⟩ := Token.read_spellProducts (Lexeme.scan "2(3)(.5)")
  rw [← hrow]
  exact ⟨tokens, h, hsame.trans h, hreadAs tokens h⟩

end Reckoner
