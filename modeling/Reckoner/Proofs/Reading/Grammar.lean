/-
# Reading accepts exactly the expressions

The checks of reading look at one lexeme and its two neighbours, and at the parentheses that are
open.  On rows without meaningless characters they accept a context-free language:

* **`read_accepts_iff_derives`**: a row is accepted exactly when it is an expression of the loose
  grammar, every number in it can be read, and no operator stands in front of a number written `0`.
  The tokens are then an expression of the strict grammar, in which products are written out.

Both grammars are known by their neighbours (`derives_iff_linked`), so the statement comes down to
two comparisons: the order that reading asks for with the neighbours of the loose grammar
(`inOrder_iff_linked`), and the neighbours before products are written out with those behind
(`linked_spellProductsFrom`).
-/
import Mathlib.Data.List.Chain
import Reckoner.Lexeme.Scan
import Reckoner.Proofs.Grammar.Neighbours
import Reckoner.Proofs.Reading.Acceptance

namespace Reckoner

open Reckoner.Symbol

/-! ## 1. Symbols whose numbers are held in another way -/

namespace Symbol

variable {α β : Type} (f : α → β) {loose : Bool} {here next : Symbol α}

@[simp] theorem isUnknown_map : (here.map f).isUnknown = here.isUnknown := by cases here <;> rfl

@[simp] theorem needsLeft_map : (here.map f).needsLeft = here.needsLeft := by cases here <;> rfl

@[simp] theorem needsRight_map : (here.map f).needsRight = here.needsRight := by cases here <;> rfl

@[simp] theorem joins_map : (here.map f).joins loose (next.map f) = here.joins loose next := by
  cases here <;> cases next <;> rfl

@[simp] theorem deepen_map (depth : Nat) : deepen depth (here.map f) = deepen depth here := by
  cases here <;> cases depth <;> rfl

theorem plain_map (row : List (Symbol α)) : Plain (row.map (map f)) ↔ Plain row := by
  simp [Plain]

theorem linked_map (last? : Option (Symbol α)) (row : List (Symbol α)) :
    Linked loose (last?.map (map f)) (row.map (map f)) ↔ Linked loose last? row := by
  induction row generalizing last? with
  | nil => cases last? <;> simp [Linked, mayEnd]
  | cons here row ih =>
    have hhere : follows loose (last?.map (map f)) (here.map f) = follows loose last? here := by
      cases last? <;> simp [follows]
    simp only [List.map_cons, Linked, hhere]
    exact and_congr_right fun _ => ih (some here)

theorem depthAfter_map (depth : Nat) (row : List (Symbol α)) :
    depthAfter depth (row.map (map f)) = depthAfter depth row := by
  induction row generalizing depth with
  | nil => rfl
  | cons here row ih => simp [ih]

theorem needsLeft_of_follows {last? : Option (Symbol α)} (h : follows loose last? here)
    (hnone : last? = none) : here.needsLeft = false := by
  subst hnone
  simpa [follows] using h

theorem Linked.isChain {last? : Option (Symbol α)} {row : List (Symbol α)}
    (h : Linked false last? row) :
    row.IsChain fun here next => ¬(here.endsOperand ∧ next.startsOperand) := by
  induction row generalizing last? with
  | nil => exact .nil
  | cons here row ih =>
    cases row with
    | nil => exact .singleton here
    | cons next row =>
      obtain ⟨-, hnext⟩ := h
      refine .cons_cons ?_ (ih hnext)
      have hjoins : here.joins false next := hnext.1
      cases here <;> cases next <;>
        simp_all [joins, admits, followsOperand, startsOperand, startsAtom, endsOperand]

end Symbol

/-! ## 2. The order that reading asks for -/

/-- An operator in front of the number written `0`. -/
def Lexeme.ZeroOperand (here next : Lexeme) : Prop :=
  (∃ op, here = .operator op) ∧ next = .number "0"

namespace Reading

theorem isLiteralZero_iff {lexeme : Lexeme} : lexeme.isLiteralZero ↔ lexeme = .number "0" := by
  cases lexeme <;> simp [Lexeme.isLiteralZero]

/-- The last lexeme of a row has no problem with its left neighbour and needs no right one. -/
theorem neighbourError?_end_eq_none_iff {last? : Option Lexeme} {here : Placed Lexeme} :
    neighbourError? last? here none = none ↔
      (last? = none → here.item.needsLeft = false) ∧ here.item.needsRight = false := by
  cases last? <;> cases h : here.item.needsLeft <;> cases h' : here.item.needsRight <;>
    simp [neighbourError?, h, h']

/-- A lexeme has no problem with its neighbours when it has the left one it needs, admits the right
one, and the two are no operator and zero. -/
theorem neighbourError?_eq_none_iff {last? : Option Lexeme} {here next : Placed Lexeme} :
    neighbourError? last? here (some next) = none ↔
      (last? = none → here.item.needsLeft = false) ∧ here.item.admits next.item ∧
        ¬Lexeme.ZeroOperand here.item next.item := by
  obtain ⟨item, offset⟩ := here
  rw [Lexeme.ZeroOperand, ← isLiteralZero_iff]
  cases hadmits : item.admits next.item <;> cases hzero : next.item.isLiteralZero <;>
    cases item <;> cases last? <;> simp [neighbourError?, hadmits, hzero, needsLeft]

/-- **Order is neighbourhood.**  A row behind `last?` has no problem with its neighbours exactly
when it is linked as the loose grammar asks and no operator meets a zero. -/
theorem inOrder_iff_linked {last? : Option Lexeme} {here : Placed Lexeme}
    {rest : List (Placed Lexeme)} :
    follows true last? here.item ∧ InOrder none last? (here :: rest) ↔
      Linked true last? ((here :: rest).map Placed.item) ∧
        ((here :: rest).map Placed.item).IsChain
          fun here next => ¬Lexeme.ZeroOperand here next := by
  induction rest generalizing last? here with
  | nil =>
    have hleft : follows true last? here.item → last? = none → here.item.needsLeft = false :=
      needsLeft_of_follows
    simp only [InOrder, List.head?_nil, Option.none_or, neighbourError?_end_eq_none_iff, Linked,
      mayEnd, List.map_cons, List.map_nil, List.isChain_singleton, Bool.not_eq_true']
    tauto
  | cons next rest ih =>
    have hleft : follows true last? here.item → last? = none → here.item.needsLeft = false :=
      needsLeft_of_follows
    have hnext : follows true (some here.item) next.item ↔ here.item.admits next.item := by
      cases here.item <;> cases next.item <;> simp [follows, joins, admits, followsOperand]
    have hrest : follows true (some here.item) next.item ∧
          InOrder none (some here.item) (next :: rest) ↔ _ := ih
    rw [InOrder, List.head?_cons, Option.some_or, neighbourError?_eq_none_iff, List.map_cons,
      Linked, List.map_cons, List.isChain_cons_cons, ← List.map_cons]
    rw [hnext] at hrest
    tauto

/-! ## 3. Written products -/

/-- Where no product is understood, the strict grammar lets stand what the loose one does. -/
theorem follows_strict {last? : Option Lexeme} {here : Placed Lexeme}
    (h : follows true last? here.item)
    (hnone : ¬(here.item = .opening ∧ last?.any Symbol.endsOperand)) :
    follows false last? here.item := by
  rcases last? with _ | last
  · exact h
  · cases last <;> cases hitem : here.item <;> simp_all [follows, joins, admits, endsOperand]

/-- **Products are written out where the strict grammar asks for them**, and nowhere else. -/
theorem linked_spellProductsFrom {last? : Option Lexeme} {row : List (Placed Lexeme)}
    (h : Linked true last? (row.map Placed.item)) :
    Linked false last? ((Lexeme.spellProductsFrom last? row).map Placed.item) := by
  induction row generalizing last? with
  | nil => exact h
  | cons here rest ih =>
    obtain ⟨hhere, hrest⟩ := h
    have hrest : Linked false (some here.item)
        ((Lexeme.spellProductsFrom (some here.item) rest).map Placed.item) := ih hrest
    rw [Lexeme.spellProductsFrom, Lexeme.understoodProduct]
    split
    · rename_i hproduct
      rcases last? with _ | last
      · simp at hproduct
      · obtain ⟨hopening, hends⟩ := hproduct
        refine ⟨joins_operator hends .multiply, ?_, hrest⟩
        rw [hopening]
        rfl
    · rename_i hnone
      exact ⟨follows_strict hhere hnone, hrest⟩

theorem depthAfter_spellProductsFrom (last? : Option Lexeme) (row : List (Placed Lexeme))
    (depth : Nat) :
    depthAfter depth ((Lexeme.spellProductsFrom last? row).map Placed.item)
      = depthAfter depth (row.map Placed.item) := by
  induction row generalizing last? depth with
  | nil => rfl
  | cons here rest ih =>
    rw [Lexeme.spellProductsFrom, Lexeme.understoodProduct]
    split <;> simp [deepen, ih]

theorem plain_spellProductsFrom {last? : Option Lexeme} {row : List (Placed Lexeme)}
    (h : Plain (row.map Placed.item)) :
    Plain ((Lexeme.spellProductsFrom last? row).map Placed.item) := by
  induction row generalizing last? with
  | nil => simp [Lexeme.spellProductsFrom]
  | cons here rest ih =>
    obtain ⟨hhere, hrest⟩ := plain_cons.mp h
    have hproduct : (.operator .multiply : Lexeme).isUnknown = false := rfl
    rw [Lexeme.spellProductsFrom, Lexeme.understoodProduct]
    split <;> simp [hproduct, hhere, ih hrest]

theorem items_tokensFrom (last? : Option Lexeme) (row : List (Placed Lexeme)) :
    (tokensFrom last? row).map Placed.item
      = ((Lexeme.spellProductsFrom last? row).map Placed.item).map Lexeme.token := by
  simp [tokensFrom, Placed.map, Function.comp_def]

/-! ## 4. Open parentheses -/

/-- The open parentheses are as many as the grammar counts. -/
theorem foldlM_enclose (opened : List Nat) (row : List (Placed Lexeme)) :
    (row.foldlM enclose opened).map List.length
      = depthAfter opened.length (row.map Placed.item) := by
  induction row generalizing opened with
  | nil => rfl
  | cons here rest ih =>
    have hhere : (enclose opened here).map List.length = deepen opened.length here.item := by
      obtain ⟨item, offset⟩ := here
      cases item <;> cases opened <;> rfl
    rw [List.map_cons, depthAfter_cons, ← hhere]
    cases h : enclose opened here with
    | none => simp [h]
    | some inside => simp [h, ih]

theorem foldlM_enclose_nil_iff {row : List (Placed Lexeme)} :
    row.foldlM enclose [] = some [] ↔ depthAfter 0 (row.map Placed.item) = some 0 := by
  have hlength := foldlM_enclose [] row
  rw [List.length_nil] at hlength
  rw [← hlength]
  simp

end Reading

/-! ## 5. The two grammars -/

theorem inOrder_start_iff {row : List (Placed Lexeme)} :
    row ≠ [] ∧ Reading.InOrder none none row ↔
      Linked true none (row.map Placed.item) ∧
        (row.map Placed.item).IsChain fun here next => ¬Lexeme.ZeroOperand here next := by
  cases row with
  | nil => simp [Linked, mayEnd]
  | cons here rest =>
    rw [← Reading.inOrder_iff_linked]
    have hstart : Reading.InOrder none none (here :: rest) → follows true none here.item := by
      rintro ⟨hhere, -⟩
      cases rest with
      | nil => simpa [follows] using (Reading.neighbourError?_end_eq_none_iff.mp hhere).1 rfl
      | cons next rest => simpa [follows] using (Reading.neighbourError?_eq_none_iff.mp hhere).1 rfl
    constructor
    · rintro ⟨-, h⟩
      exact ⟨hstart h, h⟩
    · rintro ⟨-, h⟩
      exact ⟨by simp, h⟩

/-- A row of meaningful lexemes that is accepted is an expression of the loose grammar. -/
theorem Token.derives_loose_of_read {lexemes : List (Placed Lexeme)} {tokens : List (Placed Token)}
    (hplain : Plain (lexemes.map Placed.item)) (h : Token.read lexemes = .ok tokens) :
    Derives true .expression (lexemes.map Placed.item) := by
  obtain ⟨hne, ho, -, hopened, -⟩ := Token.read_eq_ok_iff.mp h
  obtain ⟨hlinked, -⟩ := inOrder_start_iff.mp ⟨hne, ho⟩
  exact derives_iff_linked.mpr ⟨hplain, hlinked, Reading.foldlM_enclose_nil_iff.mp hopened⟩

/-- The tokens of any row that is accepted are linked as the strict grammar asks. -/
theorem Token.linked_of_read {lexemes : List (Placed Lexeme)} {tokens : List (Placed Token)}
    (h : Token.read lexemes = .ok tokens) : Linked false none (tokens.map Placed.item) := by
  obtain ⟨hne, ho, -, -, rfl⟩ := Token.read_eq_ok_iff.mp h
  obtain ⟨hlinked, -⟩ := inOrder_start_iff.mp ⟨hne, ho⟩
  rw [Reading.items_tokensFrom]
  exact (linked_map _ none _).mpr (Reading.linked_spellProductsFrom hlinked)

/-- What is read off a row of meaningful lexemes is an expression of the strict grammar. -/
theorem Token.derives_of_read {lexemes : List (Placed Lexeme)} {tokens : List (Placed Token)}
    (hplain : Plain (lexemes.map Placed.item)) (h : Token.read lexemes = .ok tokens) :
    Derives false .expression (tokens.map Placed.item) := by
  have hlinked := Token.linked_of_read h
  obtain ⟨-, -, -, hopened, rfl⟩ := Token.read_eq_ok_iff.mp h
  rw [Reading.items_tokensFrom] at hlinked ⊢
  refine derives_iff_linked.mpr ⟨?_, hlinked, ?_⟩
  · exact (plain_map _ _).mpr (Reading.plain_spellProductsFrom hplain)
  · rw [Lexeme.token, depthAfter_map, Reading.depthAfter_spellProductsFrom]
    exact Reading.foldlM_enclose_nil_iff.mp hopened

/-- **Reading accepts exactly the expressions.**  A row of meaningful lexemes is accepted exactly
when it is an expression in which products may be understood, all its numbers can be read, and no
operator stands in front of a number written `0`.  Its tokens are an expression in which products
are written: no operand meets another, and every parenthesis is opened and closed. -/
theorem Token.read_accepts_iff_derives {lexemes : List (Placed Lexeme)}
    (hplain : Plain (lexemes.map Placed.item)) :
    ((∃ tokens, Token.read lexemes = .ok tokens) ↔
      Derives true .expression (lexemes.map Placed.item) ∧
        (∀ lexeme ∈ lexemes, lexeme.item.isReadable) ∧
        (lexemes.map Placed.item).IsChain fun here next => ¬Lexeme.ZeroOperand here next) ∧
    ∀ tokens, Token.read lexemes = .ok tokens →
      Derives false .expression (tokens.map Placed.item) ∧
        ((tokens.map Placed.item).IsChain fun here next =>
          ¬(here.endsOperand ∧ next.startsOperand)) ∧
        depthAfter 0 (tokens.map Placed.item) = some 0 := by
  constructor
  · constructor
    · rintro ⟨tokens, h⟩
      obtain ⟨hne, ho, hreadable, hopened, -⟩ := Token.read_eq_ok_iff.mp h
      obtain ⟨hlinked, hzero⟩ := inOrder_start_iff.mp ⟨hne, ho⟩
      have hdepth := Reading.foldlM_enclose_nil_iff.mp hopened
      exact ⟨derives_iff_linked.mpr ⟨hplain, hlinked, hdepth⟩, hreadable, hzero⟩
    · rintro ⟨hderives, hreadable, hzero⟩
      obtain ⟨-, hlinked, hdepth⟩ := derives_iff_linked.mp hderives
      obtain ⟨hne, ho⟩ := inOrder_start_iff.mpr ⟨hlinked, hzero⟩
      have hopened := Reading.foldlM_enclose_nil_iff.mpr hdepth
      exact ⟨_, Token.read_eq_ok_iff.mpr ⟨hne, ho, hreadable, hopened, rfl⟩⟩
  · intro tokens h
    have hderives := Token.derives_of_read hplain h
    obtain ⟨-, hlinked, hdepth⟩ := derives_iff_linked.mp hderives
    exact ⟨hderives, hlinked.isChain, hdepth⟩

/-- The line `-2(3+4)×.5` is accepted, so it is an expression, and so are its tokens. -/
theorem Token.read_accepts_understood_product :
    Derives true .expression ((Lexeme.scan "-2(3+4)×.5").map Placed.item) ∧
      ∃ tokens, Token.read (Lexeme.scan "-2(3+4)×.5") = .ok tokens ∧
        Derives false .expression (tokens.map Placed.item) := by
  have hplain : Plain ((Lexeme.scan "-2(3+4)×.5").map Placed.item) := by
    unfold Plain
    decide +kernel
  obtain ⟨tokens, htokens⟩ : ∃ tokens, Token.read (Lexeme.scan "-2(3+4)×.5") = .ok tokens :=
    exists_eq_ok (by decide +kernel)
  obtain ⟨haccepts, hstrict⟩ := Token.read_accepts_iff_derives hplain
  exact ⟨(haccepts.mp ⟨tokens, htokens⟩).1, tokens, htokens, (hstrict tokens htokens).1⟩

end Reckoner
