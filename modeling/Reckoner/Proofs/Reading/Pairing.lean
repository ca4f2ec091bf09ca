/-
# The parenthesis that an error names

Two errors are about parentheses, and each names the one that is at fault:

* **a closing one** that closes nothing is reported at the first such parenthesis of the row;
* **an opening one** that is never closed is reported at the last such parenthesis, once the row has
  been read to its end.  Closing parentheses behind the row close one unclosed parenthesis each,
  from the last to the first, and the next one after these is one too many.

Which parentheses belong together is told by the row alone (`Symbol.Closes`).  Reading keeps the
offsets of those that are open, and these are always the unclosed ones of what has been read
(`Reading.opened_eq`).
-/
import Reckoner.Proofs.Grammar.Matching
import Reckoner.Proofs.Reading.Completion

namespace Reckoner

open Reckoner.Symbol

namespace Reading

variable {state : Reading} {row closers : List (Placed Lexeme)} {next? : Option (Placed Lexeme)}
  {last : Placed Lexeme} {offset : Nat}

/-! ## 1. The open parentheses -/

/-- The offset of the lexeme at an index. -/
def offsetAt (row : List (Placed Lexeme)) (index : Nat) : Option Nat :=
  row[index]?.map Placed.offset

theorem map_offsetAt_cons (here : Placed Lexeme) (indices : List Nat) :
    (indices.map (· + 1)).map (offsetAt (here :: row)) = indices.map (offsetAt row) := by
  simp [offsetAt, Function.comp_def]

/-- Behind a row those parentheses are open that it leaves open, and in front of them what its
surplus leaves of those that were open before. -/
theorem foldlM_enclose_eq {opened opened' : List Nat}
    (h : row.foldlM enclose opened = some opened') :
    opened'.map some = ((unclosed (row.map Placed.item)).map (offsetAt row)).reverse
      ++ (opened.drop (surplus (row.map Placed.item))).map some := by
  induction row generalizing opened with
  | nil =>
    obtain rfl : opened = opened' := by simpa using h
    simp
  | cons here rest ih =>
    obtain ⟨inside, hinside, hrest⟩ : ∃ inside, enclose opened here = some inside ∧
        rest.foldlM enclose inside = some opened' := by
      simpa [Option.bind_eq_some_iff] using h
    rw [ih hrest, List.map_cons]
    by_cases hopening : here.item = .opening
    · obtain rfl : here.offset :: opened = inside := by simpa [enclose, hopening] using hinside
      rw [hopening, unclosed, surplus_opening]
      split
      next hnone =>
        rw [List.map_cons, List.reverse_cons, map_offsetAt_cons, hnone]
        simp [offsetAt]
      next hsome =>
        obtain ⟨more, hmore⟩ := Nat.exists_eq_succ_of_ne_zero hsome
        rw [map_offsetAt_cons, hmore]
        rfl
    · rw [unclosed_of_ne hopening, map_offsetAt_cons]
      by_cases hclosing : here.item = .closing
      · cases opened with
        | nil => simp [enclose, hclosing] at hinside
        | cons innermost outer =>
          obtain rfl : outer = inside := by simpa [enclose, hclosing] using hinside
          rw [hclosing, surplus_closing]
          rfl
      · have hsame : enclose opened here = some opened := by
          obtain ⟨item, offset⟩ := here
          cases item <;> first | contradiction | rfl
        obtain rfl : opened = inside := Option.some.inj (hsame.symm.trans hinside)
        rw [surplus_of_ne hopening hclosing]

/-- **What is open behind a row** that has been read are its unclosed parentheses, the last one
first. -/
theorem opened_eq (h : runBefore next? start row = .ok state) :
    state.opened.map some = ((unclosed (row.map Placed.item)).map (offsetAt row)).reverse := by
  obtain ⟨-, -, opened, hopened, rfl⟩ := runBefore_eq_ok_iff.mp h
  simpa [start] using foldlM_enclose_eq hopened

theorem length_opened (h : runBefore next? start row = .ok state) :
    state.opened.length = (unclosed (row.map Placed.item)).length := by
  simpa using congrArg List.length (opened_eq h)

theorem surplus_eq_zero (h : runBefore next? start row = .ok state) :
    surplus (row.map Placed.item) = 0 := by
  obtain ⟨-, -, opened, hopened, -⟩ := runBefore_eq_ok_iff.mp h
  have hdepth := foldlM_enclose [] row
  rw [show row.foldlM enclose [] = some opened from hopened] at hdepth
  exact Nat.le_zero.mp (depthAfter_eq_some_iff.mp hdepth.symm).1

/-- The open parenthesis of a given place is an unclosed one, counted from the end. -/
theorem exists_of_getElem?_opened (h : runBefore next? start row = .ok state) {place : Nat}
    (hoffset : state.opened[place]? = some offset) :
    ∃ i, (unclosed (row.map Placed.item))[(unclosed (row.map Placed.item)).length - place - 1]?
        = some i ∧ row[i]? = some ⟨.opening, offset⟩ := by
  have hplace : (state.opened.map some)[place]? = some (some offset) := by
    rw [List.getElem?_map, hoffset, Option.map_some]
  have hlt : place < (unclosed (row.map Placed.item)).length := by
    rw [← length_opened h]
    exact (List.getElem?_eq_some_iff.mp hoffset).1
  rw [opened_eq h, List.getElem?_reverse (by simpa using hlt), List.length_map, List.getElem?_map,
    Option.map_eq_some_iff] at hplace
  obtain ⟨i, hi, hat⟩ := hplace
  rw [Nat.sub_right_comm] at hi
  refine ⟨i, hi, ?_⟩
  obtain ⟨⟨item, offset'⟩, hhere, rfl⟩ := Option.map_eq_some_iff.mp hat
  have hopening := (mem_unclosed_iff.mp (List.mem_of_getElem? hi)).1
  rw [List.getElem?_map, hhere] at hopening
  obtain rfl : item = .opening := Option.some.inj hopening
  exact hhere

/-! ## 2. The errors -/

/-- A closing parenthesis is reported behind a row that closes just what it opens. -/
theorem exists_of_unmatchedClosing (h : Token.read row = .error (.unmatchedClosing offset)) :
    ∃ front back, row = front ++ ⟨.closing, offset⟩ :: back ∧
      depthAfter 0 (front.map Placed.item) = some 0 := by
  rcases Token.read_eq_error_iff.mp h with ⟨-, hempty⟩ | hrefused | ⟨_, _, _, -, -, -, hopen⟩
  · cases hempty
  · obtain ⟨front, ⟨item, offset'⟩, back, state, rfl, hfront, hhere⟩ := hrefused
    generalize back.head? = next? at hhere
    cases hhere with
    | unmatchedClosing _ hnone =>
      obtain ⟨rfl, hopened⟩ := enclose_eq_none_iff.mp hnone
      have hlength := length_opened hfront
      rw [hopened, List.length_nil, eq_comm, List.length_eq_zero_iff] at hlength
      exact ⟨front, back, rfl, depthAfter_zero_iff.mpr ⟨surplus_eq_zero hfront, hlength⟩⟩
  · cases hopen

/-- An opening parenthesis is reported once the row has been read to its end. -/
theorem exists_of_unclosedOpening (h : Token.read row = .error (.unclosedOpening offset)) :
    row ≠ [] ∧ ∃ state outer, runBefore none start row = .ok state ∧
      state.opened = offset :: outer := by
  rcases Token.read_eq_error_iff.mp h with ⟨-, hempty⟩ | hrefused | hopen
  · cases hempty
  · obtain ⟨front, here, back, state, rfl, hfront, hhere⟩ := hrefused
    generalize back.head? = next? at hhere
    cases hhere
  · obtain ⟨state, innermost, outer, hrow, hrun, hopened, herror⟩ := hopen
    cases herror
    exact ⟨hrow, state, outer, hrun, hopened⟩

/-- With fewer closing parentheses behind it than it leaves open the row still leaves one open. -/
theorem read_append_fewer (hrow : row ≠ []) (h : runBefore none start row = .ok state)
    (hclosers : ∀ here ∈ closers, here.item = .closing)
    (hopen : state.opened[closers.length]? = some offset) :
    Token.read (row ++ closers) = .error (.unclosedOpening offset) := by
  obtain ⟨hlt, hoffset⟩ := List.getElem?_eq_some_iff.mp hopen
  obtain ⟨after, hafter, hopened, -⟩ : ∃ after,
      runBefore none start (row ++ closers) = .ok after ∧ _ :=
    runBefore_append_closings hrow h hclosers (by simp) (Nat.le_of_lt hlt)
  rw [List.drop_eq_getElem_cons hlt, hoffset] at hopened
  rw [Token.read_of_ne_nil (by simp [hrow]), hafter]
  simp [Except.bind, finish, hopened]

theorem read_append_more (hrow : row ≠ []) (h : runBefore none start row = .ok state)
    (hclosers : ∀ here ∈ closers, here.item = .closing)
    (hlength : closers.length = state.opened.length) (hlast : last.item = .closing) :
    Token.read (row ++ closers ++ [last]) = .error (.unmatchedClosing last.offset) := by
  have hnext : ∀ next ∈ some last, next.item = .closing := by
    rintro _ ⟨⟩
    exact hlast
  obtain ⟨after, hafter, hopened, before, hbefore⟩ :=
    runBefore_append_closings hrow h hclosers hnext (Nat.le_of_eq hlength)
  rw [hlength, List.drop_length] at hopened
  have hstep : after.step last none = .error (.unmatchedClosing last.offset) := by
    refine step_eq_error_iff.mpr (.unmatchedClosing ?_ (enclose_eq_none_iff.mpr ⟨hlast, hopened⟩))
    rw [hbefore]
    exact neighbourError?_of_closing hlast (by simp)
  rw [Token.read_of_ne_nil (by simp), runBefore_append, List.head?_cons, Option.some_or, hafter]
  simp only [Except.bind, runBefore_cons, List.head?_nil, Option.none_or, hstep]

end Reading

/-! ## 3. The parenthesis at fault -/

/-- **Errors name the right parenthesis.**  Each closing parenthesis belongs to the last one that is
left open in front of it.

* In an accepted row all parentheses belong together.
* The unmatched one that is reported is the first that closes nothing.
* The unclosed one that is reported is the last that nothing closes, and nothing else is wrong with
  the parentheses of the row.  Put behind the row, as many closing parentheses as it leaves open
  make it an accepted one; with fewer of them, the last parenthesis that they leave open is
  reported, and with one more that one. -/
theorem Token.read_parentheses (row : List (Placed Lexeme)) :
    (∀ i j, Closes (row.map Placed.item) i j ↔ (row.map Placed.item)[j]? = some .closing ∧
      Unclosed ((row.map Placed.item).take j) i ∧
        ∀ i', Unclosed ((row.map Placed.item).take j) i' → i' ≤ i) ∧
    ((∃ tokens, Token.read row = .ok tokens) →
      (∀ i, ¬Unclosed (row.map Placed.item) i) ∧ ∀ j, ¬Unopened (row.map Placed.item) j) ∧
    (∀ offset, Token.read row = .error (.unmatchedClosing offset) →
      ∃ j, row[j]? = some ⟨.closing, offset⟩ ∧ Unopened (row.map Placed.item) j ∧
        ∀ j', Unopened (row.map Placed.item) j' → j ≤ j') ∧
    (∀ offset, Token.read row = .error (.unclosedOpening offset) →
      (∀ j, ¬Unopened (row.map Placed.item) j) ∧
      (∃ i, row[i]? = some ⟨.opening, offset⟩ ∧ Unclosed (row.map Placed.item) i ∧
        ∀ i', Unclosed (row.map Placed.item) i' → i' ≤ i) ∧
      ∃ indices : List Nat, indices.Pairwise (· < ·) ∧
        (∀ i, i ∈ indices ↔ Unclosed (row.map Placed.item) i) ∧
        ∀ closers : List (Placed Lexeme), (∀ here ∈ closers, here.item = .closing) →
          (closers.length = indices.length →
            ∃ tokens, Token.read (row ++ closers) = .ok tokens) ∧
          (closers.length < indices.length → ∃ i offset',
            indices[indices.length - closers.length - 1]? = some i ∧
            row[i]? = some ⟨.opening, offset'⟩ ∧
            Token.read (row ++ closers) = .error (.unclosedOpening offset')) ∧
          (closers.length = indices.length → ∀ last : Placed Lexeme, last.item = .closing →
            Token.read (row ++ closers ++ [last]) = .error (.unmatchedClosing last.offset))) := by
  refine ⟨fun i j => closes_iff_nearest, ?_, ?_, ?_⟩
  · rintro ⟨tokens, hread⟩
    obtain ⟨-, -, -, hopened, -⟩ := Token.read_eq_ok_iff.mp hread
    obtain ⟨hsurplus, hunclosed⟩ :=
      depthAfter_zero_iff.mp (Reading.foldlM_enclose_nil_iff.mp hopened)
    exact ⟨fun i hi => by simpa [hunclosed] using mem_unclosed.mpr hi, not_unopened hsurplus⟩
  · intro offset hread
    obtain ⟨front, back, rfl, hdepth⟩ := Reading.exists_of_unmatchedClosing hread
    rw [List.map_append, List.map_cons]
    obtain ⟨hunopened, hfirst⟩ := unopened_append hdepth (back.map Placed.item)
    rw [List.length_map] at hunopened hfirst
    exact ⟨front.length, by simp, hunopened, hfirst⟩
  · intro offset hread
    obtain ⟨hrow, state, outer, hrun, hopened⟩ := Reading.exists_of_unclosedOpening hread
    refine ⟨not_unopened (Reading.surplus_eq_zero hrun), ?_, unclosed (row.map Placed.item),
      pairwise_unclosed _, fun i => mem_unclosed, ?_⟩
    · obtain ⟨i, hi, hat⟩ := Reading.exists_of_getElem?_opened hrun
        (show state.opened[0]? = some offset by rw [hopened]; rfl)
      refine ⟨i, hat, mem_unclosed.mp (List.mem_of_getElem? hi), fun i' hi' => ?_⟩
      exact le_of_mem_unclosed hi (mem_unclosed.mpr hi')
    · intro closers hclosers
      rw [← Reading.length_opened hrun]
      refine ⟨Reading.read_append_closings hrow hrun hclosers, ?_, ?_⟩
      · intro hfewer
        have hopen := List.getElem?_eq_getElem hfewer
        obtain ⟨i, hi, hat⟩ := Reading.exists_of_getElem?_opened hrun hopen
        rw [← Reading.length_opened hrun] at hi
        exact ⟨i, _, hi, hat, Reading.read_append_fewer hrow hrun hclosers hopen⟩
      · intro hlength last hlast
        exact Reading.read_append_more hrow hrun hclosers hlength hlast

/-- Both parentheses of `((1+2` are unclosed.  Two closing ones behind it make it an accepted row,
and a third is one too many.  The one in `1)` closes nothing. -/
theorem Token.read_parentheses_two_open :
    (∃ indices : List Nat, indices.length = 2 ∧
      (∀ i, i ∈ indices ↔ Unclosed ((Lexeme.scan "((1+2").map Placed.item) i) ∧
      (∃ tokens, Token.read (Lexeme.scan "((1+2" ++ [⟨.closing, 7⟩, ⟨.closing, 7⟩]) = .ok tokens) ∧
      Token.read (Lexeme.scan "((1+2" ++ [⟨.closing, 7⟩, ⟨.closing, 7⟩] ++ [⟨.closing, 9⟩])
        = .error (.unmatchedClosing 9)) ∧
    ∃ j, (Lexeme.scan "1)")[j]? = some ⟨.closing, 1⟩ ∧
      Unopened ((Lexeme.scan "1)").map Placed.item) j := by
  constructor
  · have hscan : (Lexeme.scan "((1+2").map Placed.item
        = [.opening, .opening, .number "1", .operator .add, .number "2"] := by decide +kernel
    have hread : Token.read (Lexeme.scan "((1+2") = .error (.unclosedOpening 1) := by
      decide +kernel
    obtain ⟨-, -, -, hopen⟩ := Token.read_parentheses (Lexeme.scan "((1+2")
    obtain ⟨-, -, indices, hsorted, hmem, hclosers⟩ := hopen 1 hread
    have hperm : indices.Perm [0, 1] := by
      refine (List.perm_ext_iff_of_nodup (hsorted.imp Nat.ne_of_lt) (by decide)).mpr fun i => ?_
      rw [hmem, ← mem_unclosed, hscan]
      rfl
    have htwo : indices.length = 2 := hperm.length_eq
    obtain ⟨haccepted, -, hmore⟩ := hclosers [⟨.closing, 7⟩, ⟨.closing, 7⟩] (by simp)
    exact ⟨indices, htwo, hmem, haccepted htwo.symm, hmore htwo.symm ⟨.closing, 9⟩ rfl⟩
  · obtain ⟨-, -, hunopened, -⟩ := Token.read_parentheses (Lexeme.scan "1)")
    obtain ⟨j, hj, hnone, -⟩ := hunopened 1 (by decide +kernel)
    exact ⟨j, hj, hnone⟩

end Reckoner
