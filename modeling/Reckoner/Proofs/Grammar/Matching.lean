/-
# Which parentheses belong together

A closing parenthesis closes the nearest open one on its left.  `Symbol.Closes` says it without
going through the row: what stands between the two closes all that it opens, and nothing else.
That the two descriptions agree is `Symbol.closes_iff_nearest`.

A row need not be an expression.  It may leave parentheses open (`Symbol.Unclosed`) and close some
that were never opened (`Symbol.Unopened`).  Seen from outside, it first takes so many open
parentheses away, its *surplus*, and then leaves its own unclosed ones.

* **The unclosed ones** are those with no surplus behind them (`Symbol.mem_unclosed`).
* **The depth** behind a row is what is left of the depth in front of it, and one more for each
  unclosed parenthesis (`Symbol.depthAfter_eq_some_iff`).
-/
import Reckoner.Proofs.Grammar.Neighbours

namespace Reckoner

namespace Symbol

variable {α : Type} {depth deeper i j : Nat} {here : Symbol α}
  {row front back inner : List (Symbol α)}

/-! ## 1. Pairs -/

/-- The parenthesis at index `j` closes the one that is opened at index `i`. -/
def Closes (row : List (Symbol α)) (i j : Nat) : Prop :=
  ∃ front inner back, row = front ++ .opening :: (inner ++ .closing :: back) ∧
    depthAfter 0 inner = some 0 ∧ front.length = i ∧ (front ++ .opening :: inner).length = j

/-- An opening parenthesis that nothing closes. -/
def Unclosed (row : List (Symbol α)) (i : Nat) : Prop :=
  row[i]? = some .opening ∧ ∀ j, ¬Closes row i j

/-- A closing parenthesis that closes nothing. -/
def Unopened (row : List (Symbol α)) (j : Nat) : Prop :=
  row[j]? = some .closing ∧ ∀ i, ¬Closes row i j

/-! ## 2. What a row takes away and what it leaves -/

/-- How many parentheses a row closes that were open in front of it. -/
def surplus : List (Symbol α) → Nat
  | [] => 0
  | .opening :: row => surplus row - 1
  | .closing :: row => surplus row + 1
  | _ :: row => surplus row

/-- The indices of the parentheses that a row leaves open, from left to right. -/
def unclosed : List (Symbol α) → List Nat
  | [] => []
  | .opening :: row =>
    if surplus row = 0 then 0 :: (unclosed row).map (· + 1) else (unclosed row).map (· + 1)
  | _ :: row => (unclosed row).map (· + 1)

@[simp] theorem surplus_nil : surplus ([] : List (Symbol α)) = 0 := rfl

@[simp] theorem unclosed_nil : unclosed ([] : List (Symbol α)) = [] := rfl

@[simp] theorem surplus_opening : surplus (.opening :: row) = surplus row - 1 := rfl

@[simp] theorem surplus_closing : surplus (.closing :: row) = surplus row + 1 := rfl

theorem unclosed_of_ne (h : here ≠ .opening) :
    unclosed (here :: row) = (unclosed row).map (· + 1) := by
  cases here <;> first | contradiction | simp [unclosed]

theorem deepen_of_ne (hopening : here ≠ .opening) (hclosing : here ≠ .closing) (depth : Nat) :
    deepen depth here = some depth := by
  cases here <;> first | contradiction | simp [deepen]

theorem surplus_of_ne (hopening : here ≠ .opening) (hclosing : here ≠ .closing) :
    surplus (here :: row) = surplus row := by
  cases here <;> first | contradiction | simp [surplus]

/-- **The depth behind a row**, and when there is one. -/
theorem depthAfter_eq_some_iff : depthAfter depth row = some deeper ↔
    surplus row ≤ depth ∧ deeper = (depth - surplus row) + (unclosed row).length := by
  induction row generalizing depth with
  | nil => simp [eq_comm]
  | cons here row ih =>
    rw [depthAfter_cons]
    by_cases hopening : here = .opening
    · subst hopening
      rw [deepen, Option.bind_some, ih, surplus_opening, unclosed]
      split <;> simp only [List.length_cons, List.length_map] <;> omega
    by_cases hclosing : here = .closing
    · subst hclosing
      cases depth with
      | zero => simp [deepen]
      | succ depth =>
        rw [deepen, Option.bind_some, ih, surplus_closing, unclosed_of_ne hopening, List.length_map]
        omega
    rw [deepen_of_ne hopening hclosing, Option.bind_some, ih, surplus_of_ne hopening hclosing,
      unclosed_of_ne hopening, List.length_map]

theorem depthAfter_zero_iff : depthAfter 0 row = some 0 ↔ surplus row = 0 ∧ unclosed row = [] := by
  rw [depthAfter_eq_some_iff, ← List.length_eq_zero_iff]
  omega

/-- A row with a surplus closes just what it opens up to the parenthesis that is too many. -/
theorem exists_of_lt_surplus (h : depth < surplus row) :
    ∃ inner back, row = inner ++ .closing :: back ∧ depthAfter depth inner = some 0 := by
  induction row generalizing depth with
  | nil => simp at h
  | cons here row ih =>
    by_cases hopening : here = .opening
    · subst hopening
      rw [surplus_opening] at h
      have hdeeper : depth + 1 < surplus row := by omega
      obtain ⟨inner, back, rfl, hinner⟩ := ih hdeeper
      exact ⟨.opening :: inner, back, rfl, by simpa [deepen] using hinner⟩
    by_cases hclosing : here = .closing
    · subst hclosing
      cases depth with
      | zero => exact ⟨[], row, rfl, rfl⟩
      | succ depth =>
        obtain ⟨inner, back, rfl, hinner⟩ := ih (Nat.lt_of_succ_lt_succ h)
        exact ⟨.closing :: inner, back, rfl, by simpa [deepen] using hinner⟩
    rw [surplus_of_ne hopening hclosing] at h
    obtain ⟨inner, back, rfl, hinner⟩ := ih h
    refine ⟨here :: inner, back, rfl, ?_⟩
    rw [depthAfter_cons, deepen_of_ne hopening hclosing]
    exact hinner

/-! ## 3. Unclosed parentheses -/

/-- A parenthesis is left open where there is no surplus behind it. -/
theorem mem_unclosed_iff :
    i ∈ unclosed row ↔ row[i]? = some .opening ∧ surplus (row.drop (i + 1)) = 0 := by
  induction row generalizing i with
  | nil => simp
  | cons here row ih =>
    by_cases hopening : here = .opening
    · subst hopening
      rw [unclosed]
      cases i <;> split <;> simp_all
    · rw [unclosed_of_ne hopening]
      cases i <;> simp [hopening, ih]

/-- What stands in front of a row makes no difference to its unclosed parentheses. -/
theorem mem_unclosed_append_cons :
    front.length + 1 + i ∈ unclosed (front ++ here :: row) ↔ i ∈ unclosed row := by
  rw [mem_unclosed_iff, mem_unclosed_iff, Nat.add_assoc, Nat.add_assoc,
    List.getElem?_append_right (Nat.le_add_right _ _), Nat.add_sub_cancel_left,
    List.drop_length_add_append]
  simp [Nat.add_comm 1, Nat.add_assoc]

theorem exists_append_of_getElem? {symbol : Symbol α} (h : row[i]? = some symbol) :
    ∃ front back, row = front ++ symbol :: back ∧ front.length = i := by
  obtain ⟨hlt, rfl⟩ := List.getElem?_eq_some_iff.mp h
  refine ⟨row.take i, row.drop (i + 1), ?_, by simp; omega⟩
  rw [← List.drop_eq_getElem_cons, List.take_append_drop]

/-- **The unclosed parentheses** are those that are left open. -/
theorem mem_unclosed : i ∈ unclosed row ↔ Unclosed row i := by
  rw [mem_unclosed_iff]
  refine and_congr_right fun hopening => ?_
  obtain ⟨front, back, rfl, rfl⟩ := exists_append_of_getElem? hopening
  have hback : (front ++ .opening :: back).drop (front.length + 1) = back := by simp
  rw [hback]
  constructor
  · rintro hnone j ⟨front', inner, back', hsplit, hinner, hlength, -⟩
    obtain ⟨rfl, hrest⟩ := List.append_inj hsplit hlength.symm
    obtain rfl : back = inner ++ .closing :: back' := (List.cons.inj hrest).2
    have hdepth := depthAfter_append 0 inner (.closing :: back')
    obtain ⟨deeper, hdeeper⟩ : ∃ deeper, depthAfter 0 (inner ++ .closing :: back') = some deeper :=
      ⟨_, depthAfter_eq_some_iff.mpr ⟨Nat.le_of_eq hnone, rfl⟩⟩
    simp [hinner, deepen, hdeeper] at hdepth
  · intro hnever
    refine Nat.eq_zero_of_not_pos fun hsurplus => ?_
    obtain ⟨inner, back, rfl, hinner⟩ := exists_of_lt_surplus hsurplus
    exact hnever _ ⟨front, inner, back, rfl, hinner, rfl, rfl⟩

theorem pairwise_unclosed (row : List (Symbol α)) : (unclosed row).Pairwise (· < ·) := by
  induction row with
  | nil => exact .nil
  | cons here row ih =>
    have hshifted : ((unclosed row).map (· + 1)).Pairwise (· < ·) :=
      ih.map _ fun _ _ h => Nat.succ_lt_succ h
    by_cases hopening : here = .opening
    · subst hopening
      rw [unclosed]
      split
      · exact List.pairwise_cons.mpr ⟨by simp, hshifted⟩
      · exact hshifted
    · rw [unclosed_of_ne hopening]
      exact hshifted

theorem le_of_mem_unclosed (hi : (unclosed row)[(unclosed row).length - 1]? = some i)
    (hj : j ∈ unclosed row) : j ≤ i := by
  obtain ⟨hlast, rfl⟩ := List.getElem?_eq_some_iff.mp hi
  obtain ⟨place, hplace, rfl⟩ := List.mem_iff_getElem.mp hj
  rcases Nat.eq_or_lt_of_le (Nat.le_sub_one_of_lt hplace) with heq | hlt
  · simp only [heq, Nat.le_refl]
  · exact Nat.le_of_lt (List.pairwise_iff_getElem.mp (pairwise_unclosed row) _ _ hplace hlast hlt)

/-- Behind the last unclosed parenthesis a row closes just what it opens. -/
theorem exists_innermost (h : unclosed row ≠ []) :
    ∃ outer inner, row = outer ++ .opening :: inner ∧ depthAfter 0 inner = some 0 := by
  induction row with
  | nil => exact absurd rfl h
  | cons here row ih =>
    by_cases hrow : unclosed row = []
    · by_cases hopening : here = .opening
      · subst hopening
        have hnone : surplus row = 0 := by
          rw [unclosed, hrow] at h
          simpa using h
        exact ⟨[], row, rfl, depthAfter_zero_iff.mpr ⟨hnone, hrow⟩⟩
      · rw [unclosed_of_ne hopening, hrow] at h
        exact absurd rfl h
    · obtain ⟨outer, inner, rfl, hinner⟩ := ih hrow
      exact ⟨here :: outer, inner, rfl, hinner⟩

/-- **The nearest open one.**  A closing parenthesis closes the last of those that are left open
in front of it. -/
theorem closes_iff_nearest : Closes row i j ↔ row[j]? = some .closing ∧
    Unclosed (row.take j) i ∧ ∀ i', Unclosed (row.take j) i' → i' ≤ i := by
  simp only [← mem_unclosed]
  constructor
  · rintro ⟨front, inner, back, rfl, hinner, rfl, rfl⟩
    obtain ⟨hsurplus, hunclosed⟩ := depthAfter_zero_iff.mp hinner
    have hsplit : front ++ .opening :: (inner ++ .closing :: back)
        = (front ++ .opening :: inner) ++ .closing :: back := by simp
    rw [hsplit, List.take_left]
    refine ⟨by simp, mem_unclosed_iff.mpr ⟨by simp, by simpa using hsurplus⟩, ?_⟩
    intro i' hi'
    -- none behind it is left open
    refine Nat.le_of_not_lt fun hlt => ?_
    obtain ⟨k, rfl⟩ := Nat.exists_eq_add_of_le (Nat.succ_le_of_lt hlt)
    rw [mem_unclosed_append_cons, hunclosed] at hi'
    cases hi'
  · rintro ⟨hclosing, hopen, hlast⟩
    obtain ⟨before, back, rfl, rfl⟩ := exists_append_of_getElem? hclosing
    rw [List.take_left] at hopen hlast
    obtain ⟨hopening, hsurplus⟩ := mem_unclosed_iff.mp hopen
    obtain ⟨front, inner, rfl, rfl⟩ := exists_append_of_getElem? hopening
    have hinner : unclosed inner = [] := by
      refine List.eq_nil_iff_forall_not_mem.mpr fun k hk => ?_
      have hle := hlast _ (mem_unclosed_append_cons.mpr hk)
      omega
    exact ⟨front, inner, back, by simp,
      depthAfter_zero_iff.mpr ⟨by simpa using hsurplus, hinner⟩, rfl, rfl⟩

/-! ## 4. Unopened parentheses -/

theorem Closes.append (h : Closes front i j) (back : List (Symbol α)) :
    Closes (front ++ back) i j := by
  obtain ⟨outer, inner, rest, rfl, hinner, hi, hj⟩ := h
  exact ⟨outer, inner, rest ++ back, by simp, hinner, hi, hj⟩

theorem not_unopened (h : surplus row = 0) (j : Nat) : ¬Unopened row j := by
  rintro ⟨hclosing, hnever⟩
  obtain ⟨before, back, rfl, rfl⟩ := exists_append_of_getElem? hclosing
  have hopen : unclosed before ≠ [] := by
    intro hnone
    have hsplit := depthAfter_append 0 before (.closing :: back)
    have hdepth := depthAfter_eq_some_iff.mpr ⟨Nat.le_of_eq h, rfl⟩
    rw [hdepth] at hsplit
    obtain ⟨deeper, hbefore, hclosed⟩ := Option.bind_eq_some_iff.mp hsplit.symm
    obtain ⟨-, hdeeper⟩ := depthAfter_eq_some_iff.mp hbefore
    obtain rfl : deeper = 0 := by simpa [hnone] using hdeeper
    simp [deepen] at hclosed
  obtain ⟨outer, inner, rfl, hinner⟩ := exists_innermost hopen
  exact hnever _ ⟨outer, inner, back, by simp, hinner, rfl, rfl⟩

/-- **The first unopened parenthesis** stands behind a row that closes just what it opens. -/
theorem unopened_append (h : depthAfter 0 front = some 0) (back : List (Symbol α)) :
    Unopened (front ++ .closing :: back) front.length ∧
      ∀ j, Unopened (front ++ .closing :: back) j → front.length ≤ j := by
  obtain ⟨hsurplus, hunclosed⟩ := depthAfter_zero_iff.mp h
  constructor
  · refine ⟨by simp, fun i hcloses => ?_⟩
    have hopen := (closes_iff_nearest.mp hcloses).2.1
    rw [List.take_left, ← mem_unclosed, hunclosed] at hopen
    cases hopen
  · intro j hj
    refine Nat.le_of_not_lt fun hlt => ?_
    have hclosing : front[j]? = some .closing := by
      rw [← hj.1, List.getElem?_append_left hlt]
    exact not_unopened hsurplus j ⟨hclosing, fun i hi => hj.2 i (hi.append _)⟩

/-- **A row closes just what it opens** when each of its parentheses has a partner. -/
theorem depthAfter_zero_iff_matched : depthAfter 0 row = some 0 ↔
    (∀ i, ¬Unclosed row i) ∧ ∀ j, ¬Unopened row j := by
  constructor
  · intro h
    obtain ⟨hsurplus, hunclosed⟩ := depthAfter_zero_iff.mp h
    refine ⟨fun i hopen => ?_, not_unopened hsurplus⟩
    rw [← mem_unclosed, hunclosed] at hopen
    cases hopen
  · rintro ⟨hclosed, hopened⟩
    refine depthAfter_zero_iff.mpr ⟨Nat.eq_zero_of_not_pos fun hsurplus => ?_, ?_⟩
    · obtain ⟨inner, back, rfl, hinner⟩ := exists_of_lt_surplus hsurplus
      exact hopened _ (unopened_append hinner back).1
    · exact List.eq_nil_iff_forall_not_mem.mpr fun i hi => hclosed i (mem_unclosed.mp hi)

end Symbol

end Reckoner
