/-
# Expressions are told by neighbours and parentheses

The grammar builds an expression as a tree.  Whoever goes through a row from left to right sees
only which symbols stand side by side and how many parentheses are open.  The two agree
(`derives_iff_linked`): a row of meaningful symbols is an expression exactly when all neighbours
fit, the row may begin and end as it does, and every parenthesis is opened and closed.

* **From the tree to the row** the proof follows the derivation.  What stands in front of a phrase
  and behind it is left open, so each phrase only has to fit into its surroundings
  (`Derives.linked`).
* **From the row to the tree** the derivation is built while the row is read.  A row that has been
  read is described by what it still waits for (`Behind`), never by its own shape: behind an
  operator any term makes it complete, behind a negation any atom does.

Both grammars are covered, the one that lets a product be understood and the one that does not.
-/
import Reckoner.Grammar

namespace Reckoner

namespace Symbol

variable {α : Type}

/-! ## 1. Rows of meaningful symbols -/

/-- A character without a meaning. -/
def isUnknown : Symbol α → Bool
  | .unknown _ => true
  | _ => false

/-- Whether this is a number. -/
def isNumber : Symbol α → Bool
  | .number _ => true
  | _ => false

/-- A row in which everything has a meaning. -/
def Plain (row : List (Symbol α)) : Prop := ∀ symbol ∈ row, symbol.isUnknown = false

@[simp] theorem plain_nil : Plain ([] : List (Symbol α)) := by simp [Plain]

@[simp] theorem plain_cons {here : Symbol α} {row : List (Symbol α)} :
    Plain (here :: row) ↔ here.isUnknown = false ∧ Plain row := by
  simp [Plain]

@[simp] theorem plain_append {front row : List (Symbol α)} :
    Plain (front ++ row) ↔ Plain front ∧ Plain row := by
  simp [Plain, or_imp, forall_and]

/-! ## 2. Neighbours -/

/-- Whether `next` may stand right behind `here`.  Unless `loose`, products have to be written. -/
def joins (loose : Bool) : Symbol α → Symbol α → Bool
  | .number _, .opening | .closing, .opening => loose
  | here, next => here.admits next

/-- Whether a row may go on with `here` behind `last?`, which is nothing at its beginning. -/
def follows (loose : Bool) (last? : Option (Symbol α)) (here : Symbol α) : Bool :=
  match last? with
  | none => !here.needsLeft
  | some last => last.joins loose here

/-- Whether a row may end behind `last?`.  Nothing at all is no row. -/
def mayEnd : Option (Symbol α) → Bool
  | none => false
  | some last => !last.needsRight

/-- Every symbol of the row fits to the one in front of it, `last?` for the first, and the row may
end where it does. -/
def Linked (loose : Bool) : Option (Symbol α) → List (Symbol α) → Prop
  | last?, [] => mayEnd last?
  | last?, here :: row => follows loose last? here ∧ Linked loose (some here) row

/-- Whether an operand with its sign is due behind `last?`. -/
def awaitsTerm : Option (Symbol α) → Bool
  | none | some .opening | some (.operator _) => true
  | _ => false

/-- Whether an operand without a sign may stand behind `last?`. -/
def awaitsAtom : Option (Symbol α) → Bool
  | some .negation => true
  | last? => awaitsTerm last?

/-! ## 3. Open parentheses -/

/-- How many parentheses are open behind a symbol.  One that is not open cannot be closed. -/
def deepen : Nat → Symbol α → Option Nat
  | depth, .opening => some (depth + 1)
  | 0, .closing => none
  | depth + 1, .closing => some depth
  | depth, _ => some depth

/-- How many parentheses are open behind a row, if it closes none too many. -/
def depthAfter (depth : Nat) (row : List (Symbol α)) : Option Nat := row.foldlM deepen depth

@[simp] theorem depthAfter_nil (depth : Nat) :
    depthAfter depth ([] : List (Symbol α)) = some depth := rfl

@[simp] theorem depthAfter_cons (depth : Nat) (here : Symbol α) (row : List (Symbol α)) :
    depthAfter depth (here :: row) = (deepen depth here).bind (depthAfter · row) := by
  simp only [depthAfter, List.foldlM_cons]
  rfl

theorem depthAfter_append (depth : Nat) (front row : List (Symbol α)) :
    depthAfter depth (front ++ row) = (depthAfter depth front).bind (depthAfter · row) := by
  simp only [depthAfter, List.foldlM_append]
  rfl

end Symbol

/-! ## 4. From the tree to the row -/

namespace Symbol

variable {α : Type} {loose : Bool} {last? : Option (Symbol α)} {last here : Symbol α}

theorem awaitsAtom_of_awaitsTerm (h : awaitsTerm last?) : awaitsAtom last? := by
  unfold awaitsAtom
  split
  · rfl
  · exact h

theorem follows_of_awaitsAtom (h : awaitsAtom last?) (hs : here.startsAtom) :
    follows loose last? here := by
  rcases last? with _ | last
  · cases here <;> simp_all [follows, needsLeft, startsAtom]
  · cases last <;> cases here <;>
      simp_all [follows, joins, admits, awaitsAtom, awaitsTerm, startsAtom, startsOperand]

theorem follows_negation (h : awaitsTerm last?) : follows loose last? (.negation : Symbol α) := by
  rcases last? with _ | last
  · rfl
  · cases last <;> simp_all [follows, joins, admits, awaitsTerm, startsOperand]

theorem joins_operator (h : last.endsOperand) (op : Operator) :
    last.joins loose (.operator op) := by
  cases last <;> simp_all [joins, admits, endsOperand, followsOperand]

theorem joins_closing (h : last.endsOperand) : last.joins loose .closing := by
  cases last <;> simp_all [joins, admits, endsOperand, followsOperand]

theorem joins_opening (h : last.endsOperand) : last.joins loose .opening = loose := by
  cases last <;> simp_all [joins, endsOperand]

theorem mayEnd_operand (h : last.endsOperand) : mayEnd (some last) := by
  cases last <;> simp_all [mayEnd, needsRight, endsOperand]

end Symbol

/-- Whether a phrase of a kind may stand behind `last?`: a sign only where a term is due. -/
def Phrase.fitsBehind {α : Type} : Phrase → Option (Symbol α) → Bool
  | .atom => Symbol.awaitsAtom
  | .term | .expression => Symbol.awaitsTerm

namespace Derives

open Reckoner.Symbol

variable {α : Type} {loose : Bool} {phrase : Phrase} {row : List (Symbol α)}

theorem isPlain (h : Derives loose phrase row) : Plain row := by
  induction h with
  | number value => simp [isUnknown]
  | parentheses _ ih => simp [isUnknown, ih]
  | plain _ ih => exact ih
  | negated _ ih => simp [isUnknown, ih]
  | single _ ih => exact ih
  | joined op _ _ ihl ihr => simp [isUnknown, ihl, ihr]
  | unwritten _ _ _ ihl ihi => simp [isUnknown, ihl, ihi]

theorem depthAfter_eq (h : Derives loose phrase row) (depth : Nat) :
    depthAfter depth row = some depth := by
  induction h generalizing depth with
  | number value => rfl
  | parentheses _ ih => simp [depthAfter_append, deepen, ih]
  | plain _ ih => exact ih depth
  | negated _ ih => simp [deepen, ih]
  | single _ ih => exact ih depth
  | joined op _ _ ihl ihr => simp [depthAfter_append, deepen, ihl, ihr]
  | unwritten _ _ _ ihl ihi => simp [depthAfter_append, deepen, ihl, ihi]

/-- **A phrase fits into its surroundings.**  It may stand wherever its kind is due, in front of
all that may follow an operand. -/
theorem linked (h : Derives loose phrase row) {last? : Option (Symbol α)} {rest : List (Symbol α)}
    (hlast : phrase.fitsBehind last?)
    (hrest : ∀ last : Symbol α, last.endsOperand → Linked loose (some last) rest) :
    Linked loose last? (row ++ rest) := by
  induction h generalizing last? rest with
  | number value => exact ⟨follows_of_awaitsAtom hlast rfl, hrest _ rfl⟩
  | @parentheses inner _ ih =>
    have hinner : Linked loose (some .opening) (inner ++ .closing :: rest) :=
      ih rfl fun last hl => ⟨joins_closing hl, hrest _ rfl⟩
    simpa using ⟨follows_of_awaitsAtom hlast rfl, hinner⟩
  | plain _ ih => exact ih (awaitsAtom_of_awaitsTerm hlast) hrest
  | negated _ ih => exact ⟨follows_negation hlast, ih rfl hrest⟩
  | single _ ih => exact ih hlast hrest
  | @joined left right op _ _ ihl ihr =>
    have hright : Linked loose (some (.operator op)) (right ++ rest) := ihr rfl hrest
    have hleft : Linked loose last? (left ++ .operator op :: (right ++ rest)) :=
      ihl hlast fun last hl => ⟨joins_operator hl op, hright⟩
    simpa using hleft
  | @unwritten left inner hloose _ _ ihl ihi =>
    have hinner : Linked loose (some .opening) (inner ++ .closing :: rest) :=
      ihi rfl fun last hl => ⟨joins_closing hl, hrest _ rfl⟩
    have hleft : Linked loose last? (left ++ .opening :: (inner ++ .closing :: rest)) :=
      ihl hlast fun last hl => ⟨(joins_opening hl).trans hloose, hinner⟩
    simpa using hleft

end Derives

/-! ## 5. From the row to the tree -/

section Behind

open Reckoner.Symbol

variable {α : Type} {loose : Bool} {depth : Nat} {front row : List (Symbol α)}

/-- The row is an expression at every level: an expression inside each parenthesis still open, and
closing that parenthesis makes the rest of the row complete again. -/
def Complete (loose : Bool) : Nat → List (Symbol α) → Prop
  | 0, row => Derives loose .expression row
  | depth + 1, row => ∃ outer inner, row = outer ++ .opening :: inner ∧
      Derives loose .expression inner ∧
      ∀ block, Derives loose .expression block →
        Complete loose depth (outer ++ .opening :: block ++ [.closing])

/-- The row is complete as soon as a phrase of this kind is put behind it. -/
def Awaits (loose : Bool) (phrase : Phrase) (depth : Nat) (row : List (Symbol α)) : Prop :=
  ∀ next, Derives loose phrase next → Complete loose depth (row ++ next)

/-- What a row that ends with `last?` waits for. -/
def Behind (loose : Bool) (last? : Option (Symbol α)) (depth : Nat) (row : List (Symbol α)) :
    Prop :=
  match last? with
  | none | some .opening | some (.operator _) => Awaits loose .term depth row
  | some .negation => Awaits loose .atom depth row
  | some (.number _) | some .closing => Complete loose depth row
  | some (.unknown _) => False

theorem awaits_term_nil : Awaits loose .term 0 ([] : List (Symbol α)) := fun _ h => .single h

theorem Awaits.atom (h : Awaits loose .term depth front) : Awaits loose .atom depth front :=
  fun next hn => h next (.plain hn)

theorem Awaits.negation (h : Awaits loose .term depth front) :
    Awaits loose .atom depth (front ++ [.negation]) := fun next hn => by
  simpa using h (.negation :: next) (.negated hn)

theorem Complete.operator (h : Complete loose depth front) (op : Operator) :
    Awaits loose .term depth (front ++ [.operator op]) := by
  intro next hn
  rw [List.append_assoc, List.singleton_append]
  cases depth with
  | zero => exact .joined op h hn
  | succ depth =>
    obtain ⟨outer, inner, rfl, hi, ho⟩ := h
    exact ⟨outer, inner ++ .operator op :: next, by simp, .joined op hi hn, ho⟩

/-- A block in parentheses makes a row that waits for an atom complete again. -/
theorem Awaits.block (h : Awaits loose .atom depth front) (hb : Derives loose .expression row) :
    Complete loose depth (front ++ .opening :: row ++ [.closing]) := by
  simpa using h _ (.parentheses hb)

/-- Where products may be understood, so does a block behind a complete row. -/
theorem Complete.block (h : Complete true depth front) (hb : Derives true .expression row) :
    Complete true depth (front ++ .opening :: row ++ [.closing]) := by
  cases depth with
  | zero => exact .unwritten rfl h hb
  | succ depth =>
    obtain ⟨outer, inner, rfl, hi, ho⟩ := h
    exact ⟨outer, inner ++ .opening :: row ++ [.closing], by simp, .unwritten rfl hi hb, ho⟩

theorem awaits_opening (h : ∀ block, Derives loose .expression block →
      Complete loose depth (front ++ .opening :: block ++ [.closing])) :
    Awaits loose .term (depth + 1) (front ++ [.opening]) := fun next hn =>
  ⟨front, next, by simp, .single hn, h⟩

theorem Complete.closing (h : Complete loose (depth + 1) front) :
    Complete loose depth (front ++ [.closing]) := by
  obtain ⟨outer, inner, rfl, hi, ho⟩ := h
  exact ho inner hi

theorem Behind.awaits_term {last? : Option (Symbol α)} (h : Behind loose last? depth front)
    (hl : awaitsTerm last?) : Awaits loose .term depth front := by
  rcases last? with _ | last
  · exact h
  · cases last <;> first | exact h | simp [awaitsTerm] at hl

theorem Behind.awaits_atom {last? : Option (Symbol α)} (h : Behind loose last? depth front)
    (hl : awaitsAtom last?) : Awaits loose .atom depth front := by
  rcases last? with _ | last
  · exact Awaits.atom h
  · cases last <;> first | exact h | exact Awaits.atom h | simp [awaitsAtom, awaitsTerm] at hl

theorem Behind.complete {last : Symbol α} (h : Behind loose (some last) depth front)
    (hl : last.endsOperand) : Complete loose depth front := by
  cases last <;> first | exact h | simp [endsOperand] at hl

/-- An operator or a closing parenthesis stands right behind an operand. -/
theorem Behind.endsOperand {last? : Option (Symbol α)} {here : Symbol α}
    (h : Behind loose last? depth front) (hfollows : follows loose last? here)
    (hneeds : here.needsLeft) : ∃ last, last? = some last ∧ last.endsOperand := by
  rcases last? with _ | last
  · simp [follows, hneeds] at hfollows
  · refine ⟨last, rfl, ?_⟩
    cases last <;> cases here <;>
      simp_all [Behind, follows, joins, admits, needsLeft, Symbol.endsOperand, startsOperand,
        startsAtom]

/-- A block may stand where an atom may, and where products are understood behind an operand. -/
theorem Behind.block {last? : Option (Symbol α)} (h : Behind loose last? depth front)
    (hfollows : follows loose last? .opening) (hb : Derives loose .expression row) :
    Complete loose depth (front ++ .opening :: row ++ [.closing]) := by
  by_cases hl : awaitsAtom last?
  · exact (h.awaits_atom hl).block hb
  · rcases last? with _ | last
    · simp [awaitsAtom, awaitsTerm] at hl
    · have hends : last.endsOperand := by
        cases last <;> simp_all [Behind, awaitsAtom, awaitsTerm, Symbol.endsOperand]
      obtain rfl : loose = true := (joins_opening hends).symm.trans hfollows
      exact (h.complete hends).block hb

/-- **One symbol further.**  What a row waits for decides which symbols may come next, and the
longer row waits for what its new last symbol says. -/
theorem Behind.step {last? : Option (Symbol α)} {here : Symbol α} {deeper : Nat}
    (h : Behind loose last? depth front) (hplain : here.isUnknown = false)
    (hfollows : follows loose last? here) (hdepth : deepen depth here = some deeper) :
    Behind loose (some here) deeper (front ++ [here]) := by
  cases here with
  | unknown character => simp [isUnknown] at hplain
  | number value =>
    obtain rfl : depth = deeper := by simpa [deepen] using hdepth
    have hl : awaitsAtom last? := by
      rcases last? with _ | last
      · rfl
      · cases last <;> simp_all [Behind, follows, joins, admits, awaitsAtom, awaitsTerm,
          followsOperand]
    exact h.awaits_atom hl _ (.number value)
  | operator op =>
    obtain rfl : depth = deeper := by simpa [deepen] using hdepth
    obtain ⟨last, rfl, hends⟩ := h.endsOperand hfollows rfl
    exact (h.complete hends).operator op
  | negation =>
    obtain rfl : depth = deeper := by simpa [deepen] using hdepth
    have hl : awaitsTerm last? := by
      rcases last? with _ | last
      · rfl
      · cases last <;> simp_all [Behind, follows, joins, admits, awaitsTerm, followsOperand,
          startsAtom]
    exact (h.awaits_term hl).negation
  | opening =>
    obtain rfl : depth + 1 = deeper := by simpa [deepen] using hdepth
    exact awaits_opening fun block hb => h.block hfollows hb
  | closing =>
    obtain ⟨last, rfl, hends⟩ := h.endsOperand hfollows rfl
    cases depth with
    | zero => simp [deepen] at hdepth
    | succ depth =>
      obtain rfl : depth = deeper := by simpa [deepen] using hdepth
      exact (h.complete hends).closing

/-- A row that goes on as it has to and closes all it opens ends as an expression. -/
theorem Behind.derives {last? : Option (Symbol α)} (h : Behind loose last? depth front)
    (hplain : Plain row) (hlinked : Linked loose last? row)
    (hdepth : depthAfter depth row = some 0) : Derives loose .expression (front ++ row) := by
  induction row generalizing last? depth front with
  | nil =>
    obtain rfl : depth = 0 := by simpa using hdepth
    rcases last? with _ | last
    · simp [Linked, mayEnd] at hlinked
    · rw [List.append_nil]
      cases last <;> first | exact h | exact h.elim | simp [Linked, mayEnd, needsRight] at hlinked
  | cons here row ih =>
    obtain ⟨hhere, hrow⟩ := plain_cons.mp hplain
    obtain ⟨hfollows, hlinked⟩ := hlinked
    rw [depthAfter_cons, Option.bind_eq_some_iff] at hdepth
    obtain ⟨deeper, hd, hdepth⟩ := hdepth
    simpa using ih (h.step hhere hfollows hd) hrow hlinked hdepth

/-- **Expressions by their neighbours.**  A row is an expression exactly when everything in it has
a meaning, all neighbours fit, and what it opens is what it closes. -/
theorem derives_iff_linked :
    Derives loose .expression row ↔
      Plain row ∧ Linked loose none row ∧ depthAfter 0 row = some 0 := by
  constructor
  · intro h
    have hlinked : Linked loose none (row ++ []) := h.linked rfl fun _ hl => mayEnd_operand hl
    exact ⟨h.isPlain, by simpa using hlinked, h.depthAfter_eq 0⟩
  · rintro ⟨hplain, hlinked, hdepth⟩
    have hstart : Behind loose none 0 ([] : List (Symbol α)) := awaits_term_nil
    exact hstart.derives hplain hlinked hdepth

end Behind

end Reckoner
