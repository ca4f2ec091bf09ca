/-
# Lines and their rows of lexemes

Scanning loses nothing and adds nothing.  A line is put together again by writing the texts of its
lexemes side by side (`Lexeme.lineOf`), and the rows that lines are scanned into are told without
any scanning (`Lexeme.IsScanned`):

* **each lexeme** is one that a run of characters can stand for: a number is written with digits
  and points, and a character without a meaning is none of those and no glyph;
* **no number stands beside a number**, for their digits would have made one run;
* **offsets** count the bytes of the texts in front.

Lines and such rows correspond one to one (`Lexeme.scan_bijective`).  The way from a row to its
line and back goes through the runs of characters: `List.splitBy` cuts a line into the only runs
whose characters are joined inside and apart between.
-/
import Reckoner.Proofs.Lexeme.Boundaries
import Reckoner.Proofs.Grammar.Neighbours

namespace Reckoner

namespace Lexeme

/-! ## 1. Rows that are scanned -/

/-- The characters that stand for something outside of numbers. -/
def glyphs : List Char := Operator.all.map Operator.glyph ++ ['-', '(', ')']

/-- Whether some run of characters stands for a lexeme. -/
def WellFormed : Lexeme → Prop
  | .number text => text ≠ "" ∧ ∀ character ∈ text.toList, isNumeral character
  | .unknown character => isNumeral character = false ∧ character ∉ glyphs
  | .operator _ | .negation | .opening | .closing => True

/-- The line that a row of lexemes is written in. -/
def lineOf (row : List (Placed Lexeme)) : String :=
  String.join (row.map fun placed => placed.item.text)

/-- The rows that lines are scanned into.  Some run of characters stands for each lexeme, no number
stands beside a number, and a lexeme begins where the texts in front of it end. -/
structure IsScanned (row : List (Placed Lexeme)) : Prop where
  wellFormed : ∀ placed ∈ row, placed.item.WellFormed
  apart : (row.map Placed.item).IsChain fun here next => ¬(here.isNumber ∧ next.isNumber)
  offsets : ∀ front here back, row = front ++ here :: back →
    here.offset = (front.map fun placed => placed.item.text.utf8ByteSize).sum

/-! ## 2. One lexeme and its run -/

section Runs

variable {lexeme here next : Lexeme} {run : List Char}

theorem WellFormed.isNumeral_eq (h : lexeme.WellFormed) :
    ∀ character ∈ lexeme.text.toList, isNumeral character = lexeme.isNumber := by
  cases lexeme with
  | number text => exact h.2
  | unknown character =>
    intro other hmem
    obtain rfl : other = character := by simpa [text, Symbol.text] using hmem
    exact h.1
  | operator op =>
    intro other hmem
    obtain rfl : other = op.glyph := by simpa [text, Symbol.text] using hmem
    cases op <;> rfl
  | negation | opening | closing =>
    intro other hmem
    simp only [text, Symbol.text] at hmem
    obtain rfl := List.mem_singleton.mp hmem
    rfl

theorem WellFormed.toList_text_ne_nil (h : lexeme.WellFormed) : lexeme.text.toList ≠ [] := by
  cases lexeme with
  | number text => simpa [Lexeme.text, Symbol.text] using h.1
  | _ => simp [text, Symbol.text]

theorem WellFormed.isChain_text (h : lexeme.WellFormed) :
    lexeme.text.toList.IsChain fun left right => joined left right := by
  cases lexeme with
  | number text =>
    have hjoined : ∀ left ∈ text.toList, ∀ right ∈ text.toList, joined left right := by
      intro left hleft right hright
      rw [joined, h.2 left hleft, h.2 right hright, Bool.and_true]
    exact (List.pairwise_of_forall_mem_list hjoined).isChain
  | _ => simp [text, Symbol.text]

/-- The last character of a lexeme and the first of the next belong together when both lexemes
are numbers. -/
theorem WellFormed.joined_eq (hhere : here.WellFormed) (hnext : next.WellFormed) {left right : Char}
    (hleft : left ∈ here.text.toList) (hright : right ∈ next.text.toList) :
    joined left right = (here.isNumber && next.isNumber) := by
  rw [joined, hhere.isNumeral_eq left hleft, hnext.isNumeral_eq right hright]

theorem ofGlyph_of_notMem {character : Char} (h : character ∉ glyphs) :
    (.ofGlyph character : Lexeme) = .unknown character := by
  unfold Symbol.ofGlyph
  split <;> first | rfl | exact absurd (by decide) h

theorem wellFormed_ofGlyph {character : Char} (h : isNumeral character = false) :
    WellFormed (.ofGlyph character) := by
  by_cases hglyph : character ∈ glyphs
  · simp only [glyphs, Operator.all, Operator.glyph, List.map_cons, List.map_nil, List.cons_append,
      List.nil_append, List.mem_cons, List.not_mem_nil, or_false] at hglyph
    rcases hglyph with rfl | rfl | rfl | rfl | rfl | rfl | rfl | rfl <;> trivial
  · rw [ofGlyph_of_notMem hglyph]
    exact ⟨h, hglyph⟩

/-- A lexeme is the one that its own characters stand for. -/
theorem WellFormed.ofRun_text (h : lexeme.WellFormed) : ofRun lexeme.text.toList = lexeme := by
  cases lexeme with
  | number text =>
    obtain ⟨hne, hnumeral⟩ := h
    show ofRun text.toList = .number text
    rcases hrun : text.toList with _ | ⟨character, _ | ⟨next, rest⟩⟩
    · simp [hne] at hrun
    · have hcharacter : isNumeral character := hnumeral character (by simp [hrun])
      rw [ofRun, if_pos hcharacter, ← hrun, String.ofList_toList]
    · rw [ofRun, ← hrun, String.ofList_toList]
      simp
  | unknown character =>
    obtain ⟨hnumeral, hglyph⟩ := h
    have hrun : (text (.unknown character)).toList = [character] := by simp [text, Symbol.text]
    rw [hrun, ofRun, hnumeral]
    exact ofGlyph_of_notMem hglyph
  | operator op => cases op <;> rfl
  | negation | opening | closing => rfl

/-- Of two characters or more that belong together each is a digit or a point. -/
theorem isNumeral_of_isChain {first second : Char} {rest : List Char}
    (h : (first :: second :: rest).IsChain fun left right => joined left right) :
    ∀ character ∈ first :: second :: rest, isNumeral character := by
  have hboth : ∀ {left right}, joined left right → isNumeral left ∧ isNumeral right := by
    simp [joined]
  have hrest : ∀ character ∈ second :: rest, isNumeral character :=
    h.cons_induction (isNumeral ·) _ (fun _ _ hjoined _ => (hboth hjoined).2) (hboth h.rel).1
  exact List.forall_mem_cons.mpr ⟨(hboth h.rel).1, hrest⟩

theorem wellFormed_ofRun (hne : run ≠ [])
    (hrun : run.IsChain fun left right => joined left right) : (ofRun run).WellFormed := by
  rcases run with _ | ⟨character, _ | ⟨next, rest⟩⟩
  · exact absurd rfl hne
  · cases hnumeral : isNumeral character with
    | true =>
      rw [ofRun, if_pos hnumeral]
      exact ⟨by simp, by simpa using hnumeral⟩
    | false =>
      rw [ofRun, hnumeral]
      exact wellFormed_ofGlyph hnumeral
  · exact ⟨by simp, by simpa using isNumeral_of_isChain hrun⟩

end Runs

/-! ## 3. Offsets -/

variable {here next : Placed Lexeme} {row front back : List (Placed Lexeme)}

theorem placeFrom_eq_iff {offset : Nat} :
    placeFrom offset (row.map Placed.item) = row ↔
      ∀ front here back, row = front ++ here :: back →
        here.offset = offset + (front.map fun placed => placed.item.text.utf8ByteSize).sum := by
  induction row generalizing offset with
  | nil => simp [placeFrom_nil]
  | cons here row ih =>
    rw [List.map_cons, placeFrom_cons, List.cons.injEq, ih]
    constructor
    · rintro ⟨hhere, hrow⟩ front placed back hsplit
      rcases front with _ | ⟨first, front⟩
      · obtain ⟨rfl, -⟩ := List.cons.inj hsplit
        exact (congrArg Placed.offset hhere).symm
      · obtain ⟨rfl, hfront⟩ := List.cons.inj hsplit
        have hplaced := hrow front placed back hfront
        rw [List.map_cons, List.sum_cons, hplaced, size, Nat.add_assoc]
    · intro h
      refine ⟨?_, ?_⟩
      · have hhere : here.offset = offset := by simpa using h [] here row rfl
        rw [← hhere]
      · intro front placed back hsplit
        have hplaced := h (here :: front) placed back (by rw [hsplit]; rfl)
        rw [hplaced, List.map_cons, List.sum_cons, size, Nat.add_assoc]

theorem offset_eq_of_placeFrom (h : placeFrom 0 (row.map Placed.item) = row) :
    ∀ front here back, row = front ++ here :: back →
      here.offset = (front.map fun placed => placed.item.text.utf8ByteSize).sum := by
  simpa using placeFrom_eq_iff.mp h

/-! ## 4. Lines and rows -/

/-- The runs of characters that the lexemes of a row are written with. -/
def runsOf (row : List (Placed Lexeme)) : List (List Char) :=
  row.map fun placed => placed.item.text.toList

/-- The line of a row depends on its lexemes alone. -/
theorem lineOf_eq_join (row : List (Placed Lexeme)) :
    lineOf row = String.join ((row.map Placed.item).map text) := by
  rw [List.map_map]
  rfl

theorem toList_lineOf (row : List (Placed Lexeme)) :
    (lineOf row).toList = (runsOf row).flatten := by
  simp [lineOf, runsOf, List.flatMap_def, Function.comp_def]

/-- The line of a row is cut into the runs of its lexemes. -/
theorem IsScanned.splitBy_lineOf (h : IsScanned row) :
    (lineOf row).toList.splitBy joined = runsOf row := by
  rw [toList_lineOf]
  refine List.splitBy_flatten ?_ ?_ ?_
  · intro hmem
    obtain ⟨placed, hplaced, hnil⟩ := List.mem_map.mp hmem
    exact (h.wellFormed placed hplaced).toList_text_ne_nil hnil
  · intro run hmem
    obtain ⟨placed, hplaced, rfl⟩ := List.mem_map.mp hmem
    exact (h.wellFormed placed hplaced).isChain_text
  · rw [runsOf, List.isChain_map]
    have hapart : row.IsChain fun here next => ¬(here.item.isNumber ∧ next.item.isNumber) :=
      (List.isChain_map Placed.item).mp h.apart
    refine hapart.imp_of_mem_imp fun here next hhere hnext hnot => ?_
    have hwf := h.wellFormed here hhere
    have hwf' := h.wellFormed next hnext
    refine ⟨hwf.toList_text_ne_nil, hwf'.toList_text_ne_nil, ?_⟩
    rw [hwf.joined_eq hwf' (List.getLast_mem _) (List.head_mem _)]
    simpa using hnot

/-- **From a row to its line and back.** -/
theorem IsScanned.scan_lineOf (h : IsScanned row) : scan (lineOf row) = row := by
  have hrow : (runsOf row).map ofRun = row.map Placed.item := by
    rw [runsOf, List.map_map]
    exact List.map_congr_left fun placed hplaced => (h.wellFormed placed hplaced).ofRun_text
  rw [scan, h.splitBy_lineOf, hrow, placeFrom_eq_iff]
  simpa using h.offsets

theorem items_placeFrom (offset : Nat) (lexemes : List Lexeme) :
    (placeFrom offset lexemes).map Placed.item = lexemes := by
  induction lexemes generalizing offset with
  | nil => rfl
  | cons lexeme lexemes ih => rw [placeFrom_cons, List.map_cons, ih]

theorem items_scan (line : String) :
    (scan line).map Placed.item = (line.toList.splitBy joined).map ofRun :=
  items_placeFrom 0 _

theorem runsOf_scan (line : String) : runsOf (scan line) = line.toList.splitBy joined := by
  have hruns : runsOf (scan line)
      = ((scan line).map Placed.item).map fun lexeme => lexeme.text.toList := by
    simp [runsOf, Function.comp_def]
  rw [hruns, items_scan, List.map_map]
  simp [Function.comp_def, text_ofRun]

/-- **From a line to its row and back.** -/
theorem lineOf_scan (line : String) : lineOf (scan line) = line := by
  rw [← String.toList_inj, toList_lineOf, runsOf_scan, List.flatten_splitBy]

theorem isScanned_scan (line : String) : IsScanned (scan line) where
  wellFormed := by
    intro placed hplaced
    have hitem : placed.item ∈ (line.toList.splitBy joined).map ofRun := by
      rw [← items_scan]
      exact List.mem_map_of_mem hplaced
    obtain ⟨run, hrun, hitem⟩ := List.mem_map.mp hitem
    rw [← hitem]
    exact wellFormed_ofRun (List.ne_nil_of_mem_splitBy hrun) (List.isChain_of_mem_splitBy hrun)
  apart := by
    have hlast := List.isChain_getLast_head_splitBy joined line.toList
    rw [items_scan, List.isChain_map]
    refine hlast.imp_of_mem_imp fun run run' hrun hrun' hnot => ?_
    obtain ⟨hne, hne', hjoined⟩ := hnot
    have hwf := wellFormed_ofRun hne (List.isChain_of_mem_splitBy hrun)
    have hwf' := wellFormed_ofRun hne' (List.isChain_of_mem_splitBy hrun')
    have hnumbers := hwf.joined_eq hwf'
      (show run.getLast hne ∈ (ofRun run).text.toList by simp [text_ofRun])
      (show run'.head hne' ∈ (ofRun run').text.toList by simp [text_ofRun])
    rw [hjoined] at hnumbers
    simpa using hnumbers.symm
  offsets := by
    refine offset_eq_of_placeFrom ?_
    rw [items_scan]
    rfl

/-! ## 5. Where a lexeme stands -/

theorem lineOf_cons (here : Placed Lexeme) (row : List (Placed Lexeme)) :
    lineOf (here :: row) = here.item.text ++ lineOf row := by
  simp [lineOf]

theorem lineOf_append (front row : List (Placed Lexeme)) :
    lineOf (front ++ row) = lineOf front ++ lineOf row := by
  simp [lineOf]

theorem utf8ByteSize_lineOf (row : List (Placed Lexeme)) :
    (lineOf row).utf8ByteSize = (row.map fun placed => placed.item.text.utf8ByteSize).sum := by
  induction row with
  | nil => rfl
  | cons here row ih =>
    rw [lineOf_cons, String.utf8ByteSize_append, ih, List.map_cons, List.sum_cons]

/-- The text of a lexeme stands at its offset in the line. -/
theorem line_eq_of_scan {line : String} (h : scan line = front ++ here :: back) :
    line = lineOf front ++ here.item.text ++ lineOf back ∧
      (lineOf front).utf8ByteSize = here.offset := by
  have hline := lineOf_scan line
  rw [h, lineOf_append, lineOf_cons, ← String.append_assoc] at hline
  rw [utf8ByteSize_lineOf]
  exact ⟨hline.symm, ((isScanned_scan line).offsets front here back h).symm⟩

theorem IsScanned.not_isNumber (h : IsScanned (front ++ here :: next :: back)) :
    ¬(here.item.isNumber ∧ next.item.isNumber) := by
  have hapart := h.apart
  rw [List.map_append, List.map_cons, List.map_cons, List.isChain_append_cons_cons] at hapart
  exact hapart.2.1

/-- In front of a number stands neither a digit nor a point. -/
theorem IsScanned.isNumeral_getLast? (h : IsScanned (front ++ here :: back))
    (hnumber : here.item.isNumber) :
    ∀ character ∈ (lineOf front).toList.getLast?, isNumeral character = false := by
  intro character hcharacter
  rcases List.eq_nil_or_concat front with rfl | ⟨front, last, rfl⟩
  · simp [lineOf] at hcharacter
  · rw [List.concat_eq_append] at h hcharacter
    have hwf : last.item.WellFormed := h.wellFormed last (by simp)
    have hlast : last.item.isNumber = false := by
      have hnot : ¬(last.item.isNumber ∧ here.item.isNumber) := by
        rw [List.append_assoc] at h
        exact h.not_isNumber
      simpa [hnumber] using hnot
    rw [lineOf_append, String.toList_append,
      List.getLast?_append_of_ne_nil _ (by simpa [lineOf] using hwf.toList_text_ne_nil)]
      at hcharacter
    rw [← hlast]
    exact hwf.isNumeral_eq character (by simpa [lineOf] using List.mem_of_getLast? hcharacter)

/-- Behind a number stands neither a digit nor a point. -/
theorem IsScanned.isNumeral_head? (h : IsScanned (front ++ here :: back))
    (hnumber : here.item.isNumber) :
    ∀ character ∈ (lineOf back).toList.head?, isNumeral character = false := by
  intro character hcharacter
  rcases back with _ | ⟨next, back⟩
  · simp [lineOf] at hcharacter
  · have hwf : next.item.WellFormed := h.wellFormed next (by simp)
    have hnext : next.item.isNumber = false := by simpa [hnumber] using h.not_isNumber
    rw [lineOf_cons, String.toList_append, List.head?_append_of_ne_nil _ hwf.toList_text_ne_nil]
      at hcharacter
    rw [← hnext]
    exact hwf.isNumeral_eq character (List.mem_of_head? hcharacter)

/-! ## 6. The correspondence -/

/-- **Lines and scanned rows correspond one to one.**  Every line is scanned into a row whose
lexemes are well formed, whose numbers stand apart, and whose offsets count the bytes in front; the
texts of that row make up the line.  Every such row is the one that its line is scanned into. -/
theorem scan_bijective :
    (∀ line, IsScanned (scan line) ∧ lineOf (scan line) = line) ∧
      ∀ row, IsScanned row → scan (lineOf row) = row := by
  constructor
  · intro line
    exact ⟨isScanned_scan line, lineOf_scan line⟩
  · intro row h
    exact h.scan_lineOf

/-- The row of `3.1−x` is scanned; the minus sign takes up three bytes. -/
theorem scan_bijective_minus_sign :
    IsScanned [⟨.number "3.1", 0⟩, ⟨.operator .subtract, 3⟩, ⟨.unknown 'x', 6⟩] ∧
      scan (lineOf [⟨.number "3.1", 0⟩, ⟨.operator .subtract, 3⟩, ⟨.unknown 'x', 6⟩])
        = [⟨.number "3.1", 0⟩, ⟨.operator .subtract, 3⟩, ⟨.unknown 'x', 6⟩] := by
  obtain ⟨hlines, hrows⟩ := scan_bijective
  have hscanned : IsScanned [⟨.number "3.1", 0⟩, ⟨.operator .subtract, 3⟩, ⟨.unknown 'x', 6⟩] := by
    have hrow : scan "3.1−x"
        = [⟨.number "3.1", 0⟩, ⟨.operator .subtract, 3⟩, ⟨.unknown 'x', 6⟩] := by decide +kernel
    rw [← hrow]
    exact (hlines "3.1−x").1
  exact ⟨hscanned, hrows _ hscanned⟩

end Lexeme

end Reckoner
