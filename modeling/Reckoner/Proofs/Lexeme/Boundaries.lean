/-
# Where one lexeme ends and another begins

Lexemes join only inside runs of digits and points.  At every other place a line can be cut, and
its lexemes are those of the two parts side by side (`Lexeme.scan_append`).

* **The lexemes of the second part** begin further to the right, by the bytes of the first part.
  They are *relocated* (`Placed.relocate`).
* **The bytes of a line** are those of its lexemes (`Lexeme.sum_size`), and this is why the first
  part says how far.
* **A parenthesis** never joins what stands beside it, so an expression in parentheses is scanned
  by itself, wherever it stands (`Lexeme.scan_parentheses`).
-/
import Mathlib.Algebra.GroupWithZero.Nat
import Mathlib.Data.List.SplitBy
import Reckoner.Lexeme.Scan

namespace Reckoner

/-! ## 1. Relocation -/

/-- The same symbol at another offset. -/
def Placed.relocate {σ : Type} (move : Nat → Nat) (placed : Placed σ) : Placed σ :=
  { placed with offset := move placed.offset }

@[simp] theorem Placed.item_relocate {σ : Type} (move : Nat → Nat) (placed : Placed σ) :
    (placed.relocate move).item = placed.item := rfl

theorem Placed.relocate_relocate {σ : Type} (move move' : Nat → Nat) (placed : Placed σ) :
    (placed.relocate move).relocate move' = placed.relocate (move' ∘ move) := rfl

namespace Lexeme

/-! ## 2. Texts and sizes -/

theorem text_ofRun (run : List Char) : (ofRun run).text = String.ofList run := by
  rcases run with _ | ⟨character, _ | ⟨next, rest⟩⟩
  · rfl
  · simp only [ofRun]
    split
    · rfl
    · exact Symbol.text_ofGlyph id character
  · rfl

theorem sum_size_map_ofRun (runs : List (List Char)) :
    ((runs.map ofRun).map size).sum = (String.ofList runs.flatten).utf8ByteSize := by
  induction runs with
  | nil => rfl
  | cons run runs ih =>
    rw [List.map_cons, List.map_cons, List.sum_cons, ih, List.flatten_cons, String.ofList_append,
      String.utf8ByteSize_append, size, text_ofRun]

/-- The lexemes of a line take up all its bytes. -/
theorem sum_size (line : String) :
    (((line.toList.splitBy joined).map ofRun).map size).sum = line.utf8ByteSize := by
  rw [sum_size_map_ofRun, List.flatten_splitBy, String.ofList_toList]

theorem size_pos_of_mem {lexeme : Lexeme} {characters : List Char}
    (h : lexeme ∈ (characters.splitBy joined).map ofRun) : 0 < lexeme.size := by
  obtain ⟨run, hrun, rfl⟩ := List.mem_map.mp h
  have hne := List.ne_nil_of_mem_splitBy hrun
  rw [size, text_ofRun, Nat.pos_iff_ne_zero, ne_eq, String.utf8ByteSize_eq_zero_iff]
  simpa using hne

/-! ## 3. Cutting a line -/

theorem placeFrom_append (offset : Nat) (front lexemes : List Lexeme) :
    placeFrom offset (front ++ lexemes)
      = placeFrom offset front ++ placeFrom (offset + (front.map size).sum) lexemes := by
  induction front generalizing offset with
  | nil => rfl
  | cons lexeme front ih =>
    rw [List.cons_append, placeFrom_cons, placeFrom_cons, ih, List.cons_append, List.map_cons,
      List.sum_cons, Nat.add_assoc]

theorem placeFrom_add (offset first : Nat) (lexemes : List Lexeme) :
    placeFrom (offset + first) lexemes
      = (placeFrom first lexemes).map (Placed.relocate (offset + ·)) := by
  induction lexemes generalizing first with
  | nil => rfl
  | cons lexeme lexemes ih =>
    rw [placeFrom_cons, placeFrom_cons, List.map_cons, Nat.add_assoc, ih]
    rfl

theorem offset_lt_of_mem_placeFrom {offset : Nat} {lexemes : List Lexeme} {placed : Placed Lexeme}
    (hpos : ∀ lexeme ∈ lexemes, 0 < lexeme.size) (h : placed ∈ placeFrom offset lexemes) :
    placed.offset < offset + (lexemes.map size).sum := by
  induction lexemes generalizing offset with
  | nil => simp [placeFrom_nil] at h
  | cons lexeme lexemes ih =>
    obtain ⟨hlexeme, hlexemes⟩ := List.forall_mem_cons.mp hpos
    rw [placeFrom_cons] at h
    rw [List.map_cons, List.sum_cons]
    rcases List.mem_cons.mp h with rfl | hmem
    · show offset < _
      omega
    · have hrest := ih hlexemes hmem
      omega

/-- The offsets of a line's lexemes lie in the line. -/
theorem offset_lt_of_mem_scan {line : String} {placed : Placed Lexeme} (h : placed ∈ scan line) :
    placed.offset < line.utf8ByteSize := by
  have hlt := offset_lt_of_mem_placeFrom (fun _ => size_pos_of_mem) h
  rwa [sum_size, Nat.zero_add] at hlt

/-- **Cutting a line** where two characters do not join cuts its lexemes there. -/
theorem scan_append {front back : String}
    (h : ∀ left ∈ front.toList.getLast?, ∀ right ∈ back.toList.head?, joined left right = false) :
    scan (front ++ back)
      = scan front ++ (scan back).map (Placed.relocate (front.utf8ByteSize + ·)) := by
  have hruns : (front ++ back).toList.splitBy joined
      = front.toList.splitBy joined ++ back.toList.splitBy joined := by
    rw [String.toList_append, List.splitBy_append h]
  rw [scan, hruns, List.map_append, placeFrom_append, sum_size, Nat.zero_add]
  exact congrArg _ (placeFrom_add front.utf8ByteSize 0 _)

/-- A character that is no part of a number stands alone. -/
theorem scan_glyph {character : Char} (hc : isNumeral character = false) :
    scan (String.singleton character) = [⟨.ofGlyph character, 0⟩] := by
  have hruns : (String.singleton character).toList.splitBy joined = [[character]] := by
    rw [String.toList_singleton]
    rfl
  rw [scan, hruns, List.map_singleton, ofRun, hc]
  rfl

/-- A line can be cut on both sides of a character that is no part of a number. -/
theorem scan_around {character : Char} (hc : isNumeral character = false) (front back : String) :
    scan (front ++ String.singleton character ++ back)
      = scan front ++ ⟨.ofGlyph character, front.utf8ByteSize⟩ ::
        (scan back).map (Placed.relocate (front.utf8ByteSize + character.utf8Size + ·)) := by
  have hfront : ∀ left ∈ front.toList.getLast?,
      ∀ right ∈ (String.singleton character).toList.head?, joined left right = false := by
    intro left _ right hright
    obtain rfl : character = right := by simpa using hright
    simp [joined, hc]
  have hback : ∀ left ∈ (front ++ String.singleton character).toList.getLast?,
      ∀ right ∈ back.toList.head?, joined left right = false := by
    intro left hleft right _
    obtain rfl : character = left := by simpa using hleft
    simp [joined, hc]
  rw [scan_append hback, scan_append hfront, scan_glyph hc, String.utf8ByteSize_append,
    String.utf8ByteSize_singleton, List.append_assoc]
  rfl

/-- **An expression in parentheses** is scanned by itself, wherever it stands. -/
theorem scan_parentheses (front inner back : String) :
    scan (front ++ "(" ++ inner ++ ")" ++ back)
      = scan front ++ ⟨.opening, front.utf8ByteSize⟩ ::
        ((scan inner).map (Placed.relocate (front.utf8ByteSize + 1 + ·)) ++
          ⟨.closing, front.utf8ByteSize + 1 + inner.utf8ByteSize⟩ ::
            (scan back).map
              (Placed.relocate (front.utf8ByteSize + 1 + inner.utf8ByteSize + 1 + ·))) := by
  have hopening := scan_around (show isNumeral '(' = false by decide) front inner
  have hclosing := scan_around (show isNumeral ')' = false by decide) (front ++ "(" ++ inner) back
  have hsize : (front ++ "(" ++ inner).utf8ByteSize
      = front.utf8ByteSize + 1 + inner.utf8ByteSize := by
    rw [String.utf8ByteSize_append, String.utf8ByteSize_append]
    rfl
  rw [hsize] at hclosing
  refine hclosing.trans ?_
  rw [show front ++ "(" ++ inner = front ++ String.singleton '(' ++ inner from rfl, hopening,
    List.append_assoc]
  rfl

end Lexeme

end Reckoner
