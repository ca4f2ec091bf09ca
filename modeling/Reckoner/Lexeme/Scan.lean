/-
# Scanning a line into lexemes

A line falls apart into lexemes without a remainder and without ever failing.

* **Numbers** are the longest runs of digits and points.  Whether `1.2.3` or a point alone is a
  number is not decided here.
* **Every other character** is a lexeme of its own, and so two of them never join.
* **Offsets** count the bytes of the lexemes in front.
-/
import Reckoner.Symbol

namespace Reckoner

namespace Lexeme

/-! ## 1. Runs -/

/-- The characters that numbers are written with: the ten digits and the point. -/
def isNumeral (character : Char) : Bool := character.isDigit || character == '.'

/-- Whether two neighbouring characters belong to one lexeme. -/
def joined (left right : Char) : Bool := isNumeral left && isNumeral right

/-- The lexeme of a run: a number, or the symbol of a single other character. -/
def ofRun : List Char → Lexeme
  | [character] =>
    if isNumeral character then .number (String.ofList [character]) else .ofGlyph character
  | run => .number (String.ofList run)

/-! ## 2. Lines -/

/-- How many bytes of a line a lexeme takes up. -/
def size (lexeme : Lexeme) : Nat := lexeme.text.utf8ByteSize

/-- Puts lexemes side by side, the first at `offset`. -/
def placeFrom (offset : Nat) (lexemes : List Lexeme) : List (Placed Lexeme) :=
  lexemes.zipWith Placed.mk (lexemes.scanl (fun offset lexeme => offset + lexeme.size) offset)

theorem placeFrom_nil (offset : Nat) : placeFrom offset [] = [] := rfl

theorem placeFrom_cons (offset : Nat) (lexeme : Lexeme) (lexemes : List Lexeme) :
    placeFrom offset (lexeme :: lexemes)
      = ⟨lexeme, offset⟩ :: placeFrom (offset + lexeme.size) lexemes := by
  simp [placeFrom, List.scanl_cons]

/-- The lexemes of a line, in order. -/
def scan (line : String) : List (Placed Lexeme) :=
  placeFrom 0 ((line.toList.splitBy joined).map ofRun)

end Lexeme

end Reckoner
