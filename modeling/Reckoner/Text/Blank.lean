/-
# Blanks around a line

A character is blank when it has the Unicode property `White_Space`.  Twenty-five characters have
it: the ASCII blanks and controls, the next-line and no-break characters of Latin-1, and the
spaces and separators of the general block and of the ideographs.  The zero-width space and the
byte-order mark do not have it, so they stay.

`trim` takes blanks away at both ends of a text and leaves those inside alone.
-/

namespace Reckoner.Text

/-! ## 1. The property -/

/-- The ranges of the characters with the property, both ends included. -/
def blankRanges : List (Nat × Nat) :=
  [(0x0009, 0x000D), (0x0020, 0x0020), (0x0085, 0x0085), (0x00A0, 0x00A0), (0x1680, 0x1680),
   (0x2000, 0x200A), (0x2028, 0x2029), (0x202F, 0x202F), (0x205F, 0x205F), (0x3000, 0x3000)]

/-- Whether a character is blank. -/
def isBlank (character : Char) : Bool :=
  blankRanges.any fun (first, last) => first ≤ character.toNat && character.toNat ≤ last

/-! ## 2. Trimming -/

/-- A row of characters without the blanks at its end. -/
def trimEnd (characters : List Char) : List Char :=
  (characters.reverse.dropWhile isBlank).reverse

/-- A text without the blanks at its ends. -/
def trim (text : String) : String :=
  String.ofList (trimEnd (text.toList.dropWhile isBlank))

end Reckoner.Text
