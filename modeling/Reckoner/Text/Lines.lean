/-
# Lines

A text held in a file and the bytes that arrive at standard input are both cut into lines, each by
its own rule.

* **A text** ends a line at each line feed; a carriage return in front of the line feed belongs to
  the end, one elsewhere does not.  What follows the last line feed is a line too unless it is
  empty.
* **Bytes** are cut at every line feed, before anything is decoded, and all pieces count, an empty
  last one included.  In UTF-8 the byte of a line feed is part of no other character, so the cuts
  fall between characters.
-/

namespace Reckoner.Text

/-! ## 1. Lines of a text -/

/-- A line without the carriage return at its end. -/
def dropReturn (line : List Char) : List Char :=
  if line.getLast? = some '\r' then line.dropLast else line

/-- The lines of a text. -/
def lines (text : String) : List String :=
  let pieces := text.toList.splitOn '\n'
  let ended := pieces.dropLast.map dropReturn
  let last := (pieces.getLast?.filter (· ≠ [])).toList
  (ended ++ last).map String.ofList

/-! ## 2. Lines of bytes -/

/-- The pieces between line feeds. -/
def bytePieces (bytes : List UInt8) : List (List UInt8) := bytes.splitOn 10

/-- The text that bytes encode, if they are well-formed UTF-8. -/
def decode? (bytes : List UInt8) : Option String := String.fromUTF8? bytes.toByteArray

end Reckoner.Text
