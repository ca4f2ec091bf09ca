/-
# Number texts

Numbers are shown in two places, which differ only in what is no plain decimal; a `Spelling` says
how.

* **The screen** (`Spelling.screen`) spells infinity out and shows both zeros as `0`.
* **The token stream** (`Spelling.stream`) abbreviates infinity and keeps the sign of zero.

A text is read as a number when it is an optional sign and then a decimal or one of the words
`inf`, `infinity` and `nan`, in any mixture of letter cases.  Blanks and digit separators are
never part of a number text.
-/
import Reckoner.Binary64.Shortest

namespace Reckoner

/-! ## 1. Writing -/

/-- How the numbers that are no plain decimal are spelled: the words for `nan` and for infinity, and
whether a negative zero has its sign written. -/
structure Spelling where
  nan : String
  infinity : String
  signedZero : Bool

namespace Spelling

/-- Results on the screen: `NaN`, `Infinity`, `-Infinity`, and `0` for either zero. -/
def screen : Spelling := ⟨"NaN", "Infinity", false⟩

/-- Numbers in a token stream: `NaN`, `inf`, `-inf`, `0` and `-0`. -/
def stream : Spelling := ⟨"NaN", "inf", true⟩

end Spelling

namespace Binary64

/-- The minus sign of a negative number. -/
def signText (negative : Bool) : String := if negative then "-" else ""

/-- The text of a number: the shortest decimal that is read as it, or a word. -/
def write (spelling : Spelling) : Binary64 → String
  | .nan => spelling.nan
  | .infinite negative => signText negative ++ spelling.infinity
  | .finite negative quanta _ =>
    signText (negative && (quanta != 0 || spelling.signedZero))
      ++ String.ofList (shortest quanta).text

/-! ## 2. Reading -/

/-- The number a word stands for; letter case does not matter. -/
def ofWord? (negative : Bool) (text : List Char) : Option Binary64 :=
  let word := text.map Char.toLower
  if word = ['i', 'n', 'f'] ∨ word = ['i', 'n', 'f', 'i', 'n', 'i', 't', 'y'] then
    some (.infinite negative)
  else if word = ['n', 'a', 'n'] then some .nan
  else none

/-- The number a text denotes, if it is a number text. -/
def ofText? (text : String) : Option Binary64 :=
  let (negative, magnitude) := Decimal.takeSign text.toList
  match Decimal.ofText? magnitude with
  | some decimal => some (ofDecimal negative decimal)
  | none => ofWord? negative magnitude

end Binary64

end Reckoner
