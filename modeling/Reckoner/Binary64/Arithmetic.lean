/-
# Arithmetic on binary64 numbers

Sums, differences, products and quotients are worked out exactly in quanta and rounded once.  The
cases without an exact result are those of the format's standard: infinities keep their sign rules,
and what has no value is `nan`.

* **Signs of zero.**  A sum that is exactly zero is positive unless both summands are negative; the
  sign of a product or a quotient is negative when exactly one operand is.
* **Dividing by zero** is no error: it gives an infinity, and `nan` for a zero over a zero.
* **Powers** are the platform's `pow` on the same bit patterns.
-/
import Reckoner.Binary64.Rounding
import Reckoner.Binary64.Bits

namespace Reckoner

namespace Binary64

/-! ## 1. Sums -/

/-- The number with the other sign. -/
def neg : Binary64 → Binary64
  | .nan => .nan
  | .infinite negative => .infinite !negative
  | .finite negative quanta h => .finite (!negative) quanta h

/-- A magnitude with its sign, as an integer. -/
def signed (negative : Bool) (quanta : Nat) : Int := if negative then -quanta else quanta

/-- The nearest number to an integer of quanta; `zeroNegative` is the sign of a zero. -/
def ofSigned (zeroNegative : Bool) (quanta : Int) : Binary64 :=
  ofRatio (if quanta = 0 then zeroNegative else decide (quanta < 0)) quanta.natAbs 1

/-- The rounded sum. -/
def add : Binary64 → Binary64 → Binary64
  | .nan, _ | _, .nan => .nan
  | .infinite s, .infinite t => if s = t then .infinite s else .nan
  | .infinite s, .finite .. => .infinite s
  | .finite .., .infinite t => .infinite t
  | .finite s a _, .finite t b _ => ofSigned (s && t) (signed s a + signed t b)

/-- The rounded difference: the sum with the negated second operand. -/
def sub (x y : Binary64) : Binary64 := x.add y.neg

/-! ## 2. Products and quotients -/

/-- The rounded product. -/
def mul : Binary64 → Binary64 → Binary64
  | .nan, _ | _, .nan => .nan
  | .infinite s, .infinite t => .infinite (s != t)
  | .infinite s, .finite t b _ => if b = 0 then .nan else .infinite (s != t)
  | .finite s a _, .infinite t => if a = 0 then .nan else .infinite (s != t)
  | .finite s a _, .finite t b _ => ofRatio (s != t) (a * b) quantaPerUnit

/-- The rounded quotient. -/
def div : Binary64 → Binary64 → Binary64
  | .nan, _ | _, .nan => .nan
  | .infinite _, .infinite _ => .nan
  | .infinite s, .finite t _ _ => .infinite (s != t)
  | .finite s _ _, .infinite t => zero (s != t)
  | .finite s a _, .finite t b _ =>
    if b ≠ 0 then ofRatio (s != t) (a * quantaPerUnit) b
    else if a = 0 then .nan
    else .infinite (s != t)

/-! ## 3. Powers -/

/-- The platform's `pow`. -/
def pow (x y : Binary64) : Binary64 :=
  ofBits ((Float.ofBits x.toBits).pow (Float.ofBits y.toBits)).toBits

instance : Neg Binary64 := ⟨neg⟩
instance : Add Binary64 := ⟨add⟩
instance : Sub Binary64 := ⟨sub⟩
instance : Mul Binary64 := ⟨mul⟩
instance : Div Binary64 := ⟨div⟩
instance : HPow Binary64 Binary64 Binary64 := ⟨pow⟩

end Binary64

end Reckoner
