/-
# Typing in what the screen shows

What the screen shows of a finite number can be typed in again and has that number as its value
(`Calculator.evaluate_write`).  Only the sign of zero is lost, for the screen does not show it.

* **The line** is a plain decimal with a minus sign in front of it or without one, and so it is
  scanned into one number or a negation and a number (`Lexeme.scan_signed`).
* **Its value** is the number that the decimal is read as, negated behind the sign, whatever the
  ranks (`Calculator.evaluate_signed`).
* **The words** for what is not finite are no expressions: their letters mean nothing.
-/
import Reckoner.Calculator
import Reckoner.Proofs.Binary64.Patterns
import Reckoner.Proofs.Binary64.ReadBack
import Reckoner.Proofs.Lexeme.Rows
import Reckoner.Proofs.Reading.Acceptance

namespace Reckoner

variable {negative : Bool} {digits : List Char} {value : Binary64}

/-! ## 1. A number with or without a sign -/

/-- A number and the negation in front of it, if there is one. -/
def Symbol.signed {α : Type} (negative : Bool) (value : α) : List (Placed (Symbol α)) :=
  if negative then [⟨.negation, 0⟩, ⟨.number value, 1⟩] else [⟨.number value, 0⟩]

theorem Lexeme.wellFormed_of_isPlain (h : Decimal.IsPlain digits) :
    WellFormed (.number (String.ofList digits)) := by
  refine ⟨?_, ?_⟩
  · intro hempty
    obtain ⟨first, hfirst, -⟩ := h.first
    have hnil : digits = [] := String.ofList_eq_empty_iff.mp hempty
    rw [hnil] at hfirst
    cases hfirst
  · intro character hmem
    rw [String.toList_ofList] at hmem
    simpa [isNumeral] using h.characters character hmem

theorem Lexeme.isScanned_signed (h : Decimal.IsPlain digits) (negative : Bool) :
    IsScanned (Symbol.signed negative (String.ofList digits)) where
  wellFormed := by
    have hnumber := wellFormed_of_isPlain h
    cases negative with
    | false =>
      intro placed hplaced
      obtain rfl := List.mem_singleton.mp hplaced
      exact hnumber
    | true =>
      intro placed hplaced
      rcases List.mem_pair.mp hplaced with rfl | rfl
      · trivial
      · exact hnumber
  apart := by cases negative <;> simp [Symbol.signed, Symbol.isNumber]
  offsets := by
    refine offset_eq_of_placeFrom ?_
    cases negative <;> rfl

/-- A plain decimal is scanned into one number, behind the negation that its sign is. -/
theorem Lexeme.scan_signed (h : Decimal.IsPlain digits) (negative : Bool) :
    scan (Binary64.signText negative ++ String.ofList digits)
      = Symbol.signed negative (String.ofList digits) := by
  have hline : lineOf (Symbol.signed negative (String.ofList digits))
      = Binary64.signText negative ++ String.ofList digits := by
    cases negative <;> simp [lineOf, Symbol.signed, Binary64.signText, text, Symbol.text]
  rw [← hline]
  exact (isScanned_signed h negative).scan_lineOf

/-- A number is read as its value; a negation in front of it stays. -/
theorem Token.read_signed {number : String} (h : Binary64.ofText? number = some value)
    (negative : Bool) :
    Token.read (Symbol.signed negative number) = .ok (Symbol.signed negative value) := by
  have hreadable : Lexeme.isReadable (.number number) := by simp [Lexeme.isReadable, h]
  have htoken : Lexeme.token (.number number) = .number value := by
    simp [Lexeme.token, Symbol.map, h]
  rw [Token.read_eq_ok_iff]
  cases negative with
  | false =>
    refine ⟨List.cons_ne_nil _ _, ⟨rfl, trivial⟩, ?_, rfl, ?_⟩
    · intro here hmem
      obtain rfl := List.mem_singleton.mp hmem
      exact hreadable
    · show [(⟨Lexeme.token (.number number), 0⟩ : Placed Token)] = _
      rw [htoken]
      rfl
  | true =>
    refine ⟨List.cons_ne_nil _ _, ⟨rfl, rfl, trivial⟩, ?_, rfl, ?_⟩
    · intro here hmem
      rcases List.mem_pair.mp hmem with rfl | rfl
      · rfl
      · exact hreadable
    · show [⟨.negation, 0⟩, (⟨Lexeme.token (.number number), 1⟩ : Placed Token)] = _
      rw [htoken]
      rfl

theorem Token.value_signed (ranks : Ranks) (negative : Bool) (value : Binary64) :
    Token.value ranks (Symbol.signed negative value)
      = .ok (if negative then -value else value) := by
  cases negative <;> rfl

namespace Calculator

/-- **The value of a plain decimal** is the number it is read as, negated behind a sign. -/
theorem evaluate_signed (calculator : Calculator) (hplain : Decimal.IsPlain digits)
    (h : Binary64.ofText? (String.ofList digits) = some value) (negative : Bool) :
    calculator.evaluate (Binary64.signText negative ++ String.ofList digits)
      = .ok (if negative then -value else value) := by
  rw [evaluate, tokens, Lexeme.scan_signed hplain, Token.read_signed h]
  exact congrArg (Except.mapError _) (Token.value_signed calculator.ranks negative value)

/-! ## 2. What the screen shows -/

theorem write_screen (negative : Bool) {quanta : Nat} (h : Binary64.Representable quanta) :
    Binary64.write .screen (.finite negative quanta h)
      = Binary64.signText (negative && quanta != 0)
        ++ String.ofList (Binary64.shortest quanta).text := by
  rw [Binary64.write, Spelling.screen, Bool.or_false]

/-- **A shown number is worth itself**, but for the sign of zero. -/
theorem evaluate_write_screen (calculator : Calculator) {x : Binary64} (hx : x.isFinite) :
    calculator.evaluate (x.write .screen) = .ok (if x.isZero then .zero false else x) := by
  cases x with
  | nan => cases hx
  | infinite negative => cases hx
  | finite negative quanta h =>
    rw [write_screen, calculator.evaluate_signed (Binary64.shortest quanta).isPlain_text
      (Binary64.ofText?_shortest h)]
    by_cases hzero : quanta = 0
    · subst hzero
      simp [Binary64.isZero, Binary64.zero]
    · cases negative with
      | false => simp [Binary64.isZero, hzero]
      | true =>
        simp only [Binary64.isZero, hzero, bne_iff_ne, beq_iff_eq, Bool.true_and, ne_eq,
          not_false_eq_true, if_true, if_false]
        rfl

/-- **Finite numbers that are shown alike** are the same, or both are zero. -/
theorem write_screen_eq_iff {x y : Binary64} (hx : x.isFinite) (hy : y.isFinite) :
    x.write .screen = y.write .screen ↔ x = y ∨ (x.isZero ∧ y.isZero) := by
  constructor
  · intro h
    have hvalues := evaluate_write_screen {} hx
    rw [h, evaluate_write_screen {} hy] at hvalues
    have hsame := Except.ok.inj hvalues
    split at hsame <;> split at hsame
    case isTrue.isTrue hyzero hxzero => exact .inr ⟨hxzero, hyzero⟩
    case isTrue.isFalse hyzero hxzero => exact absurd (hsame ▸ rfl) hxzero
    case isFalse.isTrue hyzero hxzero => exact absurd (hsame ▸ rfl) hyzero
    case isFalse.isFalse => exact .inl hsame.symm
  · intro h
    rcases h with rfl | ⟨hxzero, hyzero⟩
    · rfl
    · obtain ⟨negative, rfl⟩ := Binary64.exists_eq_zero_of_isZero hxzero
      obtain ⟨negative', rfl⟩ := Binary64.exists_eq_zero_of_isZero hyzero
      rw [Binary64.zero, Binary64.zero, write_screen, write_screen]
      simp

theorem evaluate_of_unknown (calculator : Calculator) {line : String} {character : Char}
    {rest : List (Placed Token)} (h : tokens line = .ok (⟨.unknown character, 0⟩ :: rest)) :
    calculator.evaluate line = .error (.run (.unknownOperator character 0)) := by
  rw [evaluate, h]
  rfl

/-- The words for what is not finite are refused for their form. -/
theorem evaluate_write_screen_of_not_isFinite (calculator : Calculator) {x : Binary64}
    (hx : ¬x.isFinite) :
    ∃ fault, calculator.evaluate (x.write .screen) = .error fault ∧ fault.kind = .syntactic := by
  cases x with
  | finite negative quanta h => exact absurd rfl hx
  | nan =>
    have htokens : tokens "NaN" = .ok [⟨.unknown 'N', 0⟩, ⟨.unknown 'a', 1⟩,
        ⟨.unknown 'N', 2⟩] := by
      decide +kernel
    exact ⟨_, calculator.evaluate_of_unknown htokens, rfl⟩
  | infinite negative =>
    cases negative with
    | false =>
      have htokens : tokens "Infinity" = .ok [⟨.unknown 'I', 0⟩, ⟨.unknown 'n', 1⟩,
          ⟨.unknown 'f', 2⟩, ⟨.unknown 'i', 3⟩, ⟨.unknown 'n', 4⟩, ⟨.unknown 'i', 5⟩,
          ⟨.unknown 't', 6⟩, ⟨.unknown 'y', 7⟩] := by
        decide +kernel
      exact ⟨_, calculator.evaluate_of_unknown htokens, rfl⟩
    | true =>
      have htokens : tokens "-Infinity" = .error (.unexpectedToken "I" 1) := by decide +kernel
      refine ⟨.form (.unexpectedToken "I" 1), ?_, rfl⟩
      show calculator.evaluate "-Infinity" = _
      rw [evaluate, htokens]
      rfl

/-! ## 3. Bits -/

/-- **A number of these bits is worth the same bits**, unless they are those of the negative
zero. -/
theorem evaluate_write_screen_ofBits (calculator : Calculator) {bits : UInt64}
    (hbits : (Binary64.ofBits bits).isFinite) :
    (calculator.evaluate ((Binary64.ofBits bits).write .screen)).map Binary64.toBits
      = .ok (if bits = 0x8000000000000000 then 0 else bits) := by
  rw [calculator.evaluate_write_screen hbits]
  have hback := Binary64.toBits_ofBits hbits
  by_cases hzero : (Binary64.ofBits bits).isZero
  · obtain ⟨negative, heq⟩ := Binary64.exists_eq_zero_of_isZero hzero
    rw [heq, Binary64.toBits_zero] at hback
    rw [if_pos hzero, Except.map, Binary64.toBits_zero, ← hback]
    cases negative <;> rfl
  · have hne : bits ≠ 0x8000000000000000 := by
      intro hsign
      rw [hsign] at hzero
      exact hzero (by decide +kernel)
    rw [if_neg hzero, if_neg hne, Except.map, hback]

/-! ## 4. The round trip -/

/-- **What the screen shows can be typed in again**, whatever the ranks.  A finite number comes
back with its very bits, but for the negative zero, which comes back as the positive one.  So no
two finite numbers are shown alike except for the two zeros, and what is shown of a finite number
is a plain decimal with a minus sign in front of it or without one.  What is shown of infinities
and of `nan` has no value, and is a fault of form. -/
theorem evaluate_write (calculator : Calculator) :
    (∀ x : Binary64, x.isFinite →
      calculator.evaluate (x.write .screen) = .ok (if x.isZero then .zero false else x)) ∧
    (∀ bits : UInt64, (Binary64.ofBits bits).isFinite →
      (calculator.evaluate ((Binary64.ofBits bits).write .screen)).map Binary64.toBits
        = .ok (if bits = 0x8000000000000000 then 0 else bits)) ∧
    (∀ x y : Binary64, x.isFinite → y.isFinite →
      (x.write .screen = y.write .screen ↔ x = y ∨ (x.isZero ∧ y.isZero))) ∧
    (∀ x : Binary64, x.isFinite → ∃ negative digits, Decimal.IsPlain digits ∧
      x.write .screen = Binary64.signText negative ++ String.ofList digits) ∧
    (∀ x : Binary64, ¬x.isFinite → ∃ fault,
      calculator.evaluate (x.write .screen) = .error fault ∧ fault.kind = .syntactic) := by
  refine ⟨?_, ?_, ?_, ?_, ?_⟩
  · intro x hx
    exact calculator.evaluate_write_screen hx
  · intro bits hbits
    exact calculator.evaluate_write_screen_ofBits hbits
  · intro x y hx hy
    exact write_screen_eq_iff hx hy
  · intro x hx
    cases x with
    | nan => cases hx
    | infinite negative => cases hx
    | finite negative quanta h =>
      exact ⟨_, _, (Binary64.shortest quanta).isPlain_text, write_screen negative h⟩
  · intro x hx
    exact calculator.evaluate_write_screen_of_not_isFinite hx

/-- The number nearest to a tenth is shown as `0.1` and comes back from that; the negative infinity
does not come back. -/
theorem evaluate_write_tenth :
    (Binary64.ofBits 0x3FB999999999999A).isFinite ∧
      (Binary64.ofBits 0x3FB999999999999A).write .screen = "0.1" ∧
      (evaluate {} "0.1").map Binary64.toBits = .ok 0x3FB999999999999A ∧
      ∃ fault, evaluate {} "-Infinity" = .error fault ∧ fault.kind = .syntactic := by
  obtain ⟨-, hbits, -, -, hwords⟩ := evaluate_write {}
  have hfinite : (Binary64.ofBits 0x3FB999999999999A).isFinite := by decide +kernel
  have htext : (Binary64.ofBits 0x3FB999999999999A).write .screen = "0.1" := by decide +kernel
  have hback := hbits 0x3FB999999999999A hfinite
  rw [htext] at hback
  exact ⟨hfinite, htext, hback, hwords (.infinite true) Bool.false_ne_true⟩

end Calculator

end Reckoner
