/-!
# Decimal numerals

A `Decimal` is an integer scaled by a power of ten; a `Number` is what a JSON document or a page may
hold: an integer, or a decimal whose fractional spelling is part of the value.

* `Decimal.normalize` moves trailing zeros of the digits into the exponent, so that each value has
  one form.
-/

namespace FileRoutes

/-- The value `digits * 10 ^ exponent`. -/
structure Decimal where
  digits : Int
  exponent : Int
  deriving DecidableEq, Repr, Inhabited

namespace Decimal

/-- Divides by ten at most `fuel` times while that is exact, counting the divisions. -/
def stripZeros : (fuel : Nat) → (digits : Nat) → (exponent : Int) → Nat × Int
  | 0, digits, exponent => (digits, exponent)
  | fuel + 1, digits, exponent =>
    if digits % 10 = 0 ∧ digits ≠ 0 then stripZeros fuel (digits / 10) (exponent + 1)
    else (digits, exponent)

/-- The form whose digits do not end in zero; zero itself has exponent zero. -/
def normalize (d : Decimal) : Decimal :=
  let stripped := stripZeros d.digits.natAbs d.digits.natAbs d.exponent
  if d.digits = 0 then ⟨0, 0⟩
  else if d.digits < 0 then ⟨-stripped.1, stripped.2⟩
  else ⟨stripped.1, stripped.2⟩

end Decimal

/-- A number of a JSON document: a whole number, or a decimal that is written with a fraction or an
exponent. -/
inductive Number where
  | int (value : Int)
  | decimal (value : Decimal)
  deriving DecidableEq, Repr, Inhabited

end FileRoutes
