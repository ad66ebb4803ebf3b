import FileRoutes.Number.Decimal

/-!
# Magnitudes of the 64-bit binary format

Numeric literals of a page denote magnitudes `mantissa * 2 ^ exponent` of the 64-bit binary
floating-point format. Everything is exact natural-number arithmetic; no machine float takes part.

* `Binary64.ofQuotient` rounds a quotient to the nearest magnitude, ties to the even mantissa.
* `Binary64.ofDecimal` rounds `digits * 10 ^ exponent`.
* `Binary64.shortest` is the decimal with the fewest digits that rounds back to the magnitude, and
  the nearest one among those.
* `Number.ofMagnitude?` is the number a literal stands for: whole below `2 ^ 63`, otherwise decimal.
-/

namespace FileRoutes

/-- A non-negative magnitude: `mantissa * 2 ^ exponent` with `mantissa < 2 ^ 53`, or infinity. -/
inductive Binary64 where
  | finite (mantissa : Nat) (exponent : Int)
  | infinite
  deriving DecidableEq, Repr, Inhabited

namespace Binary64

/-- The exponent of the smallest positive magnitude. -/
def minExponent : Int := -1074

/-- The exponent of the largest finite magnitude. -/
def maxExponent : Int := 971

/-- A quotient scaled by `2 ^ -exponent`, as numerator and denominator. -/
def scaleTwo (num den : Nat) (exponent : Int) : Nat × Nat :=
  match exponent with
  | .ofNat e => (num, den * Nat.pow 2 e)
  | .negSucc e => (num * Nat.pow 2 (e + 1), den)

/-- The nearest whole number of a quotient, a half going to the even neighbour. -/
def roundHalfEven (num den : Nat) : Nat :=
  let floor := num / den
  let twice := 2 * (num % den)
  if twice < den then floor
  else if den < twice then floor + 1
  else if floor % 2 = 0 then floor
  else floor + 1

/-- The exponent whose unit leaves 53 significant bits of the quotient, or the smallest one. -/
def unitExponent (num den : Nat) : Int :=
  let estimate : Int := (Nat.log2 num : Int) - (Nat.log2 den : Int) - 53
  let scaled := scaleTwo num den estimate
  max minExponent (if scaled.1 / scaled.2 < Nat.pow 2 53 then estimate else estimate + 1)

/-- The magnitude nearest to `num / den`. -/
def ofQuotient (num den : Nat) : Binary64 :=
  if num = 0 then .finite 0 minExponent
  else
    let exponent := unitExponent num den
    let scaled := scaleTwo num den exponent
    let mantissa := roundHalfEven scaled.1 scaled.2
    let carried := mantissa = Nat.pow 2 53
    let exponent := if carried then exponent + 1 else exponent
    if maxExponent < exponent then .infinite
    else .finite (if carried then Nat.pow 2 52 else mantissa) exponent

/-- The number of decimal digits of a number, at least one. -/
def decimalLength (n : Nat) : Nat := (Nat.toDigits 10 n).length

/-- The magnitude nearest to `digits * 10 ^ exponent`. Beyond four hundred places on either side
the answer is infinity or zero whatever the digits are. -/
def ofDecimal (digits : Nat) (exponent : Int) : Binary64 :=
  let place := (decimalLength digits : Int) + exponent
  if digits = 0 then .finite 0 minExponent
  else if 400 < place then .infinite
  else if place < -400 then .finite 0 minExponent
  else match exponent with
    | .ofNat e => ofQuotient (digits * Nat.pow 10 e) 1
    | .negSucc e => ofQuotient digits (Nat.pow 10 (e + 1))

/-- The whole number a magnitude equals, if it is one. -/
def whole? : Binary64 → Option Nat
  | .infinite => none
  | .finite mantissa (.ofNat e) => some (mantissa * Nat.pow 2 e)
  | .finite mantissa (.negSucc e) =>
    if mantissa % Nat.pow 2 (e + 1) = 0 then some (mantissa / Nat.pow 2 (e + 1)) else none

/-! ## Shortest decimals -/

/-- A quotient scaled by `10 ^ -exponent`, as numerator and denominator. -/
def scaleTen (num den : Nat) (exponent : Int) : Nat × Nat :=
  match exponent with
  | .ofNat e => (num, den * Nat.pow 10 e)
  | .negSucc e => (num * Nat.pow 10 (e + 1), den)

/-- The exponent `t` with `10 ^ (t - 1) ≤ num / den < 10 ^ t`, searched among the places of a
finite magnitude. -/
def decimalPlace (num den : Nat) : Int :=
  if den ≤ num then decimalLength (num / den)
  else
    Int.negOfNat (((List.range 400).find? fun t => den ≤ num * Nat.pow 10 (t + 1)).getD 400)

/-- The interval of values that round to a positive magnitude, all over one denominator: lower end,
magnitude, upper end, denominator. Below a power of two the neighbour is half as far. -/
def roundingInterval (mantissa : Nat) (exponent : Int) : Nat × Nat × Nat × Nat :=
  let below := if mantissa = Nat.pow 2 52 ∧ minExponent < exponent then 1 else 2
  let (factor, den) : Nat × Nat :=
    match exponent - 2 with
    | .ofNat e => (Nat.pow 2 e, 1)
    | .negSucc e => (1, Nat.pow 2 (e + 1))
  ((4 * mantissa - below) * factor, 4 * mantissa * factor, (4 * mantissa + 2) * factor, den)

/-- The nearest decimal with unit `10 ^ exponent` that rounds back, if one does. -/
def onGrid? (mantissa : Nat) (binary exponent : Int) : Option Decimal :=
  let (low, value, high, den) := roundingInterval mantissa binary
  let scaled := scaleTen value den exponent
  let below := scaled.1 / scaled.2
  let inside (n : Nat) : Bool :=
    let unit := scaleTen 1 1 exponent
    -- `n * 10 ^ exponent` compared with the two ends, cross-multiplied
    let point := n * unit.2 * den
    let lowEnd := low * unit.1
    let highEnd := high * unit.1
    if mantissa % 2 = 0 then decide (lowEnd ≤ point ∧ point ≤ highEnd)
    else decide (lowEnd < point ∧ point < highEnd)
  match inside below, inside (below + 1) with
  | true, true => some ⟨roundHalfEven scaled.1 scaled.2, exponent⟩
  | true, false => some ⟨below, exponent⟩
  | false, true => some ⟨below + 1, exponent⟩
  | false, false => none

/-- The decimal with the fewest digits that rounds to a positive magnitude. Seventeen digits always
suffice. -/
def shortest (mantissa : Nat) (exponent : Int) : Decimal :=
  let (_, value, _, den) := roundingInterval mantissa exponent
  let place := decimalPlace value den
  let found := (List.range 17).findSome? fun (k : Nat) =>
    onGrid? mantissa exponent (place - (k + 1))
  (found.getD ⟨0, 0⟩).normalize

end Binary64

/-- The number a literal of the given magnitude stands for; infinity stands for none. -/
def Number.ofMagnitude? (magnitude : Binary64) : Option Number :=
  match magnitude, magnitude.whole? with
  | .infinite, _ => none
  | .finite mantissa exponent, some n =>
    if n < Nat.pow 2 63 then some (.int n) else some (.decimal (Binary64.shortest mantissa exponent))
  | .finite mantissa exponent, none => some (.decimal (Binary64.shortest mantissa exponent))

end FileRoutes
