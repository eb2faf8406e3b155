import DigestFilter.Decimal.Shortest
import DigestFilter.Json.Value

/-!
# What a JSON number denotes

A literal without fraction and exponent is an integer when it fits 64 bits, signed or unsigned.
Every other literal is a double: the digits that fit 64 bits, scaled by a power of ten, so two
roundings are made. Too large a number denotes nothing.
-/

namespace DigestFilter.Json

/-- Doubles have no exponent from 0.00001 on and below 10¹⁶, and end evenly where two would do. -/
def numberStyle : Decimal.Style := ⟨-5, 16, .toEven⟩

def ofFloat (x : Float) : Json := .number (.ofDouble numberStyle x)

inductive Denotation where
  | integer (n : Int)
  | double (x : Float)

/-- Appends digits to `n` as long as the result is below 2⁶⁴, and counts them. -/
def absorb (n : Nat) : List Nat → Nat × Nat
  | [] => (n, 0)
  | d :: ds =>
    if 10 * n + d < UInt64.size then
      let (m, count) := absorb (10 * n + d) ds
      (m, count + 1)
    else (n, 0)

def scaleDouble? (x : Float) (e : Int) : Option Float :=
  if x == 0 then some x
  else if e < -308 then scaleDouble? (x / Float.ofScientific 1 false 308) (e + 308)
  else if e < 0 then some (x / Float.ofScientific 1 false e.natAbs)
  else if 308 < e then none
  else
    let y := x * Float.ofScientific 1 false e.natAbs
    if y.isInf then none else some y
termination_by e.natAbs
decreasing_by omega

def double? (n : Decimal.Literal) : Option Float := do
  let wholeDigits := Numeral.digits 10 n.whole
  let (m, kept) := absorb 0 wholeDigits
  let (m, keptAfter) := absorb m n.fraction
  let e : Int := n.exponent.getD 0 + (wholeDigits.length - kept) - keptAfter
  let x ← scaleDouble? (Float.ofNat m) e
  return if n.negative then -x else x

/-- A negative zero is a double, because no integer has that sign. -/
def denotation? (n : Decimal.Literal) : Option Denotation :=
  let value : Int := if n.negative then -n.whole else n.whole
  if n.fraction = [] ∧ n.exponent = none ∧ value < UInt64.size ∧
      Int64.minValue.toInt ≤ value ∧ ¬(n.negative ∧ n.whole = 0) then
    some (.integer value)
  else (double? n).map .double

/-- The unsigned 64-bit number of a plain literal without a sign. -/
def word? (n : Decimal.Literal) : Option UInt64 :=
  if n.negative = false ∧ n.fraction = [] ∧ n.exponent = none ∧ n.whole < UInt64.size then
    some (UInt64.ofNat n.whole)
  else none

end DigestFilter.Json
