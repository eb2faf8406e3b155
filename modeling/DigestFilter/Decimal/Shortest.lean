import DigestFilter.Decimal.Literal

/-!
# The shortest decimal of a double

A double stands for every real number that rounds to it. Its shortest decimal is the one with the
fewest digits among those numbers, and of several such the nearest; where two are equally near, a
`Tie` decides. All comparisons are made on natural numbers over one common denominator.
-/

namespace DigestFilter.Decimal

/-- The magnitude of a finite double, `mantissa * 2 ^ exponent`. -/
structure Binary where
  negative : Bool
  mantissa : Nat
  exponent : Int

namespace Binary

/-- The numbers below which the mantissas of normal doubles do not reach. -/
def leastNormal : Nat := 1 <<< 52

def ofDouble (x : Float) : Binary :=
  let bits := x.toBits.toNat
  let field := bits / leastNormal % 2048
  let low := bits % leastNormal
  { negative := bits.testBit 63
    mantissa := if field = 0 then low else low + leastNormal
    exponent := if field = 0 then -1074 else (field : Int) - 1075 }

end Binary

/-- Which of two neighbours is taken when the value is half-way between them. -/
inductive Tie where
  | toEven
  | up
  deriving DecidableEq

def Tie.keeps : Tie → Nat → Bool
  | .toEven, lower => lower % 2 == 0
  | .up, _ => false

/-- A positive fraction between the ends of the interval that rounds to it, in one denominator. -/
structure Interval where
  low : Nat
  value : Nat
  high : Nat
  denominator : Nat
  closed : Bool

namespace Interval

/-- The half-way points to the two neighbours. The lower neighbour of a power of two is nearer. -/
def ofBinary (x : Binary) : Interval :=
  let unit := if x.exponent < 2 then 1 else 1 <<< (x.exponent - 2).toNat
  let below := if x.mantissa = Binary.leastNormal ∧ -1074 < x.exponent then 1 else 2
  { low := (4 * x.mantissa - below) * unit
    value := 4 * x.mantissa * unit
    high := (4 * x.mantissa + 2) * unit
    denominator := if x.exponent < 2 then 1 <<< (2 - x.exponent).toNat else 1
    closed := x.mantissa % 2 = 0 }

/-- The power of ten at or below the value. -/
def magnitude (i : Interval) : Int :=
  if i.denominator ≤ i.value then
    ((Numeral.digits 10 (i.value / i.denominator)).length : Int) - 1
  else -((Numeral.digits 10 ((i.denominator - 1) / i.value)).length : Int)

def scale (i : Interval) (e : Int) : Interval :=
  let k := Numeral.place 10 e.natAbs
  if e < 0 then { i with low := i.low * k, value := i.value * k, high := i.high * k }
  else { i with denominator := i.denominator * k }

def covers (i : Interval) (n : Nat) : Bool :=
  let m := n * i.denominator
  if i.closed then i.low ≤ m && m ≤ i.high else i.low < m && m < i.high

/-- Whether `floor` is taken rather than the next whole number, by distance or else by `tie`. -/
def takesFloor (i : Interval) (tie : Tie) (floor : Nat) : Bool :=
  match Ord.compare (2 * (i.value % i.denominator)) i.denominator with
  | .lt => true
  | .eq => tie.keeps floor
  | .gt => false

/-- The nearer of the whole numbers next to the value, of those in the interval. -/
def nearest? (i : Interval) (tie : Tie) : Option Nat :=
  let floor := i.value / i.denominator
  match i.covers floor, i.covers (floor + 1) with
  | true, true => some (if i.takesFloor tie floor then floor else floor + 1)
  | true, false => some floor
  | false, true => some (floor + 1)
  | false, false => none

/-- The first number of digits, from `17 - fuel` on, for which a decimal lies in the interval. -/
def search (i : Interval) (tie : Tie) : Nat → Nat × Int
  | 0 => (i.value / i.denominator, 0)
  | fuel + 1 =>
    let e := i.magnitude - (16 - fuel : Nat)
    match (i.scale e).nearest? tie with
    | some n => (n, e)
    | none => i.search tie fuel

end Interval

/-- The digits of the shortest decimal 0.d₁d₂… and the power of ten that it is multiplied by. -/
structure Digits where
  digits : List Nat
  point : Int

def dropTrailingZeros (ds : List Nat) : List Nat := (ds.reverse.dropWhile (· == 0)).reverse

def shortest (tie : Tie) (x : Binary) : Digits :=
  let (n, e) := (Interval.ofBinary x).search tie 17
  let ds := Numeral.digits 10 n
  { digits := dropTrailingZeros ds, point := ds.length + e }

/-- Magnitudes from `10 ^ least` on and below `10 ^ past` are written without an exponent. -/
structure Style where
  least : Int
  past : Int
  tie : Tie

/-- At least one digit follows the point unless there is an exponent. -/
def Literal.ofDouble (style : Style) (x : Float) : Literal :=
  let b := Binary.ofDouble x
  if b.mantissa = 0 then { negative := b.negative, whole := 0, fraction := [0] }
  else
    let d := shortest style.tie b
    if style.least < d.point ∧ d.point ≤ style.past then
      let padded := d.digits ++ List.replicate (d.point - d.digits.length).toNat 0
      let fraction := List.replicate (-d.point).toNat 0 ++ padded.drop d.point.toNat
      { negative := b.negative
        whole := Numeral.value 10 (padded.take d.point.toNat)
        fraction := if fraction = [] then [0] else fraction }
    else
      { negative := b.negative
        whole := d.digits.headD 0
        fraction := d.digits.tail
        exponent := some (d.point - 1) }

end DigestFilter.Decimal
