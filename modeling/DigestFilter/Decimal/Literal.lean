import DigestFilter.Numeral

/-!
# Decimal literals

A number as it is written: a sign, whole digits, digits after a point, and an exponent of ten.
Two literals can denote one number, so `1` and `1.0` are kept apart.
-/

namespace DigestFilter.Decimal

structure Literal where
  negative : Bool := false
  whole : Nat
  /-- The digits after the point; without any, the point is not written either. -/
  fraction : List Nat := []
  exponent : Option Int := none
  deriving DecidableEq, Repr

namespace Literal

def ofNat (n : Nat) : Literal := { whole := n }

def exponentText : Option Int → List Char
  | none => []
  | some e => 'e' :: (if e < 0 then '-' else '+') :: (Numeral.text 10 e.natAbs).toList

def text (n : Literal) : List Char :=
  (if n.negative then ['-'] else []) ++ (Numeral.text 10 n.whole).toList ++
    (if n.fraction = [] then [] else '.' :: n.fraction.map Numeral.decimalDigit) ++
    exponentText n.exponent

end Literal

end DigestFilter.Decimal
