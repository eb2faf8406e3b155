import DigestFilter.Bytes.Hex
import DigestFilter.Decimal.Shortest
import DigestFilter.Filter.Basic

/-!
# Filters as text

A bitmap is written in base 16 or base 2. In base 2 the digits of each byte run from its most
significant bit down, so bit `i` stands at `8 * (i / 8) + 7 - i % 8`.
-/

namespace DigestFilter.Filter

def bitDigits (b : UInt8) : List Char :=
  (List.range 8).map fun k => if b.toNat.testBit (7 - k) then '1' else '0'

def toRadix (f : Filter) (base : Nat) : Except Error String :=
  match base with
  | 16 => .ok (String.ofList (Hex.encode f.bitmap))
  | 2 => .ok (String.ofList (f.bitmap.flatMap bitDigits))
  | _ => .error (.argument (.unknownRadix base))

/-- A share has no exponent from 0.0001 on, and is rounded up where two last digits would do. -/
def spaceStyle : Decimal.Style := ⟨-4, 16, .up⟩

def describe (f : Filter) : String :=
  let space := String.ofList (Decimal.Literal.ofDouble spaceStyle f.space).text
  s!"Filter \x7b bytesize: {f.size}, space: {space}, frozen: {f.frozen} \x7d"

end DigestFilter.Filter
