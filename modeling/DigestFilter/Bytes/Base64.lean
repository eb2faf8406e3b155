/-!
# Base64

The standard alphabet, four characters for three bytes, padded with `=`.
-/

namespace DigestFilter.Base64

def alphabet : List Char :=
  "ABCDEFGHIJKLMNOPQRSTUVWXYZabcdefghijklmnopqrstuvwxyz0123456789+/".toList

def digit (n : Nat) : Char := alphabet.getD (n % 64) 'A'

/-- The 24 bits of three bytes as four digits, the highest first. -/
def quartet (a b c : UInt8) : List Char :=
  let bits := 65536 * a.toNat + 256 * b.toNat + c.toNat
  [digit (bits / 262144), digit (bits / 4096), digit (bits / 64), digit bits]

/-- Three bytes at a time. Digits that hold no bit of the last bytes are written as padding. -/
def encode : List UInt8 → List Char
  | [] => []
  | [a] => (quartet a 0 0).take 2 ++ ['=', '=']
  | [a, b] => (quartet a b 0).take 3 ++ ['=']
  | a :: b :: c :: rest => quartet a b c ++ encode rest

theorem length_encode (bs : List UInt8) : (encode bs).length = 4 * ((bs.length + 2) / 3) := by
  induction bs using encode.induct with
  | case1 => rfl
  | case2 a => simp [encode, quartet]
  | case3 a b => simp [encode, quartet]
  | case4 a b c rest ih => simp [encode, quartet, ih]; omega

end DigestFilter.Base64
