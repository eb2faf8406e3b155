import DigestFilter.Bytes.Hex

/-!
# A byte shown in quotes

Messages show a byte as the character with that code, in single quotes. What cannot be printed is
escaped: the usual letters after a backslash, and the code in hexadecimal for the rest.
-/

namespace DigestFilter.Quoted

def isInvisible (code : Nat) : Bool :=
  code < 32 || (127 ≤ code && code ≤ 160) || code == 173

def hexCode (code : Nat) : List Char :=
  if code < 16 then [Hex.digit code] else [Hex.digit (code / 16), Hex.digit (code % 16)]

def escape (code : Nat) : List Char :=
  if code = 0 then ['\\', '0']
  else if code = 9 then ['\\', 't']
  else if code = 10 then ['\\', 'n']
  else if code = 13 then ['\\', 'r']
  else if code = 39 ∨ code = 92 then ['\\', Char.ofNat code]
  else if isInvisible code then ['\\', 'u', '\x7b'] ++ hexCode code ++ ['\x7d']
  else [Char.ofNat code]

def byte (b : UInt8) : String := String.ofList (['\''] ++ escape b.toNat ++ ['\''])

end DigestFilter.Quoted
