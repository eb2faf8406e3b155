import DigestFilter.Bytes.Base64
import DigestFilter.Identifier.Basic
import DigestFilter.Numeral.Alphabet

/-!
# Identifiers as text

The canonical text of an identifier is the hexadecimal form of its digest, which `parse` reads
back. It can also be written in Base64, as a number in bases 2, 8 and 10, or with a digit alphabet;
`decode` reads the last and restores the zero bytes in front.
-/

namespace DigestFilter.Identifier

variable (x : Identifier)

/-! ## Writing -/

def toHex : String := String.ofList (Hex.encode x.digest)

def short : String := String.ofList ((Hex.encode x.digest).take 7)

def describe : String := "Identifier(" ++ x.short ++ ")"

def toBase64 : String := String.ofList (Base64.encode x.digest)

/-- Base 16 keeps every digit; the other bases write the number without leading zeros. -/
def toRadix (base : Nat) : Except Error String :=
  match base with
  | 16 => .ok x.toHex
  | 2 | 8 | 10 => .ok (Numeral.text base x.toNat)
  | _ => .error (.argument (.unknownRadix base))

def encode (a : Alphabet) : String := a.encode x.toNat

instance : ToString Identifier where
  toString := toHex

/-! ## Reading -/

/-- Reads the canonical text, in either case. Fewer than four bytes are refused. -/
def parse (text : String) : Except Error Identifier :=
  if text = "" then .error (.format .emptyIdentifier)
  else if text.utf8ByteSize % 2 ≠ 0 then .error (.format (.oddIdentifier text))
  else
    match Hex.decode (Utf8.encode text) with
    | .error fault => .error (.format (.notHex fault text))
    | .ok bs =>
      if bs.length < minParsedSize then .error (.format (.shortIdentifier bs.length text))
      else ofBytes bs

def bytesOfNat (n : Nat) : List UInt8 := (Numeral.digits 256 n).map UInt8.ofNat

/-- Reads a numeral and fills it up with zero bytes in front, to exactly `size` bytes. -/
def decode (a : Alphabet) (text : String) (size : Nat) : Except Error Identifier := do
  let bs := bytesOfNat (← a.decode text)
  if size < bs.length then .error (.format (.wideNumeral a.name bs.length size))
  else ofBytes (List.replicate (size - bs.length) 0 ++ bs)

end DigestFilter.Identifier
