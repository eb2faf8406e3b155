import DigestFilter.Error

/-!
# Digit alphabets

A numeral can be spelled with any alphabet of distinct ASCII characters, one for each digit. Three
alphabets have names: `base16`, `base62` and `base94`. `encode` writes the canonical numeral of a
number and `decode` reads any string over the alphabet.
-/

namespace DigestFilter

structure Alphabet where
  name : String
  digits : List Char
  two_le_length : 2 ≤ digits.length
  nodup : digits.Nodup
  isAscii : digits.all (·.toNat < 128)

namespace Alphabet

def base16 : Alphabet where
  name := "base16"
  digits := "0123456789abcdef".toList
  two_le_length := by decide
  nodup := by decide +kernel
  isAscii := by decide +kernel

def base62 : Alphabet where
  name := "base62"
  digits := "0123456789ABCDEFGHIJKLMNOPQRSTUVWXYZabcdefghijklmnopqrstuvwxyz".toList
  two_le_length := by decide
  nodup := by decide +kernel
  isAscii := by decide +kernel

def base94 : Alphabet where
  name := "base94"
  digits := (List.range 94).map fun i => Char.ofNat (33 + i)
  two_le_length := by simp
  nodup := by decide +kernel
  isAscii := by decide +kernel

def ofBase (base : Nat) : Except Error Alphabet :=
  match base with
  | 16 => .ok base16
  | 62 => .ok base62
  | 94 => .ok base94
  | _ => .error (.argument (.unknownAlphabet base))

variable (a : Alphabet)

theorem toNat_lt {c : Char} (h : c ∈ a.digits) : c.toNat < 128 := by
  simpa using List.all_eq_true.1 a.isAscii c h

def base : Nat := a.digits.length

def digit (d : Nat) : Char := a.digits.getD d '0'

def digitValue? (b : UInt8) : Option Nat := a.digits.findIdx? fun c => c.toNat == b.toNat

def accepts (text : String) : Bool :=
  text != "" && (Utf8.encode text).all fun b => (a.digitValue? b).isSome

def encode (n : Nat) : String := String.ofList ((Numeral.digits a.base n).map a.digit)

def digitValues : List UInt8 → Except UInt8 (List Nat)
  | [] => .ok []
  | b :: rest =>
    match a.digitValue? b with
    | none => .error b
    | some d => (digitValues rest).map (d :: ·)

def decode (text : String) : Except Error Nat :=
  if text = "" then .error (.format (.emptyNumeral a.name))
  else
    match a.digitValues (Utf8.encode text) with
    | .error b => .error (.format (.foreignDigit a.name b text))
    | .ok ds =>
      match Numeral.ofDigits? a.base ds with
      | none => .error (.format (.badNumeral a.name text))
      | some n => .ok n

end Alphabet

end DigestFilter
