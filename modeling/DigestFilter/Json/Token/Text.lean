import DigestFilter.Bytes.Hex
import DigestFilter.Numeral

/-!
# Strings in JSON

A string is read in two steps: first up to its closing quote, as characters and 16-bit units that
are written as escapes, then as text. Only the second step can fail for half of a surrogate pair,
so a string that is skipped may hold one.
-/

namespace DigestFilter.Json

inductive Piece where
  | char (c : Char)
  | unit (n : Nat)

def hexValue? (c : Char) : Option Nat :=
  if c.toNat < 128 then Hex.digitValue? c.toUInt8 else none

def hexUnit? (a b c d : Char) : Option Nat := do
  return Numeral.value 16 [← hexValue? a, ← hexValue? b, ← hexValue? c, ← hexValue? d]

def shortEscape? : Char → Option Char
  | '\x22' => some '\x22'
  | '\\' => some '\\'
  | '/' => some '/'
  | 'b' => some '\x08'
  | 'f' => some '\x0c'
  | 'n' => some '\n'
  | 'r' => some '\r'
  | 't' => some '\t'
  | _ => none

/-- Reads up to the closing quote; `before` holds what came earlier, the last piece first. -/
def stringPieces? (before : List Piece) : List Char → Option (List Piece × List Char)
  | [] => none
  | '\\' :: 'u' :: a :: b :: c :: d :: rest =>
    match hexUnit? a b c d with
    | some n => stringPieces? (.unit n :: before) rest
    | none => none
  | '\\' :: c :: rest =>
    match shortEscape? c with
    | some e => stringPieces? (.char e :: before) rest
    | none => none
  | c :: rest =>
    if c = '\x22' then some (before.reverse, rest)
    else if c = '\\' ∨ c.toNat < 32 then none
    else stringPieces? (.char c :: before) rest

/-- The halves of a surrogate pair make one character; a half on its own makes none. -/
def textOfPieces? : List Piece → Option (List Char)
  | [] => some []
  | .char c :: rest => (textOfPieces? rest).map (c :: ·)
  | .unit n :: rest =>
    if n < 0xD800 ∨ 0xE000 ≤ n then (textOfPieces? rest).map (Char.ofNat n :: ·)
    else
      match rest with
      | .unit m :: rest' =>
        if n < 0xDC00 ∧ 0xDC00 ≤ m ∧ m < 0xE000 then
          let code := 0x10000 + 1024 * (n - 0xD800) + (m - 0xDC00)
          (textOfPieces? rest').map (Char.ofNat code :: ·)
        else none
      | _ => none

theorem length_lt_of_stringPieces? {before ps : List Piece} {cs rest : List Char}
    (h : stringPieces? before cs = some (ps, rest)) : rest.length < cs.length := by
  fun_induction stringPieces? before cs with
  | case1 | case3 | case5 | case7 => simp at h
  | case2 _ _ _ _ _ _ _ _ ih | case4 _ _ _ _ _ _ ih | case8 _ _ _ _ _ _ _ ih =>
    have := ih h
    simp only [List.length_cons]
    omega
  | case6 => simp_all

end DigestFilter.Json
