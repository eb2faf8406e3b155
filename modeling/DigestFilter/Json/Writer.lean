import DigestFilter.Bytes.Hex
import DigestFilter.Json.Value

/-!
# Writing JSON

`compact` writes a value without blanks, `pretty` with one item or member a line and two blanks of
indentation a level. Characters outside ASCII are written as they are.
-/

namespace DigestFilter.Json

def escapeChar (c : Char) : List Char :=
  if c = '\x22' then ['\\', '\x22']
  else if c = '\\' then ['\\', '\\']
  else if c = '\x08' then ['\\', 'b']
  else if c = '\x0c' then ['\\', 'f']
  else if c = '\n' then ['\\', 'n']
  else if c = '\r' then ['\\', 'r']
  else if c = '\t' then ['\\', 't']
  else if c.toNat < 32 then
    ['\\', 'u', '0', '0', Hex.digit (c.toNat / 16), Hex.digit (c.toNat % 16)]
  else [c]

/-- A string without a text has no written form of its own and is left empty. -/
def quote (text : Option String) : List Char :=
  ['\x22'] ++ (text.getD "").toList.flatMap escapeChar ++ ['\x22']

def boolText (b : Bool) : List Char := (if b then "true" else "false").toList

mutual

def compactChars : Json → List Char
  | .null => "null".toList
  | .bool b => boolText b
  | .number n => n.text
  | .string text => quote text
  | .array [] => "[]".toList
  | .array (v :: vs) => ['['] ++ compactChars v ++ compactItems vs ++ [']']
  | .object [] => ['\x7b', '\x7d']
  | .object ((name, v) :: ms) =>
    ['\x7b'] ++ quote name ++ [':'] ++ compactChars v ++ compactMembers ms ++ ['\x7d']

def compactItems : List Json → List Char
  | [] => []
  | v :: vs => [','] ++ compactChars v ++ compactItems vs

def compactMembers : List (Option String × Json) → List Char
  | [] => []
  | (name, v) :: ms => [','] ++ quote name ++ [':'] ++ compactChars v ++ compactMembers ms

end

def newline (depth : Nat) : List Char := '\n' :: List.replicate (2 * depth) ' '

mutual

def prettyChars (depth : Nat) : Json → List Char
  | .null => "null".toList
  | .bool b => boolText b
  | .number n => n.text
  | .string text => quote text
  | .array [] => "[]".toList
  | .array (v :: vs) =>
    ['['] ++ newline (depth + 1) ++ prettyChars (depth + 1) v ++ prettyItems (depth + 1) vs ++
      newline depth ++ [']']
  | .object [] => ['\x7b', '\x7d']
  | .object ((name, v) :: ms) =>
    ['\x7b'] ++ newline (depth + 1) ++ quote name ++ [':', ' '] ++ prettyChars (depth + 1) v ++
      prettyMembers (depth + 1) ms ++ newline depth ++ ['\x7d']

def prettyItems (depth : Nat) : List Json → List Char
  | [] => []
  | v :: vs => [','] ++ newline depth ++ prettyChars depth v ++ prettyItems depth vs

def prettyMembers (depth : Nat) : List (Option String × Json) → List Char
  | [] => []
  | (name, v) :: ms =>
    [','] ++ newline depth ++ quote name ++ [':', ' '] ++ prettyChars depth v ++
      prettyMembers depth ms

end

def compact (v : Json) : String := String.ofList (compactChars v)

def pretty (v : Json) : String := String.ofList (prettyChars 0 v)

end DigestFilter.Json
