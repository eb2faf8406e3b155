import DigestFilter.Numeral

/-!
# Positions in documents

A message about a document can end in the place where the fault is, such as ` at line 3 column 7`.
The place is then shown apart from the message, and `drop` gives the message alone. Of two places
in a row it takes off the last.
-/

namespace DigestFilter.Position

/-- What stands in front of the number below 2⁶⁴ that a text ends in, both reversed. -/
def dropNumber? (reversed : List Char) : Option (List Char) := do
  let isDigit (c : Char) := (Numeral.decimalDigit? c).isSome
  let n ← Numeral.ofDecimal? (reversed.takeWhile isDigit).reverse
  if n < UInt64.size then some (reversed.dropWhile isDigit) else none

/-- What stands in front of the words that a text ends in, both from the last character on. -/
def dropWords? (words : String) (reversed : List Char) : Option (List Char) :=
  if words.toList.reverse.isPrefixOf reversed then some (reversed.drop words.length) else none

def drop? (message : String) : Option String := do
  let rest ← dropNumber? message.toList.reverse
  let rest ← dropWords? " column " rest
  let rest ← dropNumber? rest
  let rest ← dropWords? " at line " rest
  return String.ofList rest.reverse

def drop (message : String) : String := (drop? message).getD message

end DigestFilter.Position
