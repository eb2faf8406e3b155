import DigestFilter.Decimal.Literal

/-!
# JSON values

Objects keep their members in the order in which they stand, repeated names included.
-/

namespace DigestFilter

inductive Json where
  | null
  | bool (b : Bool)
  | number (n : Decimal.Literal)
  /-- A string whose escapes spell half of a surrogate pair has no text. -/
  | string (text : Option String)
  | array (items : List Json)
  | object (members : List (Option String × Json))

namespace Json

abbrev Member := Option String × Json

def ofText (text : String) : Json := .string (some text)

def ofNat (n : Nat) : Json := .number (.ofNat n)

def record (members : List (String × Json)) : Json :=
  .object ((members.mergeSort fun a b => decide (a.1 ≤ b.1)).map fun m => (some m.1, m.2))

end Json

end DigestFilter
