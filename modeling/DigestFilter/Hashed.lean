/-!
# Hash codes

What a filter needs of an element: a fixed list of 32-bit hash codes, the same ones every time.
-/

namespace DigestFilter

class Hashed (α : Type) where
  hashes : α → List UInt32

export Hashed (hashes)

/-- A bare list of hash codes is an element of its own. -/
instance : Hashed (List UInt32) where
  hashes codes := codes

end DigestFilter
