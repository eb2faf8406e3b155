import DigestFilter.Identifier.Basic

/-!
# Blocks

A block is a piece of content together with the frozen identifier that names it. The content
decides the identifier, so only the content is kept, and blocks are equal when their identifiers
are.
-/

namespace DigestFilter

structure Block where
  content : List UInt8

namespace Block

variable (b : Block)

def id : Identifier := (Identifier.ofContent b.content).freeze

def size : Nat := b.content.length

def isEmpty : Bool := b.content.isEmpty

def isZero : Bool := b.content.all (· == 0)

instance : Hashed Block where
  hashes b := hashes b.id

instance : BEq Block where
  beq a b := a.id == b.id

end Block

end DigestFilter
