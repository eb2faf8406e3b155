import DigestFilter.Error

/-!
# Where bytes are read from

A decoder asks its input for one thing: up to `n` of the next bytes. A shorter answer means that
the input has ended. Bytes in memory are the plainest source.
-/

namespace DigestFilter

class Source (σ : Type) where
  /-- Up to `n` of the next bytes, and what is left of the source. -/
  take : Nat → σ → Except DeviceFault (List UInt8) × σ

instance : Source (List UInt8) where
  take n bs := (.ok (bs.take n), bs.drop n)

theorem Source.take_bytes (n : Nat) (bs : List UInt8) :
    Source.take n bs = (.ok (bs.take n), bs.drop n) := rfl

end DigestFilter
