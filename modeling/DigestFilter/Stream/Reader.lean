import DigestFilter.Stream.Source

/-!
# Readers

A reader is asked for bytes call by call. One call hands over some of the next bytes, or reports an
interruption, or fails because the device did. `Reader.take` calls until it has what was wanted or
the bytes have ended; interrupted calls are repeated.
-/

namespace DigestFilter

/-- The outcome of one call. No bytes at all means the end. -/
inductive Delivery where
  | interrupted
  | failed (fault : DeviceFault)
  | bytes (bs : List UInt8)

class Reader (ρ : Type) where
  call : Nat → ρ → Delivery × ρ
  /-- Bounds the interruptions that come before the next other outcome. -/
  patience : Nat → ρ → Nat
  patience_lt {want : Nat} {r r' : ρ} :
    call want r = (.interrupted, r') → patience want r' < patience want r

namespace Reader

variable {ρ : Type} [Reader ρ]

/-- Calls for `want` more bytes; `got` holds what came before, the last byte first. -/
def takeOnto (got : List UInt8) (want : Nat) (r : ρ) : Except DeviceFault (List UInt8) × ρ :=
  if _hw : want = 0 then (.ok got.reverse, r)
  else
    match _h : call want r with
    | (.interrupted, r') => takeOnto got want r'
    | (.failed fault, r') => (.error fault, r')
    | (.bytes [], r') => (.ok got.reverse, r')
    | (.bytes (b :: bs), r') =>
      takeOnto ((b :: bs).reverse ++ got) (want - (bs.length + 1)) r'
termination_by (want, patience want r)
decreasing_by
  · exact Prod.Lex.right _ (patience_lt _h)
  · exact Prod.Lex.left _ _ (by omega)

def take (want : Nat) (r : ρ) : Except DeviceFault (List UInt8) × ρ := takeOnto [] want r

variable {got bs : List UInt8} {b : UInt8} {want : Nat} {r r' : ρ} {fault : DeviceFault}

@[simp] theorem takeOnto_zero (got : List UInt8) (r : ρ) :
    takeOnto got 0 r = (.ok got.reverse, r) := by
  rw [takeOnto, dif_pos rfl]

theorem takeOnto_of_interrupted (hwant : want ≠ 0) (h : call want r = (.interrupted, r')) :
    takeOnto got want r = takeOnto got want r' := by
  rw [takeOnto, dif_neg hwant]
  split <;> simp_all

theorem takeOnto_of_failed (hwant : want ≠ 0) (h : call want r = (.failed fault, r')) :
    takeOnto got want r = (.error fault, r') := by
  rw [takeOnto, dif_neg hwant]
  split <;> simp_all

theorem takeOnto_of_end (hwant : want ≠ 0) (h : call want r = (.bytes [], r')) :
    takeOnto got want r = (.ok got.reverse, r') := by
  rw [takeOnto, dif_neg hwant]
  split <;> simp_all

theorem takeOnto_of_bytes (hwant : want ≠ 0) (h : call want r = (.bytes (b :: bs), r')) :
    takeOnto got want r = takeOnto ((b :: bs).reverse ++ got) (want - (bs.length + 1)) r' := by
  rw [takeOnto, dif_neg hwant]
  split <;> simp_all

instance : Source ρ where
  take := take

end Reader

end DigestFilter
