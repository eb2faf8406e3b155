import DigestFilter.Blake3
import DigestFilter.Error
import DigestFilter.Hashed
import DigestFilter.Numeral

/-!
# Identifiers

An identifier names a block of content by its digest. Its size is fixed when it is made and is
never zero; its bytes can change until it is frozen. A change gives a new identifier or an error:
being frozen is noticed before anything else.
-/

namespace DigestFilter

structure Identifier where
  digest : List UInt8
  frozen : Bool := false
  digest_ne_nil : digest ≠ []

namespace Identifier

/-! ## Making identifiers -/

def ofBytes (bs : List UInt8) : Except Error Identifier :=
  if h : bs = [] then .error (.argument .emptyDigest)
  else .ok { digest := bs, digest_ne_nil := h }

def zeroed (size : Nat) : Except Error Identifier := ofBytes (List.replicate size 0)

/-- The name of some content: its BLAKE3 digest. -/
def ofContent (content : List UInt8) : Identifier where
  digest := Blake3.digest content
  digest_ne_nil := Blake3.digest_ne_nil content

/-! ## Looking at identifiers -/

variable (x : Identifier)

def size : Nat := x.digest.length

def isZero : Bool := x.digest.all (· == 0)

def get? (index : Nat) : Option UInt8 := x.digest[index]?

/-- The digest as an unsigned number, the first byte highest. -/
def toNat : Nat := Numeral.value 256 (x.digest.map UInt8.toNat)

/-- Equal digests make equal identifiers, frozen or not. -/
instance : BEq Identifier where
  beq x y := x.digest == y.digest

theorem beq_iff {x y : Identifier} : (x == y) = true ↔ x.digest = y.digest :=
  beq_iff_eq (a := x.digest) (b := y.digest)

/-- The order of the numbers that two identifiers of one size denote. -/
def compare (x y : Identifier) : Option Ordering :=
  if x.size = y.size then some (Ord.compare x.digest y.digest) else none

/-- Of two identifiers of different sizes neither is before the other. -/
instance : LT Identifier where
  lt x y := x.compare y = some .lt

instance : LE Identifier where
  le x y := (x.compare y).any (·.isLE) = true

instance : DecidableLT Identifier := fun x y =>
  inferInstanceAs (Decidable (x.compare y = some .lt))

instance : DecidableLE Identifier := fun x y =>
  inferInstanceAs (Decidable ((x.compare y).any (·.isLE) = true))

/-! ## Hash codes -/

/-- The hash code of a group of up to four bytes, the first byte lowest. -/
def codeOf (group : List UInt8) : UInt32 := UInt32.ofNat (LittleEndian.value group)

/-- The codes of the whole four-byte groups; what does not fill a group is left out. -/
def groupCodes : List UInt8 → List UInt32
  | a :: b :: c :: d :: rest => codeOf [a, b, c, d] :: groupCodes rest
  | _ => []

/-- The first code. A digest of fewer than four bytes counts as filled up with zeros. -/
def hashCode : UInt32 := codeOf (x.digest.take 4)

instance : Hashed Identifier where
  hashes x := if x.size < 4 then [x.hashCode] else groupCodes x.digest

/-! ## Changing identifiers -/

def set (index : Nat) (byte : UInt8) : Except Error Identifier :=
  if x.frozen then .error (.frozen .identifier)
  else if x.size ≤ index then .error (.outOfBounds index x.size)
  else .ok { x with
    digest := x.digest.set index byte
    digest_ne_nil := by simpa using x.digest_ne_nil }

def fill (byte : UInt8) : Except Error Identifier :=
  if x.frozen then .error (.frozen .identifier)
  else .ok { x with
    digest := x.digest.map fun _ => byte
    digest_ne_nil := by simpa using x.digest_ne_nil }

def clear : Except Error Identifier := x.fill 0

def freeze : Identifier := { x with frozen := true }

def thawed : Identifier := { x with frozen := false }

/-! ## Small facts -/

theorem ofBytes_eq_ok_iff {bs : List UInt8} {y : Identifier} :
    ofBytes bs = .ok y ↔ y.digest = bs ∧ y.frozen = false := by
  rcases y with ⟨d, f, hd⟩
  unfold ofBytes
  split
  · next h => subst h; simp [hd]
  · next h => simp [eq_comm]

theorem size_pos : 0 < x.size := List.length_pos_iff.2 x.digest_ne_nil

/-- Equal keys of a hash table must not differ in their codes. -/
theorem hashCode_eq_of_beq {x y : Identifier} (h : (x == y) = true) : x.hashCode = y.hashCode := by
  rw [hashCode, hashCode, beq_iff.1 h]

theorem hashes_eq (x : Identifier) :
    hashes x = if x.size < 4 then [x.hashCode] else groupCodes x.digest := rfl

theorem hashes_eq_of_digest_eq {x y : Identifier} (h : x.digest = y.digest) :
    hashes x = hashes y := by
  rw [hashes_eq, hashes_eq, size, size, hashCode, hashCode, h]

theorem size_set {x y : Identifier} {index : Nat} {byte : UInt8}
    (h : x.set index byte = .ok y) : y.size = x.size := by
  unfold set at h
  split at h
  · simp at h
  · split at h
    · simp at h
    · injection h with h
      subst h
      simp [size]

theorem size_fill {x y : Identifier} {byte : UInt8} (h : x.fill byte = .ok y) :
    y.size = x.size := by
  unfold fill at h
  split at h
  · simp at h
  · injection h with h
    subst h
    simp [size]

end Identifier

end DigestFilter
