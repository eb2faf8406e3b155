import DigestFilter.Bitmap
import DigestFilter.Error
import DigestFilter.Hashed

/-!
# Bloom filters

A filter is a bitmap of fixed size. Every hash code of an inserted element sets the bit at that
code modulo the number of bits, and an element may be present when the bits of all its codes are
set. So a filter forgets nothing, but it can claim too much. Like identifiers, filters can be
frozen, which is noticed before anything else.
-/

namespace DigestFilter

@[ext]
structure Filter where
  bitmap : List UInt8
  frozen : Bool := false
  bitmap_ne_nil : bitmap ≠ []

namespace Filter

/-! ## Making filters -/

def defaultSize : Nat := 4096

def ofBytes (bs : List UInt8) : Except Error Filter :=
  if h : bs = [] then .error (.argument .emptyBitmap)
  else .ok { bitmap := bs, bitmap_ne_nil := h }

def empty (size : Nat) : Except Error Filter := ofBytes (List.replicate size 0)

instance : Inhabited Filter where
  default := {
    bitmap := List.replicate defaultSize 0
    bitmap_ne_nil := mt (List.replicate_eq_nil_iff 0).1 (by decide) }

/-! ## Looking at filters -/

variable (f : Filter)

/-- The size in bytes. -/
def size : Nat := f.bitmap.length

def bitSize : Nat := 8 * f.size

def get? (index : Nat) : Option Bool := Bitmap.get? f.bitmap index

def position (code : UInt32) : Nat := code.toNat % f.bitSize

def hasCode (code : UInt32) : Bool := f.get? (f.position code) == some true

/-- Whether an element may have been inserted. A `false` is certain. -/
def contains {α : Type} [Hashed α] (x : α) : Bool := (hashes x).all f.hasCode

def count {α : Type} [Hashed α] (x : α) : Nat := if f.contains x then 1 else 0

def isEmpty : Bool := f.bitmap.all (· == 0)

def zeroCount : Nat := Bitmap.zeroCount f.bitmap

def space : Float := Float.ofNat f.zeroCount / Float.ofNat f.bitSize

/-- Equal bitmaps make equal filters, frozen or not. -/
instance : BEq Filter where
  beq f g := f.bitmap == g.bitmap

/-! ## Changing filters -/

theorem length_foldl_put (bits : List Nat) (bs : List UInt8) :
    (bits.foldl (fun bs i => Bitmap.put true i bs) bs).length = bs.length := by
  induction bits generalizing bs with
  | nil => rfl
  | cons i rest ih => simp [ih]

theorem ne_nil_of_length_eq {bs cs : List UInt8} (h : cs.length = bs.length) (hbs : bs ≠ []) :
    cs ≠ [] := by
  intro hcs
  rw [hcs] at h
  exact hbs (List.length_eq_zero_iff.1 h.symm)

def setBits (bits : List Nat) : Filter :=
  { f with
    bitmap := bits.foldl (fun bs i => Bitmap.put true i bs) f.bitmap
    bitmap_ne_nil := ne_nil_of_length_eq (length_foldl_put _ _) f.bitmap_ne_nil }

def insert {α : Type} [Hashed α] (x : α) : Except Error Filter :=
  if f.frozen then .error (.frozen .filter)
  else .ok (f.setBits ((hashes x).map f.position))

def insertAll {α : Type} [Hashed α] (xs : List α) : Except Error Filter :=
  xs.foldlM (fun f x => f.insert x) f

def set (index : Nat) (value : Bool) : Except Error Filter :=
  if f.frozen then .error (.frozen .filter)
  else if f.bitSize ≤ index then .error (.outOfBounds index f.bitSize)
  else .ok { f with
    bitmap := Bitmap.put value index f.bitmap
    bitmap_ne_nil := ne_nil_of_length_eq (Bitmap.length_put _ _ _) f.bitmap_ne_nil }

/-- Sets or clears a bit and answers with its new value. -/
def assign (index : Nat) (value : Bool) : Except Error (Bool × Filter) := do
  return (value, ← f.set index value)

def clear : Except Error Filter :=
  if f.frozen then .error (.frozen .filter)
  else .ok { f with
    bitmap := f.bitmap.map fun _ => 0
    bitmap_ne_nil := by simpa using f.bitmap_ne_nil }

def freeze : Filter := { f with frozen := true }

def thawed : Filter := { f with frozen := false }

/-- Where no size is asked for there is a byte per element, and at least one. -/
def ofElements {α : Type} [Hashed α] (xs : List α) (size : Option Nat) : Except Error Filter := do
  (← empty (size.getD (max 1 xs.length))).insertAll xs

/-! ## Small facts -/

theorem ofBytes_eq_ok_iff {bs : List UInt8} {g : Filter} :
    ofBytes bs = .ok g ↔ g.bitmap = bs ∧ g.frozen = false := by
  rcases g with ⟨d, b, hd⟩
  unfold ofBytes
  split
  · next h => subst h; simp [hd]
  · next h => simp [eq_comm]

theorem size_pos : 0 < f.size := List.length_pos_iff.2 f.bitmap_ne_nil

theorem position_lt (code : UInt32) : f.position code < f.bitSize :=
  Nat.mod_lt _ (by have := f.size_pos; simp only [bitSize]; omega)

@[simp] theorem size_setBits (bits : List Nat) : (f.setBits bits).size = f.size :=
  length_foldl_put _ _

theorem get?_foldl_put (bits : List Nat) (bs : List UInt8) (j : Nat) :
    Bitmap.get? (bits.foldl (fun bs i => Bitmap.put true i bs) bs) j =
      if j ∈ bits then (Bitmap.get? bs j).map fun _ => true else Bitmap.get? bs j := by
  induction bits generalizing bs with
  | nil => simp
  | cons i rest ih =>
    rw [List.foldl_cons, ih, Bitmap.get?_put]
    by_cases hi : i = j
    · subst hi
      by_cases hr : i ∈ rest <;> simp [hr, Option.map_map, Function.comp_def]
    · have : (j ∈ i :: rest) ↔ j ∈ rest := by simp [Ne.symm hi]
      simp [hi, this]

theorem get?_setBits (bits : List Nat) (j : Nat) :
    (f.setBits bits).get? j = if j ∈ bits then (f.get? j).map fun _ => true else f.get? j :=
  get?_foldl_put _ _ _

end Filter

end DigestFilter
