/-!
# Bitmaps

A list of bytes as a row of bits: bit `i` is bit `i % 8` of byte `i / 8`, counted from the least
significant. `get?` is the view of a bitmap, and `length_put` and `get?_put` say what changing a
bit does to it.
-/

namespace DigestFilter.Bitmap

/-- The byte with the one bit `k`. -/
def mask (k : Nat) : UInt8 := UInt8.ofNat (1 <<< k)

def get? (bs : List UInt8) (i : Nat) : Option Bool := bs[i / 8]?.map (·.toNat.testBit (i % 8))

def putBit (v : Bool) (k : Nat) (b : UInt8) : UInt8 :=
  if v then b ||| mask k else b &&& ~~~mask k

/-- Sets or clears bit `i`, where there is one. -/
def put (v : Bool) (i : Nat) (bs : List UInt8) : List UInt8 := bs.modify (i / 8) (putBit v (i % 8))

def zeroBits (b : UInt8) : Nat := (List.range 8).countP fun k => !b.toNat.testBit k

def zeroCount (bs : List UInt8) : Nat := (bs.map zeroBits).foldr (· + ·) 0

/-! ## What changing a bit does -/

@[simp] theorem length_put (v : Bool) (i : Nat) (bs : List UInt8) :
    (put v i bs).length = bs.length := by
  simp [put]

theorem testBit_mask {k j : Nat} (hk : k < 8) : (mask k).toNat.testBit j = decide (k = j) := by
  have h : (mask k).toNat = 2 ^ k := by
    have : 2 ^ k < 256 := Nat.pow_lt_pow_right (by decide : 1 < 2) hk
    simp [mask, Nat.one_shiftLeft, Nat.mod_eq_of_lt this]
  rw [h, Nat.testBit_two_pow]

theorem testBit_putBit {v : Bool} {k j : Nat} (hk : k < 8) (hj : j < 8) (b : UInt8) :
    (putBit v k b).toNat.testBit j = if k = j then v else b.toNat.testBit j := by
  cases v
  · have hnot : (~~~mask k).toNat.testBit j = !decide (k = j) := by
      have hm := testBit_mask (k := k) (j := j) hk
      rw [← hm, UInt8.toNat_not]
      have : (mask k).toNat < 256 := (mask k).toNat_lt
      rw [show 256 - 1 - (mask k).toNat = 2 ^ 8 - ((mask k).toNat + 1) by omega,
        Nat.testBit_two_pow_sub_succ this]
      simp [hj]
    simp only [putBit, Bool.false_eq_true, if_false, UInt8.toNat_and, Nat.testBit_and, hnot]
    by_cases h : k = j <;> simp [h]
  · simp only [putBit, if_true, UInt8.toNat_or, Nat.testBit_or, testBit_mask hk]
    by_cases h : k = j <;> simp [h]

theorem get?_eq_none_iff {bs : List UInt8} {i : Nat} : get? bs i = none ↔ 8 * bs.length ≤ i := by
  rw [get?, Option.map_eq_none_iff, List.getElem?_eq_none_iff]
  omega

theorem isSome_get?_iff {bs : List UInt8} {i : Nat} : (get? bs i).isSome ↔ i < 8 * bs.length := by
  rw [Option.isSome_iff_ne_none, ne_eq, get?_eq_none_iff, Nat.not_le]

theorem get?_put (v : Bool) (i j : Nat) (bs : List UInt8) :
    get? (put v i bs) j = if i = j then (get? bs j).map fun _ => v else get? bs j := by
  simp only [get?, put, List.getElem?_modify]
  by_cases hb : i / 8 = j / 8
  · simp only [hb, if_true, Option.map_map]
    cases bs[j / 8]? with
    | none => simp
    | some b =>
      have hij : i % 8 = j % 8 ↔ i = j := by omega
      have hbit := testBit_putBit (v := v) (Nat.mod_lt i (by decide : 8 > 0))
        (Nat.mod_lt j (by decide : 8 > 0)) b
      by_cases h : i = j <;> simp_all
  · have : i ≠ j := fun h => hb (by rw [h])
    simp [hb, this]

end DigestFilter.Bitmap
