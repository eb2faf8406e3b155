import DigestFilter.Bitmap

/-!
# Bitmaps are their bits

A bitmap is determined by what `get?` says of every index, and one of known length by the bits
that are set. So two bitmaps are shown equal bit by bit.
-/

namespace DigestFilter.Bitmap

variable {as bs : List UInt8} {i j k : Nat}

theorem byte_ext {a b : UInt8} (h : ∀ k < 8, a.toNat.testBit k = b.toNat.testBit k) : a = b := by
  apply UInt8.toNat_inj.1
  apply Nat.eq_of_testBit_eq
  intro k
  by_cases hk : k < 8
  · exact h k hk
  · -- A byte has no bits from the eighth on.
    have hpow : 2 ^ 8 ≤ 2 ^ k := Nat.pow_le_pow_right (by decide) (by omega)
    rw [Nat.testBit_lt_two_pow (Nat.lt_of_lt_of_le a.toNat_lt hpow),
      Nat.testBit_lt_two_pow (Nat.lt_of_lt_of_le b.toNat_lt hpow)]

theorem get?_byte (bs : List UInt8) (j : Nat) (hk : k < 8) :
    get? bs (8 * j + k) = bs[j]?.map (·.toNat.testBit k) := by
  rw [get?, show (8 * j + k) / 8 = j by omega, show (8 * j + k) % 8 = k by omega]

theorem ext_get? (h : ∀ i, get? as i = get? bs i) : as = bs := by
  apply List.ext_getElem?
  intro j
  have hbyte : ∀ k < 8, as[j]?.map (·.toNat.testBit k) = bs[j]?.map (·.toNat.testBit k) := by
    intro k hk
    rw [← get?_byte as j hk, ← get?_byte bs j hk, h]
  cases ha : as[j]? with
  | none =>
    cases hb : bs[j]? with
    | none => rfl
    | some b => simpa [ha, hb] using hbyte 0 (by decide)
  | some a =>
    cases hb : bs[j]? with
    | none => simpa [ha, hb] using hbyte 0 (by decide)
    | some b =>
      congr 1
      apply byte_ext
      intro k hk
      simpa [ha, hb] using hbyte k hk

theorem ext_set (hlen : as.length = bs.length)
    (h : ∀ i, get? as i = some true ↔ get? bs i = some true) : as = bs := by
  apply ext_get?
  intro i
  have hsome : (get? as i).isSome ↔ (get? bs i).isSome := by
    rw [isSome_get?_iff, isSome_get?_iff, hlen]
  have hset := h i
  generalize get? as i = a at hsome hset ⊢
  generalize get? bs i = b at hsome hset ⊢
  rcases a with _ | _ | _ <;> rcases b with _ | _ | _ <;> simp_all

end DigestFilter.Bitmap
