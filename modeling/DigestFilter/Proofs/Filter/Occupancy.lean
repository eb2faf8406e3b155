import Mathlib.Data.Nat.Count
import DigestFilter.Proofs.Filter.BooleanRing
import DigestFilter.Proofs.Filter.NoFalseNegatives

/-!
# How full a filter is

The bits that are not set are counted byte by byte. That count is the size of the set `clearBits` of
their indexes, and what an operation does to the count follows from what it does to the set: an
insertion takes the fresh positions of its codes away, and merges intersect and unite.
-/

namespace DigestFilter

namespace Bitmap

theorem get?_cons_of_lt (b : UInt8) (bs : List UInt8) {i : Nat} (h : i < 8) :
    get? (b :: bs) i = some (b.toNat.testBit i) := by
  simp [get?, Nat.div_eq_of_lt h, Nat.mod_eq_of_lt h]

theorem get?_cons_add (b : UInt8) (bs : List UInt8) (i : Nat) :
    get? (b :: bs) (8 + i) = get? bs i := by
  unfold get?
  rw [show (8 + i) / 8 = i / 8 + 1 by omega, List.getElem?_cons_succ, Nat.add_mod_left]

theorem zeroCount_eq_count (bs : List UInt8) :
    zeroCount bs = Nat.count (fun i => get? bs i = some false) (8 * bs.length) := by
  induction bs with
  | nil => rfl
  | cons b bs ih =>
    have hbyte : zeroBits b = Nat.count (fun i => get? (b :: bs) i = some false) 8 := by
      unfold zeroBits Nat.count
      apply List.countP_congr
      intro i hi
      simp [get?_cons_of_lt b bs (List.mem_range.1 hi)]
    have hcons : zeroCount (b :: bs) = zeroBits b + zeroCount bs := rfl
    rw [hcons, ih, hbyte, List.length_cons, Nat.mul_succ, Nat.add_comm _ 8, Nat.count_add]
    simp only [get?_cons_add]

theorem forall_eq_zero_iff {bs : List UInt8} :
    (∀ b ∈ bs, b = 0) ↔ ∀ i < 8 * bs.length, get? bs i = some false := by
  constructor
  · intro h i hi
    have hlt : i / 8 < bs.length := by omega
    have hzero : bs[i / 8] = 0 := h _ (List.getElem_mem hlt)
    simp [get?, hlt, hzero]
  · intro h b hb
    obtain ⟨j, hj, rfl⟩ := List.getElem_of_mem hb
    apply byte_ext
    intro k hk
    have hbit := h (8 * j + k) (by omega)
    rw [get?_byte bs j hk, List.getElem?_eq_getElem hj] at hbit
    simpa using hbit

end Bitmap

namespace Filter

variable {α : Type} [Hashed α] {x : α} {f g m : Filter} {i : Nat}

/-! ## The bits that are not set -/

def clearBits (f : Filter) : Finset Nat :=
  (Finset.range f.bitSize).filter fun i => f.get? i = some false

theorem mem_clearBits : i ∈ f.clearBits ↔ f.get? i = some false := by
  unfold clearBits
  rw [Finset.mem_filter, Finset.mem_range, ← f.isSome_get?_iff]
  constructor
  · exact And.right
  · intro h
    exact ⟨by rw [h]; rfl, h⟩

theorem zeroCount_eq_card (f : Filter) : f.zeroCount = f.clearBits.card := by
  unfold zeroCount clearBits
  rw [Bitmap.zeroCount_eq_count, Nat.count_eq_card_filter_range]
  rfl

theorem zeroCount_le (f : Filter) : f.zeroCount ≤ f.bitSize := by
  have hle := Finset.card_filter_le (Finset.range f.bitSize) fun i => f.get? i = some false
  rw [zeroCount_eq_card]
  rwa [Finset.card_range] at hle

theorem isEmpty_iff_zeroCount : f.isEmpty = true ↔ f.zeroCount = f.bitSize := by
  have hall : f.isEmpty = true ↔ ∀ i ∈ Finset.range f.bitSize, f.get? i = some false := by
    simp only [isEmpty, List.all_eq_true, beq_iff_eq, Finset.mem_range]
    exact Bitmap.forall_eq_zero_iff
  rw [hall, ← Finset.card_filter_eq_iff, Finset.card_range, zeroCount_eq_card]
  rfl

/-! ## Insertion -/

/-- The bits that an insertion would set for the first time. -/
def freshBits (f : Filter) (codes : List UInt32) : Finset Nat :=
  (codes.map f.position).toFinset.filter fun i => f.get? i = some false

theorem card_freshBits_le (f : Filter) (codes : List UInt32) :
    (f.freshBits codes).card ≤ codes.length := by
  calc (f.freshBits codes).card
      ≤ (codes.map f.position).toFinset.card := Finset.card_filter_le _ _
    _ ≤ (codes.map f.position).length := List.toFinset_card_le _
    _ = codes.length := List.length_map _

theorem clearBits_setBits (codes : List UInt32) :
    (f.setBits (codes.map f.position)).clearBits = f.clearBits \ f.freshBits codes := by
  ext i
  rw [Finset.mem_sdiff, mem_clearBits, mem_clearBits, get?_setBits, freshBits, Finset.mem_filter,
    List.mem_toFinset]
  by_cases hi : i ∈ codes.map f.position
  · cases f.get? i <;> simp [hi]
  · simp [hi]

theorem zeroCount_setBits (f : Filter) (codes : List UInt32) :
    (f.setBits (codes.map f.position)).zeroCount + (f.freshBits codes).card = f.zeroCount := by
  have hsub : f.freshBits codes ⊆ f.clearBits := by
    intro i hi
    exact mem_clearBits.2 (Finset.mem_filter.1 hi).2
  rw [zeroCount_eq_card, zeroCount_eq_card, clearBits_setBits,
    Finset.card_sdiff_add_card_eq_card hsub]

theorem freshBits_eq_empty_iff : f.freshBits (hashes x) = ∅ ↔ f.contains x = true := by
  rw [contains_iff, freshBits, Finset.filter_eq_empty_iff]
  simp only [List.mem_toFinset, List.forall_mem_map]
  refine forall₂_congr fun code _ => ?_
  obtain ⟨b, hb⟩ := Option.isSome_iff_exists.1 (f.isSome_get?_iff.2 (f.position_lt code))
  have hpos : f.get? (code.toNat % (8 * f.size)) = some b := hb
  rw [hb, hpos]
  cases b <;> simp

theorem zeroCount_insert (h : f.insert x = .ok g) :
    g.zeroCount + (f.freshBits (hashes x)).card = f.zeroCount := by
  rw [(of_insert_eq_ok h).2]
  exact f.zeroCount_setBits (hashes x)

theorem zeroCount_insert_eq_iff (h : f.insert x = .ok g) :
    g.zeroCount = f.zeroCount ↔ f.contains x = true := by
  have hcount := zeroCount_insert h
  rw [← freshBits_eq_empty_iff, ← Finset.card_eq_zero]
  omega

theorem bitSize_le_of_insertAll {xs : List α} (hf : f.isEmpty = true)
    (h : f.insertAll xs = .ok g) (hthawed : f.frozen = false) :
    f.bitSize ≤ g.zeroCount + (codes xs).length := by
  rw [f.insertAll_of_thawed hthawed, Except.ok.injEq] at h
  have hcount := f.zeroCount_setBits (codes xs)
  have hfresh := f.card_freshBits_le (codes xs)
  rw [← h, ← isEmpty_iff_zeroCount.1 hf]
  omega

/-! ## Merges -/

theorem mem_clearBits_iff : i ∈ f.clearBits ↔ i < f.bitSize ∧ f.bitAt i = false := by
  rw [mem_clearBits, ← f.isSome_get?_iff, bitAt]
  cases f.get? i with
  | none => simp
  | some b => simp

theorem mem_clearBits_merge {op : MergeOp} (hsize : f.size = g.size) (h : f.merge g op = .ok m) :
    i ∈ m.clearBits ↔ i < f.bitSize ∧ op.bit (f.bitAt i) (g.bitAt i) = false := by
  obtain ⟨m', hm', hmsize, -, hbits⟩ :=
    (yields_thawed (f := f) rfl).merge (yields_thawed hsize.symm) op
  cases h.symm.trans hm'
  have hbitSize : m.bitSize = f.bitSize := by rw [bitSize, bitSize, hmsize]
  rw [mem_clearBits_iff, hbitSize]
  refine and_congr_right fun hi => ?_
  rw [bitAt, hbits i hi]
  simp

theorem clearBits_or (hsize : f.size = g.size) (h : f.or g = .ok m) :
    m.clearBits = f.clearBits ∩ g.clearBits := by
  ext i
  rw [mem_clearBits_merge hsize h, Finset.mem_inter, mem_clearBits_iff, mem_clearBits_iff, bitSize,
    bitSize, ← hsize]
  simp only [MergeOp.bit, Bool.or_eq_false_iff]
  tauto

theorem clearBits_and (hsize : f.size = g.size) (h : f.and g = .ok m) :
    m.clearBits = f.clearBits ∪ g.clearBits := by
  ext i
  rw [mem_clearBits_merge hsize h, Finset.mem_union, mem_clearBits_iff, mem_clearBits_iff, bitSize,
    bitSize, ← hsize]
  simp only [MergeOp.bit, Bool.and_eq_false_iff]
  tauto

theorem clearBits_xor (hsize : f.size = g.size) (h : f.xor g = .ok m) :
    m.clearBits = Finset.range f.bitSize \
      ((f.clearBits ∪ g.clearBits) \ (f.clearBits ∩ g.clearBits)) := by
  ext i
  rw [mem_clearBits_merge hsize h, Finset.mem_sdiff, Finset.mem_sdiff, Finset.mem_union,
    Finset.mem_inter, Finset.mem_range, mem_clearBits_iff, mem_clearBits_iff, bitSize, bitSize,
    ← hsize]
  refine and_congr_right fun hi => ?_
  simp only [MergeOp.bit, hi]
  cases f.bitAt i <;> cases g.bitAt i <;> simp

theorem zeroCount_or_add_and {union inter : Filter} (hsize : f.size = g.size)
    (hunion : f.or g = .ok union) (hinter : f.and g = .ok inter) :
    union.zeroCount + inter.zeroCount = f.zeroCount + g.zeroCount := by
  simp only [zeroCount_eq_card]
  rw [clearBits_or hsize hunion, clearBits_and hsize hinter, Nat.add_comm]
  exact Finset.card_union_add_card_inter _ _

theorem zeroCount_xor_add_and {union inter differ : Filter} (hsize : f.size = g.size)
    (hunion : f.or g = .ok union) (hinter : f.and g = .ok inter) (hdiffer : f.xor g = .ok differ) :
    differ.zeroCount + inter.zeroCount = f.bitSize + union.zeroCount := by
  have hrange : (f.clearBits ∪ g.clearBits) \ (f.clearBits ∩ g.clearBits) ⊆
      Finset.range f.bitSize := by
    intro i hi
    rw [← clearBits_and hsize hinter] at hi
    exact Finset.mem_range.2 ((mem_clearBits_merge hsize hinter).1 (Finset.mem_sdiff.1 hi).1).1
  have hwhole := Finset.card_sdiff_add_card_eq_card hrange
  have hboth := Finset.card_sdiff_add_card_eq_card
    (Finset.inter_subset_union (s := f.clearBits) (t := g.clearBits))
  rw [Finset.card_range] at hwhole
  simp only [zeroCount_eq_card]
  rw [clearBits_or hsize hunion, clearBits_and hsize hinter, clearBits_xor hsize hdiffer]
  omega

/-- The bits that are not set are counted exactly. -/
theorem zeroCount_is_exact :
    (∀ (α : Type) [Hashed α] (f : Filter) (x : α), f.frozen = false →
      ∃ g, f.insert x = .ok g ∧
        g.zeroCount + (((hashes x).map fun code => code.toNat % f.bitSize).toFinset.filter
          fun i => f.get? i = some false).card = f.zeroCount ∧
        f.zeroCount ≤ g.zeroCount + (hashes x).length ∧
        (g.zeroCount = f.zeroCount ↔ f.contains x = true)) ∧
    (∀ (α : Type) [Hashed α] (f : Filter) (xs : List α), f.frozen = false → f.isEmpty = true →
      ∃ g, f.insertAll xs = .ok g ∧ f.bitSize ≤ g.zeroCount + (xs.flatMap hashes).length) ∧
    (∀ f g : Filter, f.size = g.size → ∃ union inter differ,
      f.or g = .ok union ∧ f.and g = .ok inter ∧ f.xor g = .ok differ ∧
      union.zeroCount + inter.zeroCount = f.zeroCount + g.zeroCount ∧
      differ.zeroCount = f.bitSize - inter.zeroCount + union.zeroCount) ∧
    (∀ f : Filter, f.isEmpty = true ↔ f.zeroCount = f.bitSize) := by
  refine ⟨?_, ?_, ?_, fun f => isEmpty_iff_zeroCount⟩
  · intro α _ f x hthawed
    have h := f.insert_of_thawed hthawed x
    have hcount := zeroCount_insert h
    have hfresh := f.card_freshBits_le (hashes x)
    exact ⟨_, h, hcount, by omega, zeroCount_insert_eq_iff h⟩
  · intro α _ f xs hthawed hempty
    have h := f.insertAll_of_thawed hthawed xs
    exact ⟨_, h, bitSize_le_of_insertAll hempty h hthawed⟩
  · intro f g hsize
    obtain ⟨union, hunion⟩ := merge_of_size_eq hsize .or
    obtain ⟨inter, hinter⟩ := merge_of_size_eq hsize .and
    obtain ⟨differ, hdiffer⟩ := merge_of_size_eq hsize .xor
    have hsum := zeroCount_xor_add_and hsize hunion hinter hdiffer
    have hinterSize : inter.size = f.size := size_merge hinter
    have hle : inter.zeroCount ≤ f.bitSize := by
      rw [bitSize, ← hinterSize]
      exact inter.zeroCount_le
    exact ⟨union, inter, differ, hunion, hinter, hdiffer,
      zeroCount_or_add_and hsize hunion hinter, by omega⟩

def fourCodes : List UInt32 := [9, 1, 2, 11]

theorem zeroCount_is_exact_fourCodes :
    (eightBits.frozen = false ∧ eightBits.zeroCount = 7 ∧
      ∃ g, eightBits.insert fourCodes = .ok g ∧ g.zeroCount + 2 = 7 ∧ ¬ g.zeroCount = 7) ∧
    (clearRow.frozen = false ∧ clearRow.isEmpty = true ∧
      ∃ g, clearRow.insertAll [fourCodes, []] = .ok g ∧ 16 ≤ g.zeroCount + 4) ∧
    (lowRow.size = midRow.size ∧ ∃ union inter differ, lowRow.or midRow = .ok union ∧
      lowRow.and midRow = .ok inter ∧ lowRow.xor midRow = .ok differ ∧
      union.zeroCount + inter.zeroCount = 16 ∧
      differ.zeroCount = 16 - inter.zeroCount + union.zeroCount) := by
  obtain ⟨hinsert, hinsertAll, hmerge, -⟩ := zeroCount_is_exact
  obtain ⟨g, hg, hcount, -, hsame⟩ := hinsert (List UInt32) eightBits fourCodes rfl
  obtain ⟨union, inter, differ, hunion, hinter, hdiffer, hsum, hdifference⟩ :=
    hmerge lowRow midRow rfl
  exact ⟨⟨rfl, rfl, g, hg, hcount, mt hsame.1 (by decide)⟩,
    ⟨rfl, rfl, hinsertAll (List UInt32) clearRow [fourCodes, []] rfl rfl⟩,
    ⟨rfl, union, inter, differ, hunion, hinter, hdiffer, hsum, hdifference⟩⟩

end Filter

end DigestFilter
