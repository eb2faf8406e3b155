import Mathlib.Data.List.Basic
import DigestFilter.Proofs.Filter.SetAlgebra

/-!
# Filters of a multiple of the size

A code is reduced modulo the number of bits, so what stands at one place of a small filter is spread
over several places of a filter `k` times as large. Put one over the other, the `k` slices of the
large filter give the small one: the large filter answers for nothing that the small one does not.
-/

namespace DigestFilter

namespace Bitmap

variable {c i j k : Nat} {bs s : List UInt8} {slices : List (List UInt8)}

theorem exists_slices (h : bs.length = k * c) :
    ∃ slices : List (List UInt8), slices.length = k ∧ (∀ s ∈ slices, s.length = c) ∧
      slices.flatten = bs := by
  induction k generalizing bs with
  | zero =>
    rw [Nat.zero_mul, List.length_eq_zero_iff] at h
    exact ⟨[], rfl, by simp, h.symm⟩
  | succ k ih =>
    rw [Nat.succ_mul] at h
    have hdrop : (bs.drop c).length = k * c := by simp [h]
    obtain ⟨slices, hk, hlength, hflatten⟩ := ih hdrop
    refine ⟨bs.take c :: slices, by simp [hk], ?_, by simp [hflatten]⟩
    rintro s (_ | ⟨_, hs⟩)
    · simp [h]
    · exact hlength s hs

theorem get?_append_left (h : i < 8 * s.length) : get? (s ++ bs) i = get? s i := by
  unfold get?
  rw [List.getElem?_append_left (by omega)]

theorem get?_append_right (i : Nat) : get? (s ++ bs) (8 * s.length + i) = get? bs i := by
  unfold get?
  rw [List.getElem?_append_right (by omega), Nat.mul_add_mod, Nat.mul_add_div (by decide),
    Nat.add_sub_cancel_left]

theorem exists_get?_flatten (h : ∀ s ∈ slices, s.length = c) :
    (∃ j, j % (8 * c) = i ∧ get? slices.flatten j = some true) ↔
      ∃ s ∈ slices, get? s i = some true := by
  induction slices with
  | nil => simp [get?]
  | cons s slices ih =>
    rw [List.forall_mem_cons] at h
    obtain ⟨hs, hslices⟩ := h
    rw [List.flatten_cons, List.exists_mem_cons_iff, ← ih hslices]
    constructor
    · rintro ⟨j, rfl, hj⟩
      by_cases hlt : j < 8 * c
      · left
        rw [get?_append_left (by omega)] at hj
        rwa [Nat.mod_eq_of_lt hlt]
      · right
        obtain ⟨i, rfl⟩ := Nat.exists_eq_add_of_le (Nat.not_lt.1 hlt)
        rw [← hs, get?_append_right] at hj
        exact ⟨i, by simp, hj⟩
    · rintro (hi | ⟨j, rfl, hj⟩)
      · have hlt : i < 8 * s.length := isSome_get?_iff.1 (by rw [hi]; rfl)
        exact ⟨i, Nat.mod_eq_of_lt (hs ▸ hlt), by rw [get?_append_left hlt, hi]⟩
      · exact ⟨8 * c + j, by simp, by rw [← hs, get?_append_right, hj]⟩

end Bitmap

namespace Filter

variable {f : Filter} {slices : List (List UInt8)}

/-- Uniting a filter with some bitmaps of its size, one after another. -/
def uniteAll (f : Filter) (slices : List (List UInt8)) : Except Error Filter :=
  slices.foldlM (fun f s => f.combine s .or) f

theorem exists_uniteAll (hf : f.frozen = false) (h : ∀ s ∈ slices, s.length = f.size) :
    ∃ m, f.uniteAll slices = .ok m ∧ m.size = f.size ∧ m.frozen = false ∧
      ∀ i, m.get? i = some true ↔
        f.get? i = some true ∨ ∃ s ∈ slices, Bitmap.get? s i = some true := by
  induction slices generalizing f with
  | nil => exact ⟨f, rfl, rfl, hf, by simp⟩
  | cons s slices ih =>
    rw [List.forall_mem_cons] at h
    obtain ⟨g, hg⟩ := combine_of_size_eq hf h.1 .or
    have hgsize := size_combine hg
    obtain ⟨m, hm, hsize, hthawed, hget⟩ :=
      ih (of_combine_eq_ok hg).2.2.2 (by rw [hgsize]; exact h.2)
    refine ⟨m, ?_, hsize.trans hgsize, hthawed, ?_⟩
    · unfold uniteAll at hm ⊢
      rw [List.foldlM_cons, hg]
      exact hm
    · intro i
      rw [hget, get?_combine_or hg, List.exists_mem_cons_iff, or_assoc]

theorem mod_mod_bits (n c k : Nat) : n % (8 * (k * c)) % (8 * c) = n % (8 * c) :=
  Nat.mod_mod_of_dvd n (Nat.mul_dvd_mul_left 8 (Nat.dvd_mul_left c k))

/-- The filter of `c` bytes is the union of the `k` slices of the one of `k * c` bytes. -/
theorem smaller_filter_is_folded {α : Type} [Hashed α] (xs : List α) (c k : Nat) (hc : 0 < c)
    (hk : 0 < k) :
    ∃ large small zero slices,
      ofElements xs (some (k * c)) = .ok large ∧ ofElements xs (some c) = .ok small ∧
      (∀ (β : Type) [Hashed β] (y : β), large.contains y = true → small.contains y = true) ∧
      (∀ i, small.get? i = some true ↔ ∃ j, j % (8 * c) = i ∧ large.get? j = some true) ∧
      empty c = .ok zero ∧ slices.length = k ∧ (∀ s ∈ slices, s.length = c) ∧
      slices.flatten = large.bitmap ∧ zero.uniteAll slices = .ok small := by
  obtain ⟨large, hlarge, hlargeSize, -, hlargeBits⟩ := ofElements_some (Nat.mul_pos hk hc) xs
  obtain ⟨small, hsmall, hsmallSize, hthawed, hsmallBits⟩ := ofElements_some hc xs
  obtain ⟨zero, hzero, hzeroSize, hzeroThawed, hclear⟩ := empty_of_pos hc
  have hfold : ∀ i, small.get? i = some true ↔
      ∃ j, j % (8 * c) = i ∧ large.get? j = some true := by
    intro i
    rw [hsmallBits]
    constructor
    · rintro ⟨code, hcode, rfl⟩
      exact ⟨_, mod_mod_bits code.toNat c k, (hlargeBits _).2 ⟨code, hcode, rfl⟩⟩
    · rintro ⟨j, rfl, hj⟩
      obtain ⟨code, hcode, rfl⟩ := (hlargeBits j).1 hj
      exact ⟨code, hcode, (mod_mod_bits code.toNat c k).symm⟩
  obtain ⟨slices, hcount, hlength, hflatten⟩ := Bitmap.exists_slices hlargeSize
  have hzeroLength : ∀ s ∈ slices, s.length = zero.size := by rwa [hzeroSize]
  obtain ⟨m, hm, hmSize, hmThawed, hmBits⟩ := exists_uniteAll hzeroThawed hzeroLength
  refine ⟨large, small, zero, slices, hlarge, hsmall, ?_, hfold, hzero, hcount, hlength,
    hflatten, ?_⟩
  · intro β _ y hy
    rw [contains_iff, hlargeSize] at hy
    rw [contains_iff, hsmallSize]
    intro code hcode
    exact (hfold _).2 ⟨_, mod_mod_bits code.toNat c k, hy code hcode⟩
  · rw [hm, Except.ok.injEq]
    apply ext_set
    · rw [hmSize, hzeroSize, hsmallSize]
    · rw [hmThawed, hthawed]
    · intro i
      have hplaces := Bitmap.exists_get?_flatten (i := i) hlength
      rw [hflatten] at hplaces
      rw [hmBits, hfold, ← hplaces]
      simp only [hclear i, false_or]
      rfl

theorem smaller_filter_is_folded_threeCodes :
    0 < 1 ∧ 0 < 3 ∧ ∃ large small zero slices,
      ofElements threeCodes (some (3 * 1)) = .ok large ∧
      ofElements threeCodes (some 1) = .ok small ∧
      (large.contains [(11 : UInt32)] = true ∧ small.contains [(11 : UInt32)] = true) ∧
      (small.get? 3 = some true ↔ ∃ j, j % 8 = 3 ∧ large.get? j = some true) ∧
      empty 1 = .ok zero ∧ slices.flatten = large.bitmap ∧ zero.uniteAll slices = .ok small := by
  obtain ⟨large, small, zero, slices, hlarge, hsmall, hcontains, hbits, hzero, -, -, hflatten,
    hunion⟩ := smaller_filter_is_folded threeCodes 1 3 (by decide) (by decide)
  have hlast : large.contains [(11 : UInt32)] = true := contains_ofElements hlarge (by decide)
  exact ⟨by decide, by decide, large, small, zero, slices, hlarge, hsmall,
    ⟨hlast, hcontains (List UInt32) [11] hlast⟩, hbits 3, hzero, hflatten, hunion⟩

end Filter

end DigestFilter
