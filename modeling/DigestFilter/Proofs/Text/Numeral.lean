import Mathlib.Data.Nat.Digits.Lemmas
import DigestFilter.Numeral

/-!
# Digits and their values

`Numeral.value` and `Numeral.digits` have the highest digit first and write zero with a digit. Up to
that they are `Nat.ofDigits` and `Nat.digits`. The key fact is that digits without a leading zero
are the numeral of their value, so a value determines the digits up to zeros in front.
-/

namespace DigestFilter.Numeral

variable {base n : Nat} {ds xs ys : List Nat}

/-! ## Values -/

theorem value_eq_ofDigits (base : Nat) (ds : List Nat) :
    value base ds = Nat.ofDigits base ds.reverse := by
  induction ds with
  | nil => rfl
  | cons d ds ih =>
    rw [value_cons, ih, List.reverse_cons, Nat.ofDigits_append, Nat.ofDigits_singleton,
      List.length_reverse, Nat.mul_comm, Nat.add_comm]
    rfl

theorem value_eq_sum (base : Nat) (ds : List Nat) :
    value base ds = (ds.reverse.mapIdx fun k d => d * base ^ k).sum := by
  rw [value_eq_ofDigits, Nat.ofDigits_eq_sum_mapIdx]

theorem value_replicate_zero_append (base k : Nat) (ds : List Nat) :
    value base (List.replicate k 0 ++ ds) = value base ds := by
  rw [value_eq_ofDigits, value_eq_ofDigits, List.reverse_append, List.reverse_replicate,
    Nat.ofDigits_append_replicate_zero]

theorem value_eq_zero_iff (hb : 0 < base) : value base ds = 0 ↔ ∀ d ∈ ds, d = 0 := by
  induction ds with
  | nil => simp [value]
  | cons d ds ih =>
    have hplace : place base ds.length ≠ 0 := Nat.ne_of_gt (Nat.pow_pos hb)
    simp [value_cons, hplace, ih]

theorem value_lt (hb : 2 ≤ base) (h : ∀ d ∈ ds, d < base) : value base ds < base ^ ds.length := by
  have hlt := Nat.ofDigits_lt_base_pow_length hb (l := ds.reverse) (by simpa using h)
  rwa [List.length_reverse, ← value_eq_ofDigits] at hlt

theorem eq_of_value_eq (hb : 2 ≤ base) (hx : ∀ d ∈ xs, d < base) (hy : ∀ d ∈ ys, d < base)
    (hlen : xs.length = ys.length) (h : value base xs = value base ys) : xs = ys := by
  rw [value_eq_ofDigits, value_eq_ofDigits] at h
  have hlen : xs.reverse.length = ys.reverse.length := by simpa using hlen
  exact List.reverse_injective
    (Nat.ofDigits_inj_of_len_eq hb hlen (by simpa using hx) (by simpa using hy) h)

theorem compare_value (hb : 2 ≤ base) (hx : ∀ d ∈ xs, d < base) (hy : ∀ d ∈ ys, d < base)
    (hlen : xs.length = ys.length) :
    compare (value base xs) (value base ys) = compare xs ys := by
  induction xs generalizing ys with
  | nil =>
    rw [List.length_nil, eq_comm, List.length_eq_zero_iff] at hlen
    subst hlen
    rfl
  | cons x xs ih =>
    obtain ⟨y, ys, rfl⟩ := List.exists_cons_of_length_eq_add_one hlen.symm
    rw [List.forall_mem_cons] at hx hy
    have htail : xs.length = ys.length := Nat.succ.inj hlen
    have hxs : value base xs < place base ys.length := htail ▸ value_lt hb hx.2
    have hys : value base ys < place base ys.length := value_lt hb hy.2
    rw [value_cons, value_cons, htail, List.compare_cons_cons]
    -- The first digit outweighs all others.
    rcases Nat.lt_trichotomy x y with h | rfl | h
    · rw [Nat.compare_eq_lt.2 h, Ordering.lt_then, Nat.compare_eq_lt]
      have hstep := Nat.mul_le_mul_right (place base ys.length) h
      rw [Nat.succ_mul] at hstep
      omega
    · rw [← ih hx.2 hy.2 htail, Nat.compare_eq_ite_lt, Nat.compare_eq_ite_lt, Nat.compare_eq_ite_lt]
      simp
    · rw [Nat.compare_eq_gt.2 h, Ordering.gt_then, Nat.compare_eq_gt]
      have hstep := Nat.mul_le_mul_right (place base ys.length) h
      rw [Nat.succ_mul] at hstep
      omega

/-! ## Canonical numerals -/

theorem digits_value_of_head (hb : 2 ≤ base) (h : ∀ d ∈ ds, d < base) (hhead : ds.head? ≠ some 0) :
    Nat.digits base (value base ds) = ds.reverse := by
  rw [value_eq_ofDigits]
  refine Nat.digits_ofDigits base hb ds.reverse (by simpa using h) ?_
  intro hne hlast
  rw [List.getLast_reverse] at hlast
  have hcons : ds ≠ [] := by simpa using hne
  exact hhead (by rw [List.head?_eq_some_head hcons, hlast])

theorem digits_eq (hb : 2 ≤ base) (hn : n ≠ 0) : digits base n = (Nat.digits base n).reverse := by
  have h := digits_value_of_head hb (lt_of_mem_digits hb n) (head?_digits_ne_zero hb hn)
  rw [value_digits hb] at h
  rw [h, List.reverse_reverse]

theorem digits_zero (base : Nat) : digits base 0 = [0] := by
  have hone : halvings base 0 = 1 := by
    rw [halvings, Nat.log2_zero, Nat.zero_div]
    rfl
  simp [digits, hone, lowDigits]

theorem digits_value (hb : 2 ≤ base) (h : ∀ d ∈ ds, d < base) :
    digits base (value base ds) =
      match ds.dropWhile (· == 0) with
      | [] => [0]
      | ds => ds := by
  rw [← value_dropWhile_zero]
  have hlt : ∀ d ∈ ds.dropWhile (· == 0), d < base :=
    fun d hd => h d ((List.dropWhile_sublist _).subset hd)
  have hdigits := digits_value_of_head hb hlt (head?_dropWhile_zero ds)
  split
  · next hnil =>
    rw [hnil]
    exact digits_zero base
  · next hne =>
    have hpos : value base (ds.dropWhile (· == 0)) ≠ 0 := by
      intro hzero
      rw [hzero, Nat.digits_zero, eq_comm, List.reverse_eq_nil_iff] at hdigits
      exact hne hdigits
    rw [digits_eq hb hpos, hdigits, List.reverse_reverse]

theorem length_digits_le_iff (hb : 2 ≤ base) {k : Nat} :
    (digits base n).length ≤ k ↔ 0 < k ∧ n < base ^ k := by
  by_cases hn : n = 0
  · subst hn
    rw [digits_zero, List.length_singleton]
    have hpos : 0 < base ^ k := Nat.pow_pos (by omega)
    omega
  · have hpos := length_digits_pos base n
    have hle : (digits base n).length ≤ k ↔ n < base ^ k := by
      rw [digits_eq hb hn, List.length_reverse, Nat.digits_length_le_iff hb]
    omega

theorem lt_pow_length_digits (hb : 2 ≤ base) (n : Nat) : n < base ^ (digits base n).length :=
  ((length_digits_le_iff hb).1 (Nat.le_refl _)).2

theorem pow_length_digits_le (hb : 2 ≤ base) (hn : n ≠ 0) :
    base ^ ((digits base n).length - 1) ≤ n := by
  rw [← Nat.not_lt]
  intro h
  by_cases hone : (digits base n).length = 1
  · rw [hone] at h
    simp at h
    omega
  · have hpos := length_digits_pos base n
    have hle := (length_digits_le_iff hb).2 ⟨by omega, h⟩
    omega

end DigestFilter.Numeral
