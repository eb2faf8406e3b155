import DigestFilter.Proofs.Filter.Merge

/-!
# Unions and intersections

What a merged filter answers is set algebra on what its two sides answer. An intersection answers
for an element exactly when both sides do. A union answers for all that one of its sides answers
for, and for more only where an element finds some of its bits on one side and the rest on the
other. Filters that were built from elements behave like their elements: a union of two is the
filter of all elements together.
-/

namespace DigestFilter

theorem codes_append {α : Type} [Hashed α] (xs ys : List α) :
    codes (xs ++ ys) = codes xs ++ codes ys := List.flatMap_append

namespace Filter

variable {α : Type} [Hashed α] {x : α} {f g m : Filter}

/-! ## Bits of unions and intersections -/

theorem get?_or (h : f.or g = .ok m) {i : Nat} :
    m.get? i = some true ↔ f.get? i = some true ∨ g.get? i = some true :=
  get?_combine_or (f := f.thawed) h

theorem get?_and (h : f.and g = .ok m) {i : Nat} :
    m.get? i = some true ↔ f.get? i = some true ∧ g.get? i = some true :=
  get?_combine_and (f := f.thawed) h

/-! ## What merged filters answer -/

theorem contains_and (h : f.and g = .ok m) :
    m.contains x = true ↔ f.contains x = true ∧ g.contains x = true :=
  contains_combine_and (f := f.thawed) h

theorem contains_or (h : f.or g = .ok m) :
    m.contains x = true ↔ ∀ code ∈ hashes x, f.get? (code.toNat % (8 * f.size)) = some true ∨
      g.get? (code.toNat % (8 * g.size)) = some true := by
  rw [contains_iff, size_merge h, (of_merge_eq_ok h).1]
  simp only [get?_or h]

theorem contains_or_of_side (h : f.or g = .ok m) (hx : f.contains x = true ∨ g.contains x = true) :
    m.contains x = true := by
  rw [contains_or h]
  intro code hcode
  rcases hx with hx | hx
  · exact .inl (contains_iff f |>.1 hx code hcode)
  · exact .inr (contains_iff g |>.1 hx code hcode)

theorem side_of_contains_or (h : f.or g = .ok m) (hcodes : (hashes x).length ≤ 1)
    (hx : m.contains x = true) : f.contains x = true ∨ g.contains x = true := by
  rw [contains_or h] at hx
  rw [contains_iff, contains_iff]
  generalize hashes x = codes at hcodes hx ⊢
  -- One code finds its bit on one side or the other; two could find theirs on different sides.
  match codes, hcodes with
  | [], _ => simp
  | [code], _ => simpa using hx

/-! ## Filters of elements -/

theorem ofElements_some {n : Nat} (hn : 0 < n) (xs : List α) :
    ∃ f, ofElements xs (some n) = .ok f ∧ f.size = n ∧ f.frozen = false ∧
      ∀ i, f.get? i = some true ↔ ∃ code ∈ codes xs, code.toNat % (8 * n) = i := by
  obtain ⟨fresh, hfresh, hsize, hfrozen, hclear⟩ := empty_of_pos hn
  have h := fresh.insertAll_of_thawed hfrozen xs
  refine ⟨_, (ofElements_eq hfresh rfl).trans h, ?_, hfrozen, ?_⟩
  · rw [size_insertAll h hfrozen, hsize]
  · intro i
    rw [get?_insertAll h hfrozen, hsize]
    simp [hclear i]

theorem contains_ofElements {n : Nat} {xs : List α} (h : ofElements xs (some n) = .ok f)
    (hx : x ∈ xs) : f.contains x = true := by
  have hn : 0 < n := by
    rcases Nat.eq_zero_or_pos n with rfl | hn
    · cases h
    · exact hn
  obtain ⟨f', hf', hsize, -, hget⟩ := ofElements_some hn xs
  cases h.symm.trans hf'
  rw [contains_iff, hsize]
  intro code hcode
  exact (hget _).2 ⟨code, mem_codes.2 ⟨x, hx, hcode⟩, rfl⟩

theorem or_ofElements {n : Nat} {xs ys : List α} (hf : ofElements xs (some n) = .ok f)
    (hg : ofElements ys (some n) = .ok g) (hn : 0 < n) :
    f.or g = ofElements (xs ++ ys) (some n) := by
  obtain ⟨f', hf', hfsize, -, hfget⟩ := ofElements_some hn xs
  obtain ⟨g', hg', hgsize, -, hgget⟩ := ofElements_some hn ys
  obtain ⟨all, hall, hsize, hfrozen, hget⟩ := ofElements_some hn (xs ++ ys)
  cases hf.symm.trans hf'
  cases hg.symm.trans hg'
  obtain ⟨m, hm⟩ := merge_of_size_eq (hfsize.trans hgsize.symm) .or
  have hm : f.or g = .ok m := hm
  rw [hm, hall]
  congr 1
  apply ext_set
  · rw [size_merge hm, hfsize, hsize]
  · rw [(of_merge_eq_ok hm).2.2, hfrozen]
  · intro i
    rw [get?_or hm, hfget, hgget, hget, codes_append]
    simp only [List.mem_append, or_and_right, exists_or]

/-- What a merge answers for, from what its two sides answer for. -/
theorem merges_are_set_algebra :
    (∀ f g : Filter, f.size = g.size → ∃ union inter, f.or g = .ok union ∧ f.and g = .ok inter ∧
      ∀ (α : Type) [Hashed α] (x : α),
        (inter.contains x = true ↔ f.contains x = true ∧ g.contains x = true) ∧
        (f.contains x = true ∨ g.contains x = true → union.contains x = true) ∧
        ((hashes x).length ≤ 1 → union.contains x = true →
          f.contains x = true ∨ g.contains x = true) ∧
        (union.contains x = true ↔
          ∀ code ∈ hashes x, f.get? (code.toNat % (8 * f.size)) = some true ∨
            g.get? (code.toNat % (8 * g.size)) = some true)) ∧
    (∀ (α : Type) [Hashed α] (xs ys : List α) (n : Nat), 0 < n → ∃ f g union inter,
      ofElements xs (some n) = .ok f ∧ ofElements ys (some n) = .ok g ∧
      f.or g = .ok union ∧ ofElements (xs ++ ys) (some n) = .ok union ∧
      f.and g = .ok inter ∧
      (∀ x ∈ xs, x ∈ ys → inter.contains x = true) ∧
      ∀ i, inter.get? i = some true → f.get? i = some true ∧ g.get? i = some true) := by
  constructor
  · intro f g h
    obtain ⟨union, hunion⟩ := merge_of_size_eq h .or
    obtain ⟨inter, hinter⟩ := merge_of_size_eq h .and
    refine ⟨union, inter, hunion, hinter, fun α _ x => ⟨contains_and hinter, ?_, ?_, ?_⟩⟩
    · exact contains_or_of_side hunion
    · exact side_of_contains_or hunion
    · exact contains_or hunion
  · intro α _ xs ys n hn
    obtain ⟨f, hf, hfsize, -, -⟩ := ofElements_some hn xs
    obtain ⟨g, hg, hgsize, -, -⟩ := ofElements_some hn ys
    obtain ⟨union, hunion, -, -, -⟩ := ofElements_some hn (xs ++ ys)
    obtain ⟨inter, hinter⟩ := merge_of_size_eq (hfsize.trans hgsize.symm) .and
    refine ⟨f, g, union, inter, hf, hg, (or_ofElements hf hg hn).trans hunion, hunion, hinter, ?_,
      fun i => (get?_and hinter).1⟩
    intro x hxs hys
    exact (contains_and hinter).2 ⟨contains_ofElements hf hxs, contains_ofElements hg hys⟩

def zeroAndTwo : Filter := ⟨[0b101], true, by decide⟩

def oneAndTwo : Filter := ⟨[0b110], false, by decide⟩

/-- The element of codes 8 and 1 has one bit on either side and is found only in the union. -/
theorem merges_are_set_algebra_sharedBit :
    (zeroAndTwo.size = oneAndTwo.size ∧ ∃ union inter,
      zeroAndTwo.or oneAndTwo = .ok union ∧ zeroAndTwo.and oneAndTwo = .ok inter ∧
      inter.contains [(10 : UInt32)] = true ∧ ¬ inter.contains [(1 : UInt32)] = true ∧
      union.contains [(1 : UInt32)] = true ∧ union.contains [(8 : UInt32), 1] = true ∧
      ((hashes [(3 : UInt32)]).length ≤ 1 ∧ ¬ union.contains [(3 : UInt32)] = true)) ∧
    (0 < 2 ∧ ∃ f g union inter,
      ofElements [[(1 : UInt32), 5], [30]] (some 2) = .ok f ∧
      ofElements [[(30 : UInt32)], [9]] (some 2) = .ok g ∧
      f.or g = .ok union ∧
      ofElements [[(1 : UInt32), 5], [30], [30], [9]] (some 2) = .ok union ∧
      f.and g = .ok inter ∧ inter.contains [(30 : UInt32)] = true ∧
      ¬ inter.get? 1 = some true) := by
  obtain ⟨hmerges, hbuilt⟩ := merges_are_set_algebra
  obtain ⟨union, inter, hunion, hinter, hanswers⟩ := hmerges zeroAndTwo oneAndTwo rfl
  obtain ⟨f, g, union', inter', hf, hg, hunion', hall, hinter', hboth, hbits⟩ :=
    hbuilt (List UInt32) [[1, 5], [30]] [[30], [9]] 2 (by decide)
  refine ⟨⟨rfl, union, inter, hunion, hinter, ?_, ?_, ?_, ?_, by decide, ?_⟩, by decide,
    f, g, union', inter', hf, hg, hunion', hall, hinter', ?_, ?_⟩
  · exact (hanswers (List UInt32) [10]).1.2 (by decide)
  · exact mt (hanswers (List UInt32) [1]).1.1 (by decide)
  · exact (hanswers (List UInt32) [1]).2.1 (by decide)
  · apply (hanswers (List UInt32) [8, 1]).2.2.2.2
    intro code hcode
    simp only [hashes, List.mem_cons, List.not_mem_nil, or_false] at hcode
    rcases hcode with rfl | rfl
    · left
      decide
    · right
      decide
  · exact mt ((hanswers (List UInt32) [3]).2.2.1 (by decide)) (by decide)
  · exact hboth [30] (by decide) (by decide)
  · intro hbit
    -- Bit 1 comes from the first list alone.
    have hright := (hbits 1 hbit).2
    have hg' : ofElements [[(30 : UInt32)], [9]] (some 2) =
        .ok ⟨[0, 0b1000010], false, by decide⟩ := rfl
    cases hg.symm.trans hg'
    revert hright
    decide

end Filter

end DigestFilter
