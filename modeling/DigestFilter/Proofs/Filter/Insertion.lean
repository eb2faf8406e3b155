import DigestFilter.Proofs.Bitmap
import DigestFilter.Filter.Basic

/-!
# Which bits insertion sets

Inserting elements sets the bits that their hash codes stand for and no others, and those are the
bits that `contains` looks at. So a run of insertions depends only on the set of codes that went
in, not on their order, their number or how they are shared out among elements.
-/

namespace DigestFilter

def codes {α : Type} [Hashed α] (xs : List α) : List UInt32 := xs.flatMap hashes

theorem mem_codes {α : Type} [Hashed α] {xs : List α} {code : UInt32} :
    code ∈ codes xs ↔ ∃ x ∈ xs, code ∈ hashes x := List.mem_flatMap

theorem exists_mem_codes {α : Type} [Hashed α] {xs : List α} {p : UInt32 → Prop} :
    (∃ code ∈ codes xs, p code) ↔ ∃ x ∈ xs, ∃ code ∈ hashes x, p code := by
  constructor
  · rintro ⟨code, hcode, hp⟩
    obtain ⟨x, hx, hmem⟩ := mem_codes.1 hcode
    exact ⟨x, hx, code, hmem, hp⟩
  · rintro ⟨x, hx, code, hmem, hp⟩
    exact ⟨code, mem_codes.2 ⟨x, hx, hmem⟩, hp⟩

namespace Filter

variable {α β : Type} [Hashed α] [Hashed β] (f : Filter)

/-! ## Setting bits -/

theorem setBits_append (as bs : List Nat) : f.setBits (as ++ bs) = (f.setBits as).setBits bs := by
  ext1
  · exact List.foldl_append
  · rfl

theorem isSome_get?_iff {i : Nat} : (f.get? i).isSome ↔ i < f.bitSize := Bitmap.isSome_get?_iff

theorem get?_setBits_eq_true {bits : List Nat} (h : ∀ i ∈ bits, i < f.bitSize) {i : Nat} :
    (f.setBits bits).get? i = some true ↔ f.get? i = some true ∨ i ∈ bits := by
  rw [get?_setBits]
  by_cases hi : i ∈ bits
  · obtain ⟨b, hb⟩ := Option.isSome_iff_exists.1 (f.isSome_get?_iff.2 (h i hi))
    simp [hi, hb]
  · simp [hi]

theorem ext_set {f g : Filter} (hsize : f.size = g.size) (hfrozen : f.frozen = g.frozen)
    (h : ∀ i, f.get? i = some true ↔ g.get? i = some true) : f = g :=
  Filter.ext (Bitmap.ext_set hsize h) hfrozen

/-! ## Runs of insertions -/

theorem position_setBits (bits : List Nat) : (f.setBits bits).position = f.position := by
  funext code
  simp only [position, bitSize, size_setBits]

theorem insert_of_thawed (h : f.frozen = false) (x : α) :
    f.insert x = .ok (f.setBits ((hashes x).map f.position)) := by
  simp [insert, h]

theorem insertAll_of_thawed (h : f.frozen = false) (xs : List α) :
    f.insertAll xs = .ok (f.setBits ((codes xs).map f.position)) := by
  induction xs generalizing f with
  | nil => rfl
  | cons x xs ih =>
    have hstep : f.insertAll (x :: xs) = (f.insert x).bind (·.insertAll xs) := List.foldlM_cons
    have hcodes : codes (x :: xs) = hashes x ++ codes xs := List.flatMap_cons
    rw [hstep, f.insert_of_thawed h]
    simp only [Except.bind]
    rw [ih (f.setBits _) h, position_setBits, ← setBits_append, ← List.map_append, hcodes]

theorem mem_map_position {codes : List UInt32} {i : Nat} :
    i ∈ codes.map f.position ↔ ∃ code ∈ codes, code.toNat % (8 * f.size) = i := List.mem_map

theorem get?_insertAll {f g : Filter} {xs : List α} (h : f.insertAll xs = .ok g)
    (hf : f.frozen = false) {i : Nat} :
    g.get? i = some true ↔
      f.get? i = some true ∨ ∃ code ∈ codes xs, code.toNat % (8 * f.size) = i := by
  rw [f.insertAll_of_thawed hf, Except.ok.injEq] at h
  subst h
  have hbits : ∀ i ∈ (codes xs).map f.position, i < f.bitSize := by
    intro i hi
    obtain ⟨code, -, rfl⟩ := List.mem_map.1 hi
    exact f.position_lt code
  rw [f.get?_setBits_eq_true hbits, mem_map_position]

theorem size_insertAll {f g : Filter} {xs : List α} (h : f.insertAll xs = .ok g)
    (hf : f.frozen = false) : g.size = f.size := by
  rw [f.insertAll_of_thawed hf, Except.ok.injEq] at h
  rw [← h, size_setBits]

theorem insertAll_congr {xs : List α} {ys : List β} (hf : f.frozen = false)
    (h : ∀ code, code ∈ codes xs ↔ code ∈ codes ys) : f.insertAll xs = f.insertAll ys := by
  have hxs := f.insertAll_of_thawed hf xs
  have hys := f.insertAll_of_thawed hf ys
  rw [hxs, hys]
  congr 1
  apply ext_set
  · simp
  · rfl
  · intro i
    rw [get?_insertAll hxs hf, get?_insertAll hys hf]
    simp only [h]

/-! ## Looking up -/

theorem contains_iff {x : α} :
    f.contains x = true ↔ ∀ code ∈ hashes x, f.get? (code.toNat % (8 * f.size)) = some true := by
  simp [contains, hasCode, position, bitSize]

/-! ## Fresh filters -/

theorem empty_of_pos {n : Nat} (h : 0 < n) :
    ∃ f, empty n = .ok f ∧ f.size = n ∧ f.frozen = false ∧ ∀ i, f.get? i ≠ some true := by
  have hne : List.replicate n (0 : UInt8) ≠ [] := mt (List.replicate_eq_nil_iff 0).1 (by omega)
  refine ⟨⟨List.replicate n 0, false, hne⟩, ofBytes_eq_ok_iff.2 ⟨rfl, rfl⟩,
    List.length_replicate, rfl, ?_⟩
  intro i
  simp only [get?, Bitmap.get?, List.getElem?_replicate]
  split <;> simp

theorem ofElements_eq {n : Nat} {f : Filter} {size : Option Nat} {xs : List α}
    (h : empty n = .ok f) (hsize : size.getD (max 1 xs.length) = n) :
    ofElements xs size = f.insertAll xs := by
  rw [ofElements, hsize, h]
  rfl

theorem ofElements_none (xs : List α) :
    ∃ g, ofElements xs none = .ok g ∧ g.size = max 1 xs.length := by
  obtain ⟨f, hf, hsize, hfrozen, -⟩ := empty_of_pos (by omega : 0 < max 1 xs.length)
  have h := f.insertAll_of_thawed hfrozen xs
  rw [ofElements_eq hf rfl]
  exact ⟨_, h, by rw [size_insertAll h hfrozen, hsize]⟩

/-- Inserting sets exactly the bits that `contains` asks about, in any order and grouping. -/
theorem insertAll_sets_tested_bits (f : Filter) (hf : f.frozen = false) (xs : List α) :
    (∃ g, f.insertAll xs = .ok g ∧ g.size = f.size ∧
      (∀ i, g.get? i = some true ↔
        f.get? i = some true ∨
          ∃ x ∈ xs, ∃ code ∈ hashes x, code.toNat % (8 * f.size) = i) ∧
      (∀ (β : Type) [Hashed β] (y : β), g.contains y = true ↔
        ∀ code ∈ hashes y,
          f.get? (code.toNat % (8 * f.size)) = some true ∨
            ∃ x ∈ xs, ∃ code' ∈ hashes x,
              code'.toNat % (8 * f.size) = code.toNat % (8 * f.size))) ∧
    (∀ (β : Type) [Hashed β] (ys : List β), (∀ code, code ∈ codes xs ↔ code ∈ codes ys) →
      f.insertAll xs = f.insertAll ys) ∧
    (∀ ys : List α, (∀ x, x ∈ xs ↔ x ∈ ys) → f.insertAll xs = f.insertAll ys) ∧
    (∀ groups : List (List UInt32), codes xs = groups.flatten →
      f.insertAll xs = f.insertAll groups) ∧
    (∀ n, 0 < n → ∃ fresh, empty n = .ok fresh ∧ fresh.size = n ∧ fresh.frozen = false ∧
      (∀ i, fresh.get? i ≠ some true) ∧ ofElements xs (some n) = fresh.insertAll xs) ∧
    (∃ g, ofElements xs none = .ok g ∧ g.size = max 1 xs.length) ∧
    ofElements xs (some 0) = .error (.argument .emptyBitmap) := by
  refine ⟨?_, fun _ _ _ => f.insertAll_congr hf, ?_, ?_, ?_, ofElements_none xs, rfl⟩
  · have h := f.insertAll_of_thawed hf xs
    have hget : ∀ i, (f.setBits ((codes xs).map f.position)).get? i = some true ↔
        f.get? i = some true ∨
          ∃ x ∈ xs, ∃ code ∈ hashes x, code.toNat % (8 * f.size) = i := by
      intro i
      rw [get?_insertAll h hf, exists_mem_codes]
    have hsize := size_insertAll h hf
    refine ⟨_, h, hsize, hget, ?_⟩
    intro β _ y
    rw [contains_iff, hsize]
    simp only [hget]
  · intro ys hmem
    apply f.insertAll_congr hf
    intro code
    simp only [mem_codes, hmem]
  · intro groups hgroups
    apply f.insertAll_congr hf
    intro code
    rw [hgroups, codes, List.mem_flatten, List.mem_flatMap]
    rfl
  · intro n hn
    obtain ⟨fresh, hfresh, hsize, hfrozen, hclear⟩ := empty_of_pos hn
    exact ⟨fresh, hfresh, hsize, hfrozen, hclear, ofElements_eq hfresh rfl⟩

def eightBits : Filter := ⟨[4], false, by decide⟩

def threeCodes : List (List UInt32) := [[9, 1], [11]]

theorem insertAll_sets_tested_bits_threeCodes :
    eightBits.frozen = false ∧
    (∃ g, eightBits.insertAll threeCodes = .ok g ∧ g.size = 1 ∧
      g.get? 2 = some true ∧ g.get? 3 = some true ∧ ¬ g.get? 0 = some true ∧
      g.contains [(17 : UInt32), 2] = true ∧ ¬ g.contains [(16 : UInt32)] = true) ∧
    eightBits.insertAll threeCodes = eightBits.insertAll [[(11 : UInt32), 9], [], [1], [1]] ∧
    eightBits.insertAll threeCodes = eightBits.insertAll [[(11 : UInt32)], [9, 1], [11]] ∧
    eightBits.insertAll threeCodes = eightBits.insertAll [[(9 : UInt32)], [1, 11]] ∧
    (0 < 3 ∧ ∃ fresh, empty 3 = .ok fresh ∧
      ofElements threeCodes (some 3) = fresh.insertAll threeCodes) := by
  obtain ⟨⟨g, hg, hsize, hget, hcontains⟩, hcodes, hmem, hgroups, hfresh, -, -⟩ :=
    insertAll_sets_tested_bits eightBits rfl threeCodes
  obtain ⟨fresh, hempty, -, -, -, hofElements⟩ := hfresh 3 (by decide)
  refine ⟨rfl, ⟨g, hg, hsize, (hget 2).2 (by decide), (hget 3).2 (by decide),
    mt (hget 0).1 (by decide), (hcontains _ _).2 ?_, mt (hcontains _ _).1 ?_⟩,
    hcodes _ _ ?_, hmem _ ?_, hgroups _ rfl, by decide, fresh, hempty, hofElements⟩
  · intro code hcode
    simp only [hashes, List.mem_cons, List.not_mem_nil, or_false] at hcode
    rcases hcode with rfl | rfl
    · right; decide
    · left; decide
  · intro h
    have hbit := h 16 (List.mem_singleton.2 rfl)
    revert hbit
    decide
  · intro code
    simp only [threeCodes, codes, hashes, List.flatMap_cons, List.flatMap_nil, List.mem_append,
      List.mem_cons, List.not_mem_nil]
    grind
  · intro x
    simp only [threeCodes, List.mem_cons, List.not_mem_nil]
    grind

end Filter

end DigestFilter
