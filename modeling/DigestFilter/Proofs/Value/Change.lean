import DigestFilter.Identifier.Basic
import DigestFilter.Proofs.Filter.Merge

/-!
# Changes

The calls that change an identifier or a filter where it is, and exactly how each of them can fail.
A frozen value refuses every change, whatever else is wrong with it. A thawed one refuses an index
beyond its end and a bitmap of another size, and nothing else.
-/

namespace DigestFilter

namespace Identifier

inductive Change where
  | set (index : Nat) (byte : UInt8)
  | clear
  | fill (byte : UInt8)

namespace Change

def apply : Change → Identifier → Except Error Identifier
  | .set index byte, x => x.set index byte
  | .clear, x => x.clear
  | .fill byte, x => x.fill byte

variable {c : Change} {x y : Identifier} {e : Error}

theorem apply_of_frozen (c : Change) (h : x.frozen = true) :
    c.apply x = .error (.frozen .identifier) := by
  cases c <;> simp [apply, Identifier.set, Identifier.clear, Identifier.fill, h]

theorem apply_eq_error_iff (h : x.frozen = false) :
    c.apply x = .error e ↔
      ∃ index byte, c = .set index byte ∧ x.size ≤ index ∧ e = .outOfBounds index x.size := by
  cases c with
  | set index byte =>
    by_cases hindex : x.size ≤ index
    · simp [apply, Identifier.set, h, hindex, eq_comm]
    · simp only [apply, Identifier.set, h, hindex, Bool.false_eq_true, if_false, reduceCtorEq,
        false_iff]
      rintro ⟨i, b, hset, hle, -⟩
      cases hset
      exact hindex hle
  | clear | fill => simp [apply, Identifier.clear, Identifier.fill, h]

theorem of_apply_eq_ok (h : c.apply x = .ok y) :
    x.frozen = false ∧ y.frozen = false ∧ y.size = x.size := by
  have hf : x.frozen = false := by
    rw [Bool.eq_false_iff]
    intro hf
    rw [apply_of_frozen c hf] at h
    cases h
  cases c with
  | set index byte =>
    refine ⟨hf, ?_, size_set h⟩
    simp only [apply, Identifier.set, hf, Bool.false_eq_true, if_false] at h
    split at h
    · cases h
    · cases h
      rfl
  | clear | fill =>
    refine ⟨hf, ?_, size_fill h⟩
    simp only [apply, Identifier.clear, Identifier.fill, hf, Bool.false_eq_true, if_false] at h
    cases h
    rfl

end Change

end Identifier

namespace Filter

/-- A merge in place takes its right side as a filter or as raw bytes. -/
inductive Change : Type 1 where
  | insert {α : Type} [Hashed α] (y : α)
  | set (index : Nat) (value : Bool)
  | clear
  | merge (entry : Entry) (inPlace : entry.makesNew = false) (op : MergeOp) (right : Filter)
  | mergeBytes (bs : List UInt8) (op : MergeOp)

namespace Change

def apply : Change → Filter → Except Error Filter
  | @insert _ _ y, f => f.insert y
  | .set index value, f => f.set index value
  | .clear, f => f.clear
  | .merge entry _ op right, f => entry.run op f right
  | .mergeBytes bs op, f => f.combine bs op

/-- The bitmap that a change merges in. -/
def operand? : Change → Option (List UInt8)
  | .merge _ _ _ right => some right.bitmap
  | .mergeBytes bs _ => some bs
  | _ => none

variable {c : Change} {f g : Filter} {e : Error}

theorem apply_merge (entry : Entry) (inPlace : entry.makesNew = false) (op : MergeOp)
    (right f : Filter) : (merge entry inPlace op right).apply f = f.combine right.bitmap op := by
  rw [apply, Entry.run_eq, inPlace, if_neg Bool.false_ne_true]

theorem apply_of_frozen (c : Change) (h : f.frozen = true) :
    c.apply f = .error (.frozen .filter) := by
  cases c with
  | insert y => simp [apply, Filter.insert, h]
  | set index value => simp [apply, Filter.set, h]
  | clear => simp [apply, Filter.clear, h]
  | merge entry inPlace op right => rw [apply_merge, combine_of_frozen h]
  | mergeBytes bs op => exact combine_of_frozen h

theorem apply_eq_error_iff (h : f.frozen = false) :
    c.apply f = .error e ↔
      (∃ index value, c = .set index value ∧ f.bitSize ≤ index ∧
        e = .outOfBounds index f.bitSize) ∨
      ∃ bs, c.operand? = some bs ∧ bs.length ≠ f.size ∧ e = .sizeMismatch f.size bs.length := by
  cases c with
  | insert y => simp [apply, operand?, Filter.insert, h]
  | set index value =>
    by_cases hindex : f.bitSize ≤ index
    · simp [apply, operand?, Filter.set, h, hindex, eq_comm]
    · simp only [apply, operand?, Filter.set, h, hindex, Bool.false_eq_true, if_false,
        reduceCtorEq, false_and, exists_false, or_false, false_iff]
      rintro ⟨i, v, hset, hle, -⟩
      cases hset
      exact hindex hle
  | clear => simp [apply, operand?, Filter.clear, h]
  | merge entry inPlace op right =>
    rw [apply_merge, combine_eq_error_iff h]
    simp [operand?]
  | mergeBytes bs op =>
    rw [apply, combine_eq_error_iff h]
    simp [operand?]

theorem of_apply_eq_ok (h : c.apply f = .ok g) :
    f.frozen = false ∧ g.frozen = false ∧ g.size = f.size := by
  have hf : f.frozen = false := by
    rw [Bool.eq_false_iff]
    intro hf
    rw [apply_of_frozen c hf] at h
    cases h
  refine ⟨hf, ?_⟩
  cases c with
  | insert y =>
    rw [apply, f.insert_of_thawed hf] at h
    cases h
    exact ⟨hf, f.size_setBits _⟩
  | set index value =>
    simp only [apply, Filter.set, hf, Bool.false_eq_true, if_false] at h
    split at h
    · cases h
    · cases h
      exact ⟨rfl, Bitmap.length_put _ _ _⟩
  | clear =>
    simp only [apply, Filter.clear, hf, Bool.false_eq_true, if_false] at h
    cases h
    exact ⟨rfl, List.length_map _⟩
  | merge entry inPlace op right =>
    rw [apply_merge] at h
    exact ⟨(of_combine_eq_ok h).2.2.2, size_combine h⟩
  | mergeBytes bs op => exact ⟨(of_combine_eq_ok h).2.2.2, size_combine h⟩

end Change

end Filter

end DigestFilter
