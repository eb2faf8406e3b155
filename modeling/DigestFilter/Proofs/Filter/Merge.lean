import DigestFilter.Filter.Merge
import DigestFilter.Proofs.Filter.Insertion

/-!
# Merged filters bit by bit

A merge works on the bits at each index alone. There are several ways to ask for one; `Entry` names
them, and `Entry.run_eq` says that they differ only in whether the left filter is thawed first.
-/

namespace DigestFilter

namespace MergeOp

def bit : MergeOp → Bool → Bool → Bool
  | .or, a, b => a || b
  | .and, a, b => a && b
  | .xor, a, b => a ^^ b

theorem testBit_apply (op : MergeOp) (a b : UInt8) (k : Nat) :
    (op.apply a b).toNat.testBit k = op.bit (a.toNat.testBit k) (b.toNat.testBit k) := by
  cases op with
  | or => rw [apply, UInt8.toNat_or, Nat.testBit_or]; rfl
  | and => rw [apply, UInt8.toNat_and, Nat.testBit_and]; rfl
  | xor => rw [apply, UInt8.toNat_xor, Nat.testBit_xor]; rfl

end MergeOp

theorem Bitmap.get?_zipWith (op : MergeOp) (as bs : List UInt8) (i : Nat) :
    get? (List.zipWith op.apply as bs) i =
      (get? as i).bind fun a => (get? bs i).map (op.bit a) := by
  simp only [get?, List.getElem?_zipWith]
  cases as[i / 8]? with
  | none => rfl
  | some a =>
    cases bs[i / 8]? with
    | none => rfl
    | some b => exact congrArg some (op.testBit_apply a b (i % 8))

namespace Filter

/-! ## In place -/

variable {f g m : Filter} {op : MergeOp} {bs : List UInt8}

theorem of_combine_eq_ok (h : f.combine bs op = .ok m) :
    f.frozen = false ∧ bs.length = f.size ∧ m.bitmap = List.zipWith op.apply f.bitmap bs ∧
      m.frozen = false := by
  unfold combine at h
  split at h
  · cases h
  · next hf =>
    split at h
    · next hsize =>
      cases h
      exact ⟨by simpa using hf, hsize, rfl, by simpa using hf⟩
    · cases h

theorem combine_of_frozen (h : f.frozen = true) : f.combine bs op = .error (.frozen .filter) := by
  simp [combine, h]

theorem combine_eq_error_iff {e : Error} (h : f.frozen = false) :
    f.combine bs op = .error e ↔ bs.length ≠ f.size ∧ e = .sizeMismatch f.size bs.length := by
  by_cases hsize : bs.length = f.size
  · simp [combine, h, hsize]
  · simp [combine, h, hsize, eq_comm]

theorem combine_of_size_eq (hf : f.frozen = false) (h : bs.length = f.size) (op : MergeOp) :
    ∃ m, f.combine bs op = .ok m := by
  simp [combine, hf, h]

theorem size_combine (h : f.combine bs op = .ok m) : m.size = f.size := by
  obtain ⟨-, hsize, hbitmap, -⟩ := of_combine_eq_ok h
  rw [size, hbitmap, List.length_zipWith, hsize]
  exact Nat.min_self _

theorem get?_combine (h : f.combine bs op = .ok m) (i : Nat) :
    m.get? i = (f.get? i).bind fun a => (Bitmap.get? bs i).map (op.bit a) := by
  obtain ⟨-, -, hbitmap, -⟩ := of_combine_eq_ok h
  rw [get?, hbitmap]
  exact Bitmap.get?_zipWith op f.bitmap bs i

theorem get?_combine_or (h : f.combine bs .or = .ok m) {i : Nat} :
    m.get? i = some true ↔ f.get? i = some true ∨ Bitmap.get? bs i = some true := by
  have hsome : (f.get? i).isSome ↔ (Bitmap.get? bs i).isSome := by
    rw [isSome_get?_iff, Bitmap.isSome_get?_iff, (of_combine_eq_ok h).2.1, bitSize]
  rw [get?_combine h]
  generalize f.get? i = a at hsome ⊢
  generalize Bitmap.get? bs i = b at hsome ⊢
  rcases a with _ | _ | _ <;> rcases b with _ | _ | _ <;> simp_all [MergeOp.bit]

theorem get?_combine_and (h : f.combine bs .and = .ok m) {i : Nat} :
    m.get? i = some true ↔ f.get? i = some true ∧ Bitmap.get? bs i = some true := by
  rw [get?_combine h]
  rcases f.get? i with _ | _ | _ <;> rcases Bitmap.get? bs i with _ | _ | _ <;>
    simp [MergeOp.bit]

variable {α : Type} [Hashed α] {x : α}

@[simp] theorem contains_thawed (f : Filter) : f.thawed.contains x = f.contains x := rfl

theorem contains_combine_and (h : f.combine g.bitmap .and = .ok m) :
    m.contains x = true ↔ f.contains x = true ∧ g.contains x = true := by
  have hsize : g.size = f.size := (of_combine_eq_ok h).2.1
  simp only [contains_iff, size_combine h, hsize, get?_combine_and h, forall_and]
  rfl

/-! ## Into a new filter -/

theorem merge_of_size_eq (h : f.size = g.size) (op : MergeOp) : ∃ m, f.merge g op = .ok m :=
  combine_of_size_eq (f := f.thawed) rfl h.symm op

theorem merge_of_size_ne (h : f.size ≠ g.size) (op : MergeOp) :
    f.merge g op = .error (.sizeMismatch f.size g.size) :=
  (combine_eq_error_iff (f := f.thawed) rfl).2 ⟨Ne.symm h, rfl⟩

theorem of_merge_eq_ok (h : f.merge g op = .ok m) :
    g.size = f.size ∧ m.bitmap = List.zipWith op.apply f.bitmap g.bitmap ∧ m.frozen = false :=
  (of_combine_eq_ok (f := f.thawed) h).2

theorem size_merge (h : f.merge g op = .ok m) : m.size = f.size := size_combine (f := f.thawed) h

theorem get?_merge (h : f.merge g op = .ok m) (i : Nat) :
    m.get? i = (f.get? i).bind fun a => (g.get? i).map (op.bit a) :=
  get?_combine (f := f.thawed) h i

/-! ## All the ways in -/

/-- The ways to ask for a merge of two filters. -/
inductive Entry where
  | method
  | named
  | operator
  | inPlace
  | namedInPlace
  | bytes
  deriving DecidableEq, Repr

namespace Entry

def run : Entry → MergeOp → Filter → Filter → Except Error Filter
  | .method, op, f, g => f.merge g op
  | .named, .or, f, g => f.or g
  | .named, .and, f, g => f.and g
  | .named, .xor, f, g => f.xor g
  | .operator, .or, f, g => f ||| g
  | .operator, .and, f, g => f &&& g
  | .operator, .xor, f, g => f ^^^ g
  | .inPlace, op, f, g => f.absorb g op
  | .namedInPlace, .or, f, g => f.absorbOr g
  | .namedInPlace, .and, f, g => f.absorbAnd g
  | .namedInPlace, .xor, f, g => f.absorbXor g
  | .bytes, op, f, g => f.combine g.bitmap op

def makesNew : Entry → Bool
  | .method | .named | .operator => true
  | .inPlace | .namedInPlace | .bytes => false

theorem run_eq (entry : Entry) (op : MergeOp) (f g : Filter) :
    entry.run op f g = (if entry.makesNew then f.thawed else f).combine g.bitmap op := by
  cases entry <;> cases op <;> rfl

theorem of_run_eq_ok {entry : Entry} (h : entry.run op f g = .ok m) :
    f.thawed.combine g.bitmap op = .ok m := by
  rw [run_eq] at h
  split at h
  · exact h
  · have hf : f.thawed = f := Filter.ext rfl (of_combine_eq_ok h).1.symm
    rwa [hf]

end Entry

end Filter

end DigestFilter
