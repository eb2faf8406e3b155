import DigestFilter.Proofs.Filter.Header
import DigestFilter.Proofs.Value.Change

/-!
# A filter forgets nothing

Once an element is in a filter it stays, over any run of operations of which none takes bits away
that the element needs. The invariant of such a run is that every bit of the element is set; most
operations keep it because they keep every bit that was set, an intersection because both of its
sides have the element.
-/

namespace DigestFilter.Filter

variable {α : Type} [Hashed α] {x : α} {f g m : Filter}

/-! ## Inclusion of bitmaps -/

/-- `g` has the size of `f` and every bit that is set in `f`. -/
def Includes (g f : Filter) : Prop :=
  g.size = f.size ∧ ∀ i, f.get? i = some true → g.get? i = some true

theorem contains_of_includes (h : g.Includes f) (hf : f.contains x = true) :
    g.contains x = true := by
  rw [contains_iff] at hf ⊢
  intro code hcode
  rw [h.1]
  exact h.2 _ (hf code hcode)

/-! ## Insertion and single bits -/

theorem of_insert_eq_ok (h : f.insert x = .ok g) :
    f.frozen = false ∧ g = f.setBits ((hashes x).map f.position) := by
  unfold insert at h
  split at h
  · cases h
  · next hf =>
    cases h
    exact ⟨by simpa using hf, rfl⟩

theorem get?_insert (h : f.insert x = .ok g) {i : Nat} :
    g.get? i = some true ↔ f.get? i = some true ∨ i ∈ (hashes x).map f.position := by
  obtain ⟨-, rfl⟩ := of_insert_eq_ok h
  apply f.get?_setBits_eq_true
  intro i hi
  obtain ⟨code, -, rfl⟩ := List.mem_map.1 hi
  exact f.position_lt code

theorem includes_insert (h : f.insert x = .ok g) : g.Includes f := by
  refine ⟨?_, fun i hi => (get?_insert h).2 (Or.inl hi)⟩
  obtain ⟨-, rfl⟩ := of_insert_eq_ok h
  exact f.size_setBits _

theorem contains_insert (h : f.insert x = .ok g) : g.contains x = true := by
  rw [contains_iff, (includes_insert h).1]
  intro code hcode
  exact (get?_insert h).2 (Or.inr (List.mem_map_of_mem hcode))

theorem includes_set {i : Nat} (h : f.set i true = .ok g) : g.Includes f := by
  unfold set at h
  split at h
  · cases h
  split at h
  · cases h
  cases h
  refine ⟨Bitmap.length_put _ _ _, ?_⟩
  intro j hj
  show Bitmap.get? (Bitmap.put true i f.bitmap) j = some true
  rw [Bitmap.get?_put]
  split
  · rw [show Bitmap.get? f.bitmap j = some true from hj]
    rfl
  · exact hj

/-! ## Merges -/

theorem includes_combine_or {bs : List UInt8} (h : f.combine bs .or = .ok m) : m.Includes f :=
  ⟨size_combine h, fun _ hi => (get?_combine_or h).2 (Or.inl hi)⟩

theorem Entry.includes_or {entry : Entry} (h : entry.run .or f g = .ok m) :
    m.Includes f ∧ m.Includes g := by
  have hcombine := Entry.of_run_eq_ok h
  have hleft : m.Includes f.thawed := includes_combine_or hcombine
  have hsize : g.size = f.size := (of_combine_eq_ok hcombine).2.1
  refine ⟨hleft, (size_combine hcombine).trans hsize.symm, ?_⟩
  intro i hi
  exact (get?_combine_or hcombine).2 (Or.inr hi)

theorem Entry.contains_and {entry : Entry} (h : entry.run .and f g = .ok m) :
    m.contains x = true ↔ f.contains x = true ∧ g.contains x = true := by
  rw [← f.contains_thawed]
  exact contains_combine_and (Entry.of_run_eq_ok h)

/-! ## Changes -/

namespace Change

/-- The changes that take no bit of `x` away when they succeed. -/
def Keeps (x : α) : Change → Prop
  | @insert _ _ _ => True
  | .set _ value => value = true
  | .clear => False
  | .merge _ _ op right => op = .or ∨ op = .and ∧ right.contains x = true
  | .mergeBytes bs op => op = .or ∨ op = .and ∧ ∃ g : Filter, g.bitmap = bs ∧ g.contains x = true

theorem contains_apply {c : Change} (hkeeps : c.Keeps x) (h : c.apply f = .ok g)
    (hf : f.contains x = true) : g.contains x = true := by
  cases c with
  | insert y => exact contains_of_includes (includes_insert h) hf
  | set index value =>
    cases hkeeps
    exact contains_of_includes (includes_set h) hf
  | clear => exact hkeeps.elim
  | merge entry inPlace op right =>
    rcases hkeeps with rfl | ⟨rfl, hright⟩
    · exact contains_of_includes (Entry.includes_or h).1 hf
    · exact (Entry.contains_and h).2 ⟨hf, hright⟩
  | mergeBytes bs op =>
    rcases hkeeps with rfl | ⟨rfl, right, rfl, hright⟩
    · exact contains_of_includes (includes_combine_or h) hf
    · exact (contains_combine_and h).2 ⟨hf, hright⟩

end Change

/-! ## Operations and runs -/

/-- What can be done with a filter. A merge that makes a new one can have it on either side. -/
inductive Op : Type 1 where
  | change (c : Change)
  | mergeLeft (entry : Entry) (makesNew : entry.makesNew = true) (op : MergeOp) (right : Filter)
  | mergeRight (entry : Entry) (op : MergeOp) (left : Filter)
  | freeze
  | clone
  | dup
  | reload (withHeader : Bool)

namespace Op

def apply : Op → Filter → Except Error Filter
  | .change c, f => c.apply f
  | .mergeLeft entry _ op right, f => entry.run op f right
  | .mergeRight entry op left, f => entry.run op left f
  | .freeze, f => .ok f.freeze
  | .clone, f => .ok f
  | .dup, f => .ok f.thawed
  | .reload withHeader, f => decode (f.encode withHeader)

/-- The filter to go on with; a failed operation leaves the one there was. -/
def after (op : Op) (f : Filter) : Filter :=
  match op.apply f with
  | .ok g => g
  | .error _ => f

def Keeps (x : α) : Op → Filter → Prop
  | .change c, _ => c.Keeps x
  | .mergeLeft _ _ op g, _ | .mergeRight _ op g, _ => op = .or ∨ op = .and ∧ g.contains x = true
  | .freeze, _ => True
  | .clone, _ => True
  | .dup, _ => True
  | .reload _, f => f.size < 2 ^ 63

def Safe (x : α) (op : Op) (f : Filter) : Prop := op.Keeps x f ∨ ∃ e, op.apply f = .error e

end Op

def run : List Op → Filter → Filter
  | [], f => f
  | op :: ops, f => run ops (op.after f)

def SafeRun (x : α) : List Op → Filter → Prop
  | [], _ => True
  | op :: ops, f => op.Safe x f ∧ SafeRun x ops (op.after f)

/-! ## What operations and runs keep -/

theorem contains_apply {op : Op} (hkeeps : op.Keeps x f) (h : op.apply f = .ok g)
    (hf : f.contains x = true) : g.contains x = true := by
  cases op with
  | change c => exact Change.contains_apply hkeeps h hf
  | mergeLeft entry makesNew op right =>
    rcases hkeeps with rfl | ⟨rfl, hright⟩
    · exact contains_of_includes (Entry.includes_or h).1 hf
    · exact (Entry.contains_and h).2 ⟨hf, hright⟩
  | mergeRight entry op left =>
    rcases hkeeps with rfl | ⟨rfl, hleft⟩
    · exact contains_of_includes (Entry.includes_or h).2 hf
    · exact (Entry.contains_and h).2 ⟨hleft, hf⟩
  | freeze | clone | dup =>
    cases h
    exact hf
  | reload withHeader =>
    have hback : decode (f.encode withHeader) = .ok g := h
    rw [decode_encode hkeeps] at hback
    cases hback
    exact hf

theorem contains_after {op : Op} (hsafe : op.Safe x f) (hf : f.contains x = true) :
    (op.after f).contains x = true := by
  unfold Op.after
  cases h : op.apply f with
  | error e => exact hf
  | ok g =>
    rcases hsafe with hkeeps | ⟨e, he⟩
    · exact contains_apply hkeeps h hf
    · rw [h] at he
      cases he

theorem contains_run {ops : List Op} (hsafe : SafeRun x ops f) (hf : f.contains x = true) :
    (run ops f).contains x = true := by
  induction ops generalizing f with
  | nil => exact hf
  | cons op ops ih => exact ih hsafe.2 (contains_after hsafe.1 hf)

/-- An element that was inserted is found after any run of operations that are safe for it. -/
theorem no_false_negatives {ops : List Op} (hinsert : f.insert x = .ok g)
    (hsafe : SafeRun x ops g) :
    (run ops g).contains x = true ∧ (run ops g).count x = 1 := by
  have h := contains_run hsafe (contains_insert hinsert)
  exact ⟨h, by simp [count, h]⟩

/-- Of every safe kind. The second `set` is out of bounds, and clearing comes too late. -/
def safeOps : List Op :=
  let full : Filter := ⟨[0xFF], true, by decide⟩
  [.change (.insert [(11 : UInt32)]), .change (.set 5 true), .change (.set 8 true),
    .mergeLeft .named rfl .or eightBits, .mergeRight .operator .and full,
    .change (.mergeBytes [0xFF] .and), .freeze, .change .clear, .clone,
    .change (.merge .bytes rfl .xor full), .dup, .reload true]

theorem no_false_negatives_safeOps :
    ∃ g, eightBits.insert [(9 : UInt32), 1] = .ok g ∧ SafeRun [(9 : UInt32), 1] safeOps g ∧
      (run safeOps g).contains [(9 : UInt32), 1] = true ∧
      (run safeOps g).count [(9 : UInt32), 1] = 1 := by
  have hinsert := eightBits.insert_of_thawed rfl [(9 : UInt32), 1]
  refine ⟨_, hinsert, ?_⟩
  have hsafe : SafeRun [(9 : UInt32), 1] safeOps
      (eightBits.setBits ((hashes [(9 : UInt32), 1]).map eightBits.position)) := by
    refine ⟨.inl trivial, .inl rfl, .inr ⟨_, rfl⟩, .inl (.inl rfl), .inl (.inr ⟨rfl, by decide⟩),
      .inl (.inr ⟨rfl, ⟨[0xFF], true, by decide⟩, rfl, by decide⟩), .inl trivial, .inr ⟨_, rfl⟩,
      .inl trivial, .inr ⟨_, rfl⟩, .inl trivial, .inl ?_, trivial⟩
    show (1 : Nat) < 2 ^ 63
    decide
  exact ⟨hsafe, no_false_negatives hinsert hsafe⟩

end DigestFilter.Filter
