import DigestFilter.Proofs.Filter.SetAlgebra

/-!
# Filters of one size are a Boolean ring

A merge of filters of one size has at every index the bit that its operation makes of their two
bits. So an equation between merges holds as soon as it holds of truth values, and filters obey the
laws of a Boolean ring, with `xor` for the sum and `and` for the product. It does not matter how a
merge is asked for, and filters of two sizes are refused however it is asked for.
-/

namespace DigestFilter

namespace MergeOp

theorem bit_comm (op : MergeOp) (x y : Bool) : op.bit x y = op.bit y x := by
  cases op <;> cases x <;> cases y <;> rfl

theorem bit_assoc (op : MergeOp) (x y z : Bool) :
    op.bit (op.bit x y) z = op.bit x (op.bit y z) := by
  cases op <;> cases x <;> cases y <;> cases z <;> rfl

theorem bit_or_and_self (x y : Bool) : bit .or x (bit .and x y) = x := by
  cases x <;> cases y <;> rfl

theorem bit_and_or_self (x y : Bool) : bit .and x (bit .or x y) = x := by
  cases x <;> cases y <;> rfl

theorem bit_xor_xor_self (x y : Bool) : bit .xor (bit .xor x y) y = x := by
  cases x <;> cases y <;> rfl

theorem bit_xor_or_and (x y : Bool) : bit .xor (bit .or x y) (bit .and x y) = bit .xor x y := by
  cases x <;> cases y <;> rfl

/-- What the outer operation does with a merge it does with the two sides of the merge. -/
def DistributesOver (outer inner : MergeOp) : Prop :=
  ∀ x y z, outer.bit x (inner.bit y z) = inner.bit (outer.bit x y) (outer.bit x z)

theorem distributesOver_or_and : DistributesOver .or .and := by unfold DistributesOver; decide

theorem distributesOver_and_or : DistributesOver .and .or := by unfold DistributesOver; decide

theorem distributesOver_and_xor : DistributesOver .and .xor := by unfold DistributesOver; decide

end MergeOp

namespace Filter

variable {n : Nat} {bit bit' : Nat → Bool} {r s : Except Error Filter} {f g k : Filter}

/-! ## Results and their bits -/

/-- The result is a thawed filter of `n` bytes with these bits. -/
def Yields (n : Nat) (bit : Nat → Bool) (r : Except Error Filter) : Prop :=
  ∃ m, r = .ok m ∧ m.size = n ∧ m.frozen = false ∧ ∀ i < 8 * n, m.get? i = some (bit i)

def bitAt (f : Filter) (i : Nat) : Bool := f.get? i == some true

theorem yields_thawed (h : f.size = n) : Yields n f.bitAt (.ok f.thawed) := by
  refine ⟨f.thawed, rfl, h, rfl, ?_⟩
  intro i hi
  obtain ⟨b, hb⟩ := Option.isSome_iff_exists.1 (f.isSome_get?_iff.2 (h ▸ hi))
  have hget : f.thawed.get? i = some b := hb
  unfold bitAt
  rw [hget, hb]
  cases b <;> rfl

theorem yields_empty (h : empty n = .ok f) : Yields n (fun _ => false) (.ok f) := by
  obtain ⟨hbitmap, hthawed⟩ := ofBytes_eq_ok_iff.1 h
  refine ⟨f, rfl, by simp [size, hbitmap], hthawed, ?_⟩
  intro i hi
  have hbyte : i / 8 < n := by omega
  simp [get?, Bitmap.get?, hbitmap, hbyte]

theorem Yields.merge (hr : Yields n bit r) (hs : Yields n bit' s) (op : MergeOp) :
    Yields n (fun i => op.bit (bit i) (bit' i)) (do (← r).merge (← s) op) := by
  obtain ⟨f, rfl, hf, -, hleft⟩ := hr
  obtain ⟨g, rfl, hg, -, hright⟩ := hs
  obtain ⟨m, hm⟩ := merge_of_size_eq (hf.trans hg.symm) op
  refine ⟨m, hm, (size_merge hm).trans hf, (of_merge_eq_ok hm).2.2, ?_⟩
  intro i hi
  rw [get?_merge hm, hleft i hi, hright i hi]
  rfl

theorem Yields.eq (hr : Yields n bit r) (hs : Yields n bit' s) (h : ∀ i, bit i = bit' i) :
    r = s := by
  obtain ⟨f, rfl, hf, hfthawed, hleft⟩ := hr
  obtain ⟨g, rfl, hg, hgthawed, hright⟩ := hs
  congr 1
  apply Filter.ext _ (hfthawed.trans hgthawed.symm)
  apply Bitmap.ext_get?
  intro i
  by_cases hi : i < 8 * n
  · exact (hleft i hi).trans ((congrArg some (h i)).trans (hright i hi).symm)
  · have hend : ∀ {f : Filter}, f.size = n → Bitmap.get? f.bitmap i = none :=
      fun hsize => Bitmap.get?_eq_none_iff.2 (by unfold size at hsize; omega)
    rw [hend hf, hend hg]

/-! ## Laws -/

theorem merge_comm (h : f.size = g.size) (op : MergeOp) : f.merge g op = g.merge f op := by
  have hf := yields_thawed h
  have hg := yields_thawed (f := g) rfl
  exact (hf.merge hg op).eq (hg.merge hf op) fun _ => op.bit_comm _ _

theorem merge_assoc (hfg : f.size = g.size) (hgk : g.size = k.size) (op : MergeOp) :
    (do (← f.merge g op).merge k op) = (do f.merge (← g.merge k op) op) := by
  have hf := yields_thawed hfg
  have hg := yields_thawed (f := g) rfl
  have hk := yields_thawed hgk.symm
  exact ((hf.merge hg op).merge hk op).eq (hf.merge (hg.merge hk op) op)
    fun _ => op.bit_assoc _ _ _

theorem merge_distrib {outer inner : MergeOp} (h : outer.DistributesOver inner)
    (hfg : f.size = g.size) (hgk : g.size = k.size) :
    (do f.merge (← g.merge k inner) outer) =
      (do (← f.merge g outer).merge (← f.merge k outer) inner) := by
  have hf := yields_thawed hfg
  have hg := yields_thawed (f := g) rfl
  have hk := yields_thawed hgk.symm
  exact (hf.merge (hg.merge hk inner) outer).eq
    ((hf.merge hg outer).merge (hf.merge hk outer) inner) fun _ => h _ _ _

/-! ## All the ways in -/

theorem Entry.run_thawed (entry : Entry) (op : MergeOp) (f g : Filter) :
    entry.run op f.thawed g = f.merge g op := by
  rw [entry.run_eq]
  split <;> rfl

theorem Entry.run_of_makesNew {entry : Entry} (h : entry.makesNew) (op : MergeOp)
    (f g : Filter) : entry.run op f g = f.merge g op := by
  rw [entry.run_eq, if_pos h]
  rfl

/-- Merges of filters of one size obey the laws of a Boolean ring, up to the flag. -/
theorem merges_form_boolean_ring :
    (∀ a b c zero : Filter, a.size = b.size → b.size = c.size → empty a.size = .ok zero →
      (a.or b = b.or a ∧ a.and b = b.and a ∧ a.xor b = b.xor a) ∧
      ((do (← a.or b).or c) = (do a.or (← b.or c)) ∧
        (do (← a.and b).and c) = (do a.and (← b.and c)) ∧
        (do (← a.xor b).xor c) = (do a.xor (← b.xor c))) ∧
      ((do a.or (← b.and c)) = (do (← a.or b).and (← a.or c)) ∧
        (do a.and (← b.or c)) = (do (← a.and b).or (← a.and c)) ∧
        (do a.and (← b.xor c)) = (do (← a.and b).xor (← a.and c))) ∧
      (a.or a = .ok a.thawed ∧ a.and a = .ok a.thawed) ∧
      ((do a.or (← a.and b)) = .ok a.thawed ∧ (do a.and (← a.or b)) = .ok a.thawed) ∧
      (a.xor a = .ok zero ∧ (do (← a.xor b).xor b) = .ok a.thawed ∧
        (do (← a.or b).xor (← a.and b)) = a.xor b) ∧
      zero.isEmpty ∧
      (a.or zero = .ok a.thawed ∧ a.xor zero = .ok a.thawed ∧ a.and zero = .ok zero)) ∧
    (∀ (a b : Filter) (op : MergeOp),
      (∀ entry : Entry, entry.run op a.thawed b = a.merge b op ∧
        (entry.makesNew → entry.run op a b = a.merge b op)) ∧
      (a.size = b.size → ∃ m, a.merge b op = .ok m ∧ m.size = a.size ∧ m.frozen = false ∧
        m.bitmap = List.zipWith op.apply a.bitmap b.bitmap) ∧
      (a.size ≠ b.size → a.merge b op = .error (.sizeMismatch a.size b.size))) := by
  constructor
  · intro a b c zero hab hbc hzero
    have ha := yields_thawed (f := a) rfl
    have hb := yields_thawed hab.symm
    have h0 := yields_empty hzero
    refine ⟨⟨merge_comm hab .or, merge_comm hab .and, merge_comm hab .xor⟩,
      ⟨merge_assoc hab hbc .or, merge_assoc hab hbc .and, merge_assoc hab hbc .xor⟩,
      ⟨merge_distrib MergeOp.distributesOver_or_and hab hbc,
        merge_distrib MergeOp.distributesOver_and_or hab hbc,
        merge_distrib MergeOp.distributesOver_and_xor hab hbc⟩,
      ⟨?_, ?_⟩, ⟨?_, ?_⟩, ⟨?_, ?_, ?_⟩, ?_, ?_, ?_, ?_⟩
    · exact (ha.merge ha .or).eq ha fun _ => Bool.or_self _
    · exact (ha.merge ha .and).eq ha fun _ => Bool.and_self _
    · exact (ha.merge (ha.merge hb .and) .or).eq ha fun _ => MergeOp.bit_or_and_self _ _
    · exact (ha.merge (ha.merge hb .or) .and).eq ha fun _ => MergeOp.bit_and_or_self _ _
    · exact (ha.merge ha .xor).eq h0 fun _ => Bool.xor_self _
    · exact ((ha.merge hb .xor).merge hb .xor).eq ha fun _ => MergeOp.bit_xor_xor_self _ _
    · exact ((ha.merge hb .or).merge (ha.merge hb .and) .xor).eq (ha.merge hb .xor)
        fun _ => MergeOp.bit_xor_or_and _ _
    · simp [isEmpty, (ofBytes_eq_ok_iff.1 hzero).1]
    · exact (ha.merge h0 .or).eq ha fun _ => Bool.or_false _
    · exact (ha.merge h0 .xor).eq ha fun _ => Bool.xor_false _
    · exact (ha.merge h0 .and).eq h0 fun _ => Bool.and_false _
  · intro a b op
    refine ⟨fun entry => ⟨entry.run_thawed op a b, fun h => Entry.run_of_makesNew h op a b⟩, ?_,
      fun h => merge_of_size_ne h op⟩
    intro h
    obtain ⟨m, hm⟩ := merge_of_size_eq h op
    obtain ⟨-, hbitmap, hthawed⟩ := of_merge_eq_ok hm
    exact ⟨m, hm, size_merge hm, hthawed, hbitmap⟩

def lowRow : Filter := ⟨[0b1100, 0xff], true, by decide⟩

def midRow : Filter := ⟨[0b1010, 0x0f], false, by decide⟩

def highRow : Filter := ⟨[0b0110, 0], false, by decide⟩

def clearRow : Filter := ⟨[0, 0], false, by decide⟩

theorem merges_form_boolean_ring_rows :
    (lowRow.size = midRow.size ∧ midRow.size = highRow.size ∧ empty lowRow.size = .ok clearRow ∧
      (do lowRow.and (← midRow.xor highRow)) =
        (do (← lowRow.and midRow).xor (← lowRow.and highRow)) ∧
      (do (← lowRow.xor midRow).xor midRow) = .ok lowRow.thawed) ∧
    (lowRow.size = midRow.size ∧
      ∃ m, lowRow.merge midRow .xor = .ok m ∧ m.bitmap = [0b0110, 0xf0]) ∧
    (Entry.operator.makesNew ∧
      Entry.run .operator .and lowRow midRow = lowRow.merge midRow .and) ∧
    (lowRow.size ≠ oneAndTwo.size ∧
      lowRow.merge oneAndTwo .or = .error (.sizeMismatch 2 1)) := by
  obtain ⟨hlaws, hentries⟩ := merges_form_boolean_ring
  obtain ⟨-, -, ⟨-, -, hdistrib⟩, -, -, ⟨-, hback, -⟩, -, -⟩ :=
    hlaws lowRow midRow highRow clearRow rfl rfl rfl
  obtain ⟨-, hmerge, -⟩ := hentries lowRow midRow .xor
  obtain ⟨m, hm, -, -, hbitmap⟩ := hmerge rfl
  exact ⟨⟨rfl, rfl, rfl, hdistrib, hback⟩, ⟨rfl, m, hm, hbitmap.trans (by decide)⟩,
    ⟨rfl, ((hentries lowRow midRow .and).1 .operator).2 rfl⟩,
    ⟨by decide, (hentries lowRow oneAndTwo .or).2.2 (by decide)⟩⟩

end Filter

end DigestFilter
