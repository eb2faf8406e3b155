import DigestFilter.Proofs.Text.Padding

/-!
# The order of identifiers

Identifiers of one size are compared byte by byte, the first byte first. That byte is the highest
of the number that an identifier denotes, so the order is the order of the numbers, and all that is
said of it here follows from that. Identifiers of one size that denote one number are equal.
-/

namespace DigestFilter.Identifier

variable {x y z : Identifier} {o : Ordering}

/-! ## Bytes and numbers -/

theorem compare_toNat (b c : UInt8) : Ord.compare b.toNat c.toNat = Ord.compare b c := by
  show compareOfLessAndEq b.toNat c.toNat = compareOfLessAndEq b c
  simp [compareOfLessAndEq, UInt8.lt_iff_toNat_lt, UInt8.toNat_inj]

theorem compare_map_toNat (bs cs : List UInt8) :
    Ord.compare (bs.map UInt8.toNat) (cs.map UInt8.toNat) = Ord.compare bs cs := by
  induction bs generalizing cs with
  | nil => cases cs <;> rfl
  | cons b bs ih =>
    cases cs with
    | nil => rfl
    | cons c cs => simp [List.compare_cons_cons, compare_toNat, ih]

theorem compare_of_size_eq (h : x.size = y.size) :
    x.compare y = some (Ord.compare x.toNat y.toNat) := by
  have hlen : (x.digest.map UInt8.toNat).length = (y.digest.map UInt8.toNat).length := by
    simpa [size] using h
  have hvalue := Numeral.compare_value (by decide : 2 ≤ 256) (forall_toNat_lt x.digest)
    (forall_toNat_lt y.digest) hlen
  rw [compare_map_toNat] at hvalue
  unfold compare
  rw [if_pos h, ← hvalue]
  rfl

theorem compare_eq_none_iff : x.compare y = none ↔ x.size ≠ y.size := by
  unfold compare
  split <;> simp [*]

theorem compare_eq_some_iff :
    x.compare y = some o ↔ x.size = y.size ∧ Ord.compare x.toNat y.toNat = o := by
  by_cases h : x.size = y.size
  · simp [h, compare_of_size_eq h]
  · simp [h, compare_eq_none_iff.2 h]

theorem isZero_iff : x.isZero = true ↔ x.toNat = 0 := by
  have hzero : ∀ b : UInt8, b.toNat = 0 ↔ b = 0 := fun b => UInt8.toNat_inj (b := 0)
  unfold isZero toNat
  rw [Numeral.value_eq_zero_iff (by decide)]
  simp [hzero]

/-! ## Before and after -/

theorem lt_iff : x < y ↔ x.size = y.size ∧ x.toNat < y.toNat := by
  rw [← Nat.compare_eq_lt]
  exact compare_eq_some_iff

theorem le_iff : x ≤ y ↔ x.size = y.size ∧ x.toNat ≤ y.toNat := by
  show (x.compare y).any (·.isLE) = true ↔ _
  by_cases h : x.size = y.size
  · simp [h, compare_of_size_eq h, Nat.isLE_compare]
  · simp [h, compare_eq_none_iff.2 h]

theorem compare_swap (x y : Identifier) : y.compare x = (x.compare y).map Ordering.swap := by
  by_cases h : x.size = y.size
  · rw [compare_of_size_eq h, compare_of_size_eq h.symm, Option.map_some, Nat.compare_swap]
  · rw [compare_eq_none_iff.2 h, compare_eq_none_iff.2 (Ne.symm h), Option.map_none]

theorem compare_trans (hxy : x.compare y = some o) (hyz : y.compare z = some o) :
    x.compare z = some o := by
  rw [compare_eq_some_iff] at hxy hyz ⊢
  refine ⟨hxy.1.trans hyz.1, ?_⟩
  cases o with
  | lt => simp only [Nat.compare_eq_lt] at *; omega
  | eq => simp only [Nat.compare_eq_eq] at *; omega
  | gt => simp only [Nat.compare_eq_gt] at *; omega

theorem gt_iff : x > y ↔ x.compare y = some .gt := by
  rw [compare_eq_some_iff, Nat.compare_eq_gt]
  exact lt_iff.trans (and_congr_left' eq_comm)

theorem le_iff_lt_or_beq : x ≤ y ↔ x < y ∨ (x == y) = true := by
  rw [le_iff, lt_iff, beq_iff_toNat]
  omega

/-- Identifiers of one size are in the order of the numbers that they denote. -/
theorem byte_order_is_numeric_order :
    (∀ x y : Identifier, x.compare y = none ↔ x.size ≠ y.size) ∧
    (∀ x y : Identifier, x.size = y.size →
      x.compare y = some (Ord.compare x.toNat y.toNat)) ∧
    (∀ x y : Identifier, (x.compare y = some .eq ↔ (x == y) = true) ∧
      ((x == y) = true ↔ x.digest = y.digest)) ∧
    (∀ x y : Identifier, y.compare x = (x.compare y).map Ordering.swap) ∧
    (∀ (x y z : Identifier) (o : Ordering),
      x.compare y = some o → y.compare z = some o → x.compare z = some o) ∧
    (∀ x y : Identifier, (x < y ↔ x.compare y = some .lt) ∧ (x > y ↔ x.compare y = some .gt) ∧
      (x ≤ y ↔ x < y ∨ (x == y) = true) ∧ (x ≥ y ↔ x > y ∨ (x == y) = true)) ∧
    (∀ x y z : Identifier, x.size = y.size → y.size = z.size →
      x ≤ x ∧ (x ≤ y ∨ y ≤ x) ∧ (x ≤ y → y ≤ x → (x == y) = true) ∧
      (x ≤ y → y ≤ z → x ≤ z) ∧ (x < y ↔ ¬ y ≤ x)) ∧
    (∀ x : Identifier, x.isZero = true ↔ x.toNat = 0) := by
  refine ⟨fun _ _ => compare_eq_none_iff, fun _ _ => compare_of_size_eq, ?_, compare_swap,
    fun _ _ _ _ => compare_trans, ?_, ?_, fun _ => isZero_iff⟩
  · intro x y
    refine ⟨?_, beq_iff⟩
    rw [compare_eq_some_iff, Nat.compare_eq_eq, beq_iff_toNat]
  · intro x y
    refine ⟨Iff.rfl, gt_iff, le_iff_lt_or_beq, ?_⟩
    rw [beq_iff, eq_comm, ← beq_iff]
    exact le_iff_lt_or_beq
  · intro x y z hxy hyz
    refine ⟨le_iff.2 ⟨rfl, Nat.le_refl _⟩, ?_, ?_, ?_, ?_⟩
    all_goals simp only [le_iff, lt_iff, beq_iff_toNat]; omega

def below : Identifier := ⟨[0, 255], true, by decide⟩

def between : Identifier := ⟨[1, 0], true, by decide⟩

def above : Identifier := ⟨[1, 1], false, by decide⟩

theorem byte_order_is_numeric_order_twoBytes :
    (below.size = between.size ∧ below.toNat = 255 ∧ between.toNat = 256 ∧
      below.compare between = some (Ord.compare below.toNat between.toNat)) ∧
    (below.compare between = some .lt ∧ between.compare above = some .lt ∧
      below.compare above = some .lt) ∧
    (between.size = between.thawed.size ∧ between.thawed.size = above.size ∧
      between ≤ between.thawed ∧ between.thawed ≤ between ∧ (between == between.thawed) = true ∧
      between.thawed ≤ above ∧ between ≤ above) := by
  obtain ⟨-, hnumbers, -, -, hrow, -, htotal, -⟩ := byte_order_is_numeric_order
  obtain ⟨-, -, hlevel, hle, -⟩ := htotal between between.thawed above rfl rfl
  have hfirst : below.compare between = some .lt := by decide
  have hsecond : between.compare above = some .lt := by decide
  exact ⟨⟨rfl, by decide, by decide, hnumbers below between rfl⟩,
    ⟨hfirst, hsecond, hrow _ _ _ _ hfirst hsecond⟩,
    ⟨rfl, rfl, by decide, by decide, hlevel (by decide) (by decide), by decide,
      hle (by decide) (by decide)⟩⟩

end DigestFilter.Identifier
