import DigestFilter.Proofs.Value.Heap
import DigestFilter.Proofs.Value.InPlace

/-!
# Frozen values

Freezing cannot be undone. A frozen value refuses every change before anything else is looked at,
and a change that is refused, for this or for any other reason, has not touched the value. So its
bytes are the same after any run; only copies can be changed, and of those a clone is frozen too.
-/

namespace DigestFilter

namespace Item

@[simp] theorem frozen_freeze (item : Item) : item.freeze.frozen = true := by
  cases item <;> rfl

@[simp] theorem content_freeze (item : Item) : item.freeze.content = item.content := by
  cases item <;> rfl

@[simp] theorem frozen_thawed (item : Item) : item.thawed.frozen = false := by
  cases item <;> rfl

@[simp] theorem content_thawed (item : Item) : item.thawed.content = item.content := by
  cases item <;> rfl

end Item

namespace Heap

variable {h : Heap} {i j : Nat} {item : Item}

theorem run_of_frozen (hi : h[i]? = some item) (hfrozen : item.frozen = true)
    (calls : List Call) : (h.run calls)[i]? = some item := by
  obtain ⟨item', hi', hitem⟩ := h.becomes_run calls i item hi
  rw [hi', hitem.eq_of_frozen hfrozen]

theorem step_freeze (hi : h[i]? = some item) :
    h.step (.freeze i) = (.ok (), h.set i item.freeze) := by
  rw [step, alter, item?_eq_ok_iff.2 hi]
  rfl

theorem run_freeze (hi : h[i]? = some item) (calls : List Call) :
    (h.run (.freeze i :: calls))[i]? = some item.freeze := by
  have hfrozen : (h.step (.freeze i)).2[i]? = some item.freeze := by
    rw [step_freeze hi]
    exact List.getElem?_set_self (List.getElem?_eq_some_iff.1 hi).1
  exact run_of_frozen hfrozen item.frozen_freeze calls

theorem step_clone (hi : h[i]? = some item) :
    h.step (.make (.clone i)) = (.ok (), h ++ [item]) := by
  rw [step, Origin.make, item?_eq_ok_iff.2 hi]
  rfl

theorem step_dup (hi : h[i]? = some item) :
    h.step (.make (.dup i)) = (.ok (), h ++ [item.thawed]) := by
  rw [step, Origin.make, item?_eq_ok_iff.2 hi]
  rfl

section Merge

variable {f g : Filter} {entry : Filter.Entry} {op : MergeOp}

theorem make_merge (makesNew : entry.makesNew = true) (hi : h[i]? = some (.filter f))
    (hj : h[j]? = some (.filter g)) :
    (Origin.merge entry makesNew op i j).make h =
      Refusal.lift ((f.thawed.combine g.bitmap op).map .filter) := by
  rw [Origin.make, filter?_eq_ok_iff.2 hi, filter?_eq_ok_iff.2 hj]
  simp only [Except.bind, Filter.Entry.run_eq, makesNew, if_true]

theorem step_merge (makesNew : entry.makesNew = true) (hi : h[i]? = some (.filter f))
    (hj : h[j]? = some (.filter g)) (hsize : g.size = f.size) :
    ∃ m : Filter, m.frozen = false ∧ m.bitmap = List.zipWith op.apply f.bitmap g.bitmap ∧
      h.step (.make (.merge entry makesNew op i j)) = (.ok (), h ++ [.filter m]) := by
  obtain ⟨m, hm⟩ := Filter.combine_of_size_eq (f := f.thawed) rfl hsize op
  obtain ⟨-, -, hbitmap, hfrozen⟩ := Filter.of_combine_eq_ok hm
  refine ⟨m, hfrozen, hbitmap, ?_⟩
  rw [step, make_merge makesNew hi hj, hm]
  rfl

theorem step_merge_of_ne (makesNew : entry.makesNew = true) (hi : h[i]? = some (.filter f))
    (hj : h[j]? = some (.filter g)) (hsize : g.size ≠ f.size) :
    h.step (.make (.merge entry makesNew op i j)) =
      (.error (.error (.sizeMismatch f.size g.size)), h) := by
  have hcombine : f.thawed.combine g.bitmap op = .error (.sizeMismatch f.size g.size) :=
    (Filter.combine_eq_error_iff rfl).2 ⟨hsize, rfl⟩
  rw [step, make_merge makesNew hi hj, hcombine]
  rfl

end Merge

/-- A frozen value stays as it was, whatever is called. -/
theorem freezing_is_permanent :
    (∀ (c : Identifier.Change) (x : Identifier),
      (x.frozen = true → c.apply x = .error (.frozen .identifier)) ∧
      (x.frozen = false → ∀ e, c.apply x = .error e ↔
        ∃ index byte, c = .set index byte ∧ x.size ≤ index ∧ e = .outOfBounds index x.size) ∧
      (c.routine x.frozen).runOn x.digest = Routine.ending Identifier.digest x (c.apply x)) ∧
    (∀ (c : Filter.Change) (f : Filter),
      (f.frozen = true → c.apply f = .error (.frozen .filter)) ∧
      (f.frozen = false → ∀ e, c.apply f = .error e ↔
        (∃ index value, c = .set index value ∧ f.bitSize ≤ index ∧
          e = .outOfBounds index f.bitSize) ∨
        ∃ bs, c.operand? = some bs ∧ bs.length ≠ f.size ∧ e = .sizeMismatch f.size bs.length) ∧
      (f.size < 2 ^ 61 →
        (c.routine f.frozen).runOn f.bitmap = Routine.ending Filter.bitmap f (c.apply f))) ∧
    (∀ (h : Heap) (call : Call) (refusal : Refusal),
      (h.step call).1 = .error refusal → (h.step call).2 = h) ∧
    (∀ (h : Heap) (i : Nat) (item : Item), h[i]? = some item →
      (h.step (.freeze i) = (.ok (), h.set i item.freeze) ∧
        item.freeze.frozen = true ∧ item.freeze.content = item.content) ∧
      (∀ calls, (h.run (.freeze i :: calls))[i]? = some item.freeze) ∧
      (item.frozen = true → ∀ calls, (h.run calls)[i]? = some item) ∧
      h.step (.make (.clone i)) = (.ok (), h ++ [item]) ∧
      h.step (.make (.dup i)) = (.ok (), h ++ [item.thawed]) ∧
      item.thawed.frozen = false ∧ item.thawed.content = item.content) ∧
    (∀ (h : Heap) (i j : Nat) (f g : Filter) (entry : Filter.Entry)
      (makesNew : entry.makesNew = true) (op : MergeOp),
      h[i]? = some (.filter f) → h[j]? = some (.filter g) →
      (g.size = f.size → ∃ m : Filter,
        m.frozen = false ∧ m.bitmap = List.zipWith op.apply f.bitmap g.bitmap ∧
        h.step (.make (.merge entry makesNew op i j)) = (.ok (), h ++ [.filter m])) ∧
      (g.size ≠ f.size → h.step (.make (.merge entry makesNew op i j)) =
        (.error (.error (.sizeMismatch f.size g.size)), h))) := by
  refine ⟨?_, ?_, fun _ _ _ => step_of_error, ?_, ?_⟩
  · intro c x
    exact ⟨c.apply_of_frozen, fun hthawed e => Identifier.Change.apply_eq_error_iff hthawed,
      c.runOn_routine x⟩
  · intro c f
    exact ⟨c.apply_of_frozen, fun hthawed e => Filter.Change.apply_eq_error_iff hthawed,
      c.runOn_routine⟩
  · intro h i item hi
    exact ⟨⟨step_freeze hi, item.frozen_freeze, item.content_freeze⟩, run_freeze hi,
      run_of_frozen hi, step_clone hi, step_dup hi, item.frozen_thawed, item.content_thawed⟩
  · intro h i j f g entry makesNew op hi hj
    exact ⟨step_merge makesNew hi hj, step_merge_of_ne makesNew hi hj⟩

def assorted : Heap :=
  [.identifier ⟨[1, 2], false, by decide⟩, .filter ⟨[0xF0], true, by decide⟩,
    .filter ⟨[3], false, by decide⟩, .filter ⟨[1, 2], false, by decide⟩]

def assortedCalls : List Call :=
  [.changeIdentifier 0 .clear, .changeFilter 1 (.set 0 true), .mergeInto 1 2 .inPlace rfl .or,
    .mergeInto 2 1 .namedInPlace rfl .xor, .make (.dup 1), .freeze 2]

theorem freezing_is_permanent_assorted :
    (Identifier.Change.set 9 0).apply ⟨[1, 2], true, by decide⟩ = .error (.frozen .identifier) ∧
    (Identifier.Change.set 9 0).apply ⟨[1, 2], false, by decide⟩ = .error (.outOfBounds 9 2) ∧
    (Filter.Change.mergeBytes [1, 2] .or).apply ⟨[0xF0], true, by decide⟩ =
      .error (.frozen .filter) ∧
    (Filter.Change.mergeBytes [1, 2] .or).apply ⟨[4], false, by decide⟩ =
      .error (.sizeMismatch 1 2) ∧
    (1 < 2 ^ 61 ∧ ((Filter.Change.set 8 true).routine false).runOn [4] =
      (.error (.refused (.outOfBounds 8 8)), [4])) ∧
    ((assorted.step (.changeFilter 1 .clear)).1 = .error (.error (.frozen .filter)) ∧
      (assorted.step (.changeFilter 1 .clear)).2 = assorted) ∧
    (assorted.run (.freeze 0 :: assortedCalls))[0]? =
      some (.identifier ⟨[1, 2], true, by decide⟩) ∧
    (assorted.run assortedCalls)[1]? = some (.filter ⟨[0xF0], true, by decide⟩) ∧
    (∃ m : Filter, m.frozen = false ∧ m.bitmap = [0xF3] ∧
      assorted.step (.make (.merge .named rfl .or 1 2)) = (.ok (), assorted ++ [.filter m])) ∧
    assorted.step (.make (.merge .operator rfl .or 1 3)) =
      (.error (.error (.sizeMismatch 1 2)), assorted) := by
  obtain ⟨hidentifier, hfilter, hrefused, hitem, hmerge⟩ := freezing_is_permanent
  refine ⟨(hidentifier _ _).1 rfl, ((hidentifier _ _).2.1 rfl _).2 ⟨9, 0, rfl, by decide, rfl⟩,
    (hfilter _ _).1 rfl, ((hfilter _ _).2.1 rfl _).2 (.inr ⟨_, rfl, by decide, rfl⟩),
    ⟨by decide, (hfilter (.set 8 true) ⟨[4], false, by decide⟩).2.2 (by decide)⟩,
    ⟨rfl, hrefused _ _ _ rfl⟩, (hitem assorted 0 _ rfl).2.1 assortedCalls,
    (hitem assorted 1 _ rfl).2.2.1 rfl assortedCalls, ?_, ?_⟩
  · exact (hmerge assorted 1 2 _ _ .named rfl .or rfl rfl).1 rfl
  · exact (hmerge assorted 1 3 _ _ .operator rfl .or rfl rfl).2 (by decide)

end Heap

end DigestFilter
