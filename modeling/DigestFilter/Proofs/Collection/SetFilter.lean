import DigestFilter.Proofs.Collection.SetRun
import DigestFilter.Proofs.Filter.SetAlgebra

/-!
# The filter of a set of identifiers

A filter is built from the members in whatever order they are enumerated. The digests decide how
many members there are and which hash codes they have, so they decide the filter; the calls that
have led to the set, and the frozen flags that they have left, do not show.
-/

namespace DigestFilter

namespace Filter

variable {α : Type} [Hashed α] {xs ys : List α}

theorem ofElements_eq_some (xs : List α) (size : Option Nat) :
    ofElements xs size = ofElements xs (some (size.getD (max 1 xs.length))) := rfl

theorem ofElements_congr (hlen : xs.length = ys.length)
    (h : ∀ code, code ∈ codes xs ↔ code ∈ codes ys) (size : Option Nat) :
    ofElements xs size = ofElements ys size := by
  rw [ofElements_eq_some xs, ofElements_eq_some ys, hlen]
  generalize size.getD (max 1 ys.length) = n
  rcases Nat.eq_zero_or_pos n with rfl | hpos
  · rfl
  · obtain ⟨fresh, hfresh, -, hfrozen, -⟩ := empty_of_pos hpos
    have hxs : ofElements xs (some n) = fresh.insertAll xs := ofElements_eq hfresh rfl
    have hys : ofElements ys (some n) = fresh.insertAll ys := ofElements_eq hfresh rfl
    rw [hxs, hys]
    exact fresh.insertAll_congr hfrozen h

end Filter

namespace IdSet

/-- What collecting identifiers and then some calls leave. -/
def after (xs : List Identifier) (calls : List Call) : IdSet := ((ofList xs).run calls).2

variable {s t : IdSet} {order order' : List Identifier}

theorem ofElements_of_digests_perm
    (h : (order.map Identifier.digest).Perm (order'.map Identifier.digest)) (size : Option Nat) :
    Filter.ofElements order size = Filter.ofElements order' size := by
  apply Filter.ofElements_congr
  · simpa using h.length_eq
  · intro code
    have hcodes : ∀ {xs ys : List Identifier},
        (∀ d ∈ xs.map Identifier.digest, d ∈ ys.map Identifier.digest) →
        code ∈ codes xs → code ∈ codes ys := by
      intro xs ys hsub hcode
      obtain ⟨x, hx, hcode⟩ := mem_codes.1 hcode
      obtain ⟨y, hy, hd⟩ := List.mem_map.1 (hsub x.digest (List.mem_map_of_mem hx))
      rw [← Identifier.hashes_eq_of_digest_eq hd] at hcode
      exact mem_codes.2 ⟨y, hy, hcode⟩
    exact ⟨hcodes fun d => h.mem_iff.1, hcodes fun d => h.mem_iff.2⟩

theorem exists_toFilter (s : IdSet) {size : Option Nat} (h : size ≠ some 0) :
    ∃ f, s.toFilter size = .ok f ∧ f.frozen = false ∧ f.size = size.getD (max 1 s.size) ∧
      (∀ x, s.contains x = true → f.contains x = true) ∧
      ∀ i, f.get? i = some true ↔
        ∃ x ∈ s.members, ∃ code ∈ hashes x, code.toNat % (8 * f.size) = i := by
  have hpos : 0 < size.getD (max 1 s.members.length) := by
    cases size with
    | none => exact Nat.lt_of_lt_of_le Nat.one_pos (Nat.le_max_left _ _)
    | some n => exact Nat.pos_of_ne_zero fun hn => h (congrArg some hn)
  obtain ⟨f, hf, hsize, hfrozen, hget⟩ := Filter.ofElements_some hpos s.members
  refine ⟨f, hf, hfrozen, hsize, ?_, ?_⟩
  · intro x hx
    obtain ⟨y, hy, hd⟩ := s.mem_flags_iff.1 (s.contains_iff x |>.1 hx)
    have hcontains := Filter.contains_ofElements hf hy
    rw [Filter.contains_iff] at hcontains ⊢
    rwa [← Identifier.hashes_eq_of_digest_eq hd]
  · intro i
    rw [hget, hsize, exists_mem_codes]

/-- Sets with the same digests make the same filter of every size. -/
theorem toFilter_depends_on_digests {xs ys : List Identifier} {calls calls' : List Call}
    (h : ∀ d, d ∈ (after xs calls).members.map Identifier.digest ↔
      d ∈ (after ys calls').members.map Identifier.digest) :
    (∀ order order' : List Identifier, order.Perm (after xs calls).members →
      order'.Perm (after ys calls').members → ∀ size,
        Filter.ofElements order size = Filter.ofElements order' size ∧
        (after xs calls).toFilter size = Filter.ofElements order size ∧
        (after ys calls').toFilter size = Filter.ofElements order' size) ∧
    (after xs calls).toFilter (some 0) = .error (.argument .emptyBitmap) ∧
    ∀ size, size ≠ some 0 → ∃ f, (after xs calls).toFilter size = .ok f ∧ f.frozen = false ∧
      f.size = size.getD (max 1 (after xs calls).size) ∧
      (∀ x, (after xs calls).contains x = true → f.contains x = true) ∧
      ∀ i, f.get? i = some true ↔ ∃ x ∈ (after xs calls).members,
        ∃ code ∈ hashes x, code.toNat % (8 * f.size) = i := by
  refine ⟨?_, rfl, fun size => exists_toFilter _⟩
  intro order order' horder horder' size
  have hsame := (List.perm_ext_iff_of_nodup (after xs calls).nodup (after ys calls').nodup).2 h
  refine ⟨?_, ofElements_of_digests_perm (horder.map _).symm size,
    ofElements_of_digests_perm (horder'.map _).symm size⟩
  apply ofElements_of_digests_perm
  exact (horder.map _).trans (hsame.trans (horder'.map _).symm)

def keyOf (n : UInt8) : Identifier := ⟨[n, 0, 0, 0], false, by simp⟩

def byRemoving : IdSet := after [keyOf 5, keyOf 8] [.remove (keyOf 5), .insert frozenKey]

def byInserting : IdSet := after [frozenKey.thawed] [.insert (keyOf 8)]

theorem toFilter_depends_on_digests_byRemoving :
    (∀ d, d ∈ byRemoving.members.map Identifier.digest ↔
      d ∈ byInserting.members.map Identifier.digest) ∧
    [keyOf 8, frozenKey].Perm byRemoving.members ∧
    [frozenKey.thawed, keyOf 8].Perm byInserting.members ∧
    Filter.ofElements [keyOf 8, frozenKey] none =
      Filter.ofElements [frozenKey.thawed, keyOf 8] none ∧
    some 1 ≠ some 0 ∧
    ∃ f, byRemoving.toFilter (some 1) = .ok f ∧ f.size = 1 ∧ f.get? 0 = some true ∧
      ¬ f.get? 5 = some true := by
  have h : ∀ d, d ∈ byRemoving.members.map Identifier.digest ↔
      d ∈ byInserting.members.map Identifier.digest := by
    intro d
    show d ∈ [[1, 2, 3, 4], [8, 0, 0, 0]] ↔ d ∈ [[8, 0, 0, 0], [1, 2, 3, 4]]
    simp [or_comm]
  obtain ⟨horders, -, hsizes⟩ := toFilter_depends_on_digests h
  have hremoving : [keyOf 8, frozenKey].Perm byRemoving.members := .swap _ _ _
  have hinserting : [frozenKey.thawed, keyOf 8].Perm byInserting.members := .swap _ _ _
  obtain ⟨f, hf, -, hsize, -, hget⟩ := hsizes (some 1) (by decide)
  refine ⟨h, hremoving, hinserting, (horders _ _ hremoving hinserting none).1, by decide, f, hf,
    hsize, (hget 0).2 ?_, mt (hget 5).1 ?_⟩
  · rw [hsize]
    decide
  · rw [hsize]
    decide

end IdSet

end DigestFilter
