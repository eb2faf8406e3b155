import DigestFilter.Identifier.Basic
import DigestFilter.Proofs.Filter.Insertion

/-!
# What hash codes say of a digest

The codes of an identifier are its whole groups of four bytes, read as little-endian numbers.
Written out again they give these bytes back, so they say exactly what the whole groups say, and a
byte has a part in the code of its own group only. A digest of fewer than four bytes has one code,
of the bytes filled up with zeros.
-/

namespace DigestFilter.Identifier

variable {x y : Identifier} {bs : List UInt8} {i k : Nat} {b : UInt8}

def codeBytes (codes : List UInt32) : List UInt8 :=
  codes.flatMap fun code => LittleEndian.bytes 4 code.toNat

/-! ## One group -/

theorem toNat_codeOf (h : bs.length ≤ 4) : (codeOf bs).toNat = LittleEndian.value bs := by
  have hlt := LittleEndian.value_lt (bs ++ List.replicate (4 - bs.length) 0)
  have hlen : (bs ++ List.replicate (4 - bs.length) 0).length = 4 := by simp; omega
  rw [LittleEndian.value_append_zeros, hlen] at hlt
  exact UInt32.toNat_ofNat_of_lt' hlt

theorem bytes_codeOf (h : bs.length ≤ 4) :
    LittleEndian.bytes 4 (codeOf bs).toNat = bs ++ List.replicate (4 - bs.length) 0 := by
  have hback := LittleEndian.bytes_value (bs ++ List.replicate (4 - bs.length) 0)
  have hlen : (bs ++ List.replicate (4 - bs.length) 0).length = 4 := by simp; omega
  rwa [LittleEndian.value_append_zeros, hlen, ← toNat_codeOf h] at hback

theorem codeOf_bytes (code : UInt32) : codeOf (LittleEndian.bytes 4 code.toNat) = code := by
  unfold codeOf
  rw [LittleEndian.value_bytes_of_lt code.toNat_lt, UInt32.ofNat_toNat]

/-! ## Many groups -/

theorem length_lt_of_no_group
    (h : ∀ (a b c d : UInt8) (rest : List UInt8), bs = a :: b :: c :: d :: rest → False) :
    bs.length < 4 := by
  match bs, h with
  | [], _ | [_], _ | [_, _], _ | [_, _, _], _ => simp
  | a :: b :: c :: d :: rest, h => exact absurd rfl (h a b c d rest)

theorem groupCodes_of_lt (h : bs.length < 4) : groupCodes bs = [] := by
  match bs, h with
  | [], _ | [_], _ | [_, _], _ | [_, _, _], _ => rfl

theorem groupCodes_append {group : List UInt8} (h : group.length = 4) (rest : List UInt8) :
    groupCodes (group ++ rest) = codeOf group :: groupCodes rest := by
  match group, h with
  | [a, b, c, d], _ => rfl

theorem codeBytes_groupCodes (bs : List UInt8) :
    codeBytes (groupCodes bs) = bs.take (4 * (bs.length / 4)) := by
  induction bs using groupCodes.induct with
  | case1 a b c d rest ih =>
    have hlen : 4 * ((a :: b :: c :: d :: rest).length / 4) = 4 * (rest.length / 4) + 4 := by
      simp only [List.length_cons]
      omega
    unfold codeBytes at ih ⊢
    rw [groupCodes, List.flatMap_cons, ih, bytes_codeOf (by simp), hlen]
    simp
  | case2 bs hshort =>
    have hlen := length_lt_of_no_group hshort
    rw [groupCodes_of_lt hlen, Nat.div_eq_of_lt hlen]
    rfl

theorem groupCodes_codeBytes (codes : List UInt32) : groupCodes (codeBytes codes) = codes := by
  induction codes with
  | nil => rfl
  | cons code codes ih =>
    unfold codeBytes at ih ⊢
    rw [List.flatMap_cons, groupCodes_append (LittleEndian.length_bytes 4 _), codeOf_bytes, ih]

theorem codeBytes_injective : Function.Injective codeBytes :=
  Function.LeftInverse.injective groupCodes_codeBytes

theorem getElem?_groupCodes (bs : List UInt8) (k : Nat) :
    (groupCodes bs)[k]? =
      if 4 * k + 4 ≤ bs.length then some (codeOf ((bs.drop (4 * k)).take 4)) else none := by
  induction bs using groupCodes.induct generalizing k with
  | case1 a b c d rest ih =>
    cases k with
    | zero => simp [groupCodes]
    | succ k => simp [groupCodes, ih, Nat.mul_succ]
  | case2 bs hshort =>
    have hlen := length_lt_of_no_group hshort
    rw [groupCodes_of_lt hlen, if_neg (by omega), List.getElem?_nil]

theorem length_groupCodes (bs : List UInt8) : (groupCodes bs).length = bs.length / 4 := by
  induction bs using groupCodes.induct with
  | case1 a b c d rest ih =>
    simp only [groupCodes, List.length_cons, ih]
    omega
  | case2 bs hshort =>
    have hlen := length_lt_of_no_group hshort
    rw [groupCodes_of_lt hlen, Nat.div_eq_of_lt hlen, List.length_nil]

/-! ## One byte changed -/

theorem take_drop_set (bs : List UInt8) (b : UInt8) (h : k ≠ i / 4) :
    ((bs.set i b).drop (4 * k)).take 4 = (bs.drop (4 * k)).take 4 := by
  apply List.ext_getElem?
  intro j
  simp only [List.getElem?_take, List.getElem?_drop, List.getElem?_set]
  split
  -- Byte `i` lies in group `i / 4`, which is another one.
  · rw [if_neg (by omega)]
  · rfl

theorem getElem?_groupCodes_set (bs : List UInt8) (b : UInt8) (h : k ≠ i / 4) :
    (groupCodes (bs.set i b))[k]? = (groupCodes bs)[k]? := by
  rw [getElem?_groupCodes, getElem?_groupCodes, List.length_set, take_drop_set bs b h]

theorem groupCodes_set_of_le (bs : List UInt8) (b : UInt8) (h : 4 * (bs.length / 4) ≤ i) :
    groupCodes (bs.set i b) = groupCodes bs := by
  apply List.ext_getElem?
  intro k
  by_cases hk : k = i / 4
  · rw [getElem?_groupCodes, getElem?_groupCodes, List.length_set, if_neg (by omega),
      if_neg (by omega)]
  · exact getElem?_groupCodes_set bs b hk

/-! ## Identifiers -/

theorem hashes_of_lt (h : x.size < 4) : hashes x = [x.hashCode] := by
  rw [hashes_eq, if_pos h]

theorem hashes_of_le (h : 4 ≤ x.size) : hashes x = groupCodes x.digest := by
  rw [hashes_eq, if_neg (Nat.not_lt.2 h)]

theorem length_hashes (x : Identifier) : (hashes x).length = max 1 (x.size / 4) := by
  by_cases h : x.size < 4
  · rw [hashes_of_lt h, List.length_singleton]
    omega
  · rw [hashes_of_le (Nat.not_lt.1 h), length_groupCodes]
    show x.size / 4 = _
    omega

theorem head?_hashes (x : Identifier) : (hashes x).head? = some x.hashCode := by
  by_cases h : x.size < 4
  · rw [hashes_of_lt h, List.head?_cons]
  · have hlen : 4 * 0 + 4 ≤ x.digest.length := Nat.not_lt.1 h
    rw [hashes_of_le (Nat.not_lt.1 h), List.head?_eq_getElem?, getElem?_groupCodes, if_pos hlen]
    rfl

theorem codeBytes_hashes_of_le (h : 4 ≤ x.size) :
    codeBytes (hashes x) = x.digest.take (4 * (x.size / 4)) := by
  rw [hashes_of_le h, codeBytes_groupCodes]
  rfl

theorem codeBytes_hashes_of_lt (h : x.size < 4) :
    codeBytes (hashes x) = x.digest ++ List.replicate (4 - x.size) 0 := by
  have htake : x.digest.take 4 = x.digest := List.take_of_length_le (Nat.le_of_lt h)
  rw [hashes_of_lt h, hashCode, htake]
  unfold codeBytes
  rw [List.flatMap_singleton, bytes_codeOf (Nat.le_of_lt h)]
  rfl

theorem codeBytes_hashes_of_dvd (h : 4 ∣ x.size) : codeBytes (hashes x) = x.digest := by
  have hpos := x.size_pos
  have hwhole : x.digest.length ≤ 4 * (x.size / 4) := by
    show x.size ≤ _
    omega
  rw [codeBytes_hashes_of_le (by omega), List.take_of_length_le hwhole]

theorem hashes_eq_iff_of_size_eq (hsize : x.size = y.size) (h : 4 ∣ x.size ∨ x.size < 4) :
    hashes x = hashes y ↔ (x == y) = true := by
  rw [beq_iff]
  refine ⟨?_, hashes_eq_of_digest_eq⟩
  intro hcodes
  have hbytes : codeBytes (hashes x) = codeBytes (hashes y) := congrArg codeBytes hcodes
  rcases h with hwhole | hshort
  · rwa [codeBytes_hashes_of_dvd hwhole, codeBytes_hashes_of_dvd (hsize ▸ hwhole)] at hbytes
  · rw [codeBytes_hashes_of_lt hshort, codeBytes_hashes_of_lt (hsize ▸ hshort)] at hbytes
    exact List.append_inj_left hbytes hsize

theorem contains_congr (h : hashes x = hashes y) (f : Filter) : f.contains x = f.contains y := by
  unfold Filter.contains
  rw [h]

theorem set_of_lt (hf : x.frozen = false) (h : i < x.size) (b : UInt8) :
    ∃ y, x.set i b = .ok y ∧ y.digest = x.digest.set i b := by
  unfold Identifier.set
  rw [hf, if_neg Bool.false_ne_true, if_neg (Nat.not_le.2 h)]
  exact ⟨_, rfl, rfl⟩

theorem getElem?_hashes_of_set (h : y.digest = x.digest.set i b) (hk : k ≠ i / 4)
    (hi : i < x.size) : (hashes y)[k]? = (hashes x)[k]? := by
  have hsize : y.size = x.size := by simp [size, h]
  by_cases hshort : x.size < 4
  · -- The one code stands at place 0, where the byte is.
    obtain ⟨j, rfl⟩ : ∃ j, k = j + 1 := ⟨k - 1, by omega⟩
    rw [hashes_of_lt hshort, hashes_of_lt (hsize ▸ hshort)]
    rfl
  · rw [hashes_of_le (by omega), hashes_of_le (by omega), h, getElem?_groupCodes_set _ _ hk]

/-- The codes of an identifier are its whole groups of bytes; a short one is filled up to one. -/
theorem hashes_carry_whole_groups :
    (∀ x : Identifier, (hashes x).length = max 1 (x.size / 4) ∧
      (hashes x).head? = some x.hashCode ∧
      (4 ≤ x.size → codeBytes (hashes x) = x.digest.take (4 * (x.size / 4))) ∧
      (x.size < 4 → codeBytes (hashes x) = x.digest ++ List.replicate (4 - x.size) 0)) ∧
    (∀ x y : Identifier, x.size = y.size → 4 ∣ x.size ∨ x.size < 4 →
      (hashes x = hashes y ↔ (x == y) = true)) ∧
    (∀ x y : Identifier, 4 ≤ x.size → 4 ≤ y.size →
      x.digest.take (4 * (x.size / 4)) = y.digest.take (4 * (y.size / 4)) →
      ∀ f : Filter, f.contains x = f.contains y) ∧
    (∀ (x : Identifier) (i : Nat) (b : UInt8), x.frozen = false → i < x.size →
      ∃ y, x.set i b = .ok y ∧ y.get? i = some b ∧
        (∀ k, k ≠ i / 4 → (hashes y)[k]? = (hashes x)[k]?) ∧
        (4 ≤ x.size → 4 * (x.size / 4) ≤ i → hashes y = hashes x)) := by
  refine ⟨?_, fun _ _ => hashes_eq_iff_of_size_eq, ?_, ?_⟩
  · intro x
    exact ⟨length_hashes x, head?_hashes x, codeBytes_hashes_of_le, codeBytes_hashes_of_lt⟩
  · intro x y hx hy hgroups
    apply contains_congr
    apply codeBytes_injective
    rw [codeBytes_hashes_of_le hx, codeBytes_hashes_of_le hy, hgroups]
  · intro x i b hf hi
    obtain ⟨y, hset, hdigest⟩ := set_of_lt hf hi b
    have hsize := size_set hset
    refine ⟨y, hset, ?_, fun k hk => getElem?_hashes_of_set hdigest hk hi, ?_⟩
    · unfold get?
      rw [hdigest, List.getElem?_set_self hi]
    · intro hlong htail
      rw [hashes_of_le hlong, hashes_of_le (hsize ▸ hlong), hdigest]
      exact groupCodes_set_of_le x.digest b htail

def sevenBytes : Identifier := ⟨[1, 2, 3, 4, 5, 6, 7], false, by decide⟩

def fiveBytes : Identifier := ⟨[1, 2, 3, 4, 9], true, by decide⟩

def twoBytes : Identifier := ⟨[8, 9], false, by decide⟩

theorem hashes_carry_whole_groups_sevenBytes :
    (4 ≤ sevenBytes.size ∧ codeBytes (hashes sevenBytes) = [1, 2, 3, 4]) ∧
    (twoBytes.size < 4 ∧ codeBytes (hashes twoBytes) = [8, 9, 0, 0]) ∧
    (twoBytes.size = twoBytes.freeze.size ∧ (4 ∣ twoBytes.size ∨ twoBytes.size < 4) ∧
      hashes twoBytes = hashes twoBytes.freeze) ∧
    (4 ≤ fiveBytes.size ∧
      sevenBytes.digest.take (4 * (sevenBytes.size / 4)) =
        fiveBytes.digest.take (4 * (fiveBytes.size / 4)) ∧
      ∀ f : Filter, f.contains sevenBytes = f.contains fiveBytes) ∧
    (sevenBytes.frozen = false ∧ 5 < sevenBytes.size ∧ 4 * (sevenBytes.size / 4) ≤ 5 ∧
      ∃ y, sevenBytes.set 5 0 = .ok y ∧ y.get? 5 = some 0 ∧ hashes y = hashes sevenBytes) := by
  obtain ⟨hcodes, hequal, hfilters, hset⟩ := hashes_carry_whole_groups
  obtain ⟨y, hy, hget, -, hsame⟩ := hset sevenBytes 5 0 rfl (by decide)
  exact ⟨⟨by decide, (hcodes sevenBytes).2.2.1 (by decide)⟩,
    ⟨by decide, (hcodes twoBytes).2.2.2 (by decide)⟩,
    ⟨rfl, by decide, (hequal twoBytes twoBytes.freeze rfl (by decide)).2 (by decide)⟩,
    ⟨by decide, rfl, hfilters sevenBytes fiveBytes (by decide) (by decide) rfl⟩,
    ⟨rfl, by decide, by decide, y, hy, hget, hsame (by decide) (by decide)⟩⟩

end DigestFilter.Identifier
