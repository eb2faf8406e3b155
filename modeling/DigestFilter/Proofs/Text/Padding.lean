import DigestFilter.Identifier.Text
import DigestFilter.Proofs.Text.Alphabet

/-!
# Zero bytes in front

The number that an identifier denotes forgets the zero bytes in front, and the size brings them
back: among identifiers of one size the number determines the digest. So `decode` finds the one
identifier of the size asked for that denotes the number, if there is one.
-/

namespace DigestFilter.Identifier

variable {a : Alphabet} {text : String} {x y : Identifier} {bs cs : List UInt8} {m n : Nat}

/-! ## Bytes as digits -/

theorem forall_toNat_lt (bs : List UInt8) : ∀ d ∈ bs.map UInt8.toNat, d < 256 := by
  rw [List.forall_mem_map]
  exact fun b _ => b.toNat_lt

theorem map_toNat_bytesOfNat (n : Nat) :
    (bytesOfNat n).map UInt8.toNat = Numeral.digits 256 n := by
  have hbyte : ∀ d ∈ Numeral.digits 256 n, (UInt8.ofNat d).toNat = d := by
    intro d hd
    rw [UInt8.toNat_ofNat', Nat.mod_eq_of_lt (Numeral.lt_of_mem_digits (by decide) n d hd)]
  rw [bytesOfNat, List.map_map]
  exact (List.map_congr_left hbyte).trans (List.map_id _)

theorem length_bytesOfNat_le_iff : (bytesOfNat n).length ≤ m ↔ 0 < m ∧ n < 256 ^ m := by
  rw [← List.length_map UInt8.toNat, map_toNat_bytesOfNat]
  exact Numeral.length_digits_le_iff (by decide)

theorem value_padded (k : Nat) (bs : List UInt8) :
    Numeral.value 256 ((List.replicate k 0 ++ bs).map UInt8.toNat) =
      Numeral.value 256 (bs.map UInt8.toNat) := by
  rw [List.map_append, List.map_replicate]
  exact Numeral.value_replicate_zero_append 256 k _

theorem eq_of_value_eq (hlen : bs.length = cs.length)
    (h : Numeral.value 256 (bs.map UInt8.toNat) = Numeral.value 256 (cs.map UInt8.toNat)) :
    bs = cs := by
  refine List.map_injective_iff.2 (fun _ _ => UInt8.toNat_inj.1) ?_
  refine Numeral.eq_of_value_eq (by decide) (forall_toNat_lt bs) (forall_toNat_lt cs) ?_ h
  rw [List.length_map, List.length_map, hlen]

/-! ## Numbers of identifiers -/

theorem toNat_lt (x : Identifier) : x.toNat < 256 ^ x.size := by
  have hlt := Numeral.value_lt (by decide) (forall_toNat_lt x.digest)
  rwa [List.length_map] at hlt

theorem eq_of_toNat_eq (hsize : x.size = y.size) (hfrozen : x.frozen = y.frozen)
    (h : x.toNat = y.toNat) : x = y := by
  rcases x with ⟨digest, frozen, hdigest⟩
  rcases y with ⟨digest', frozen', hdigest'⟩
  obtain rfl : digest = digest' := eq_of_value_eq hsize h
  obtain rfl : frozen = frozen' := hfrozen
  rfl

theorem beq_iff_toNat : (x == y) = true ↔ x.size = y.size ∧ x.toNat = y.toNat := by
  rw [beq_iff]
  constructor
  · intro h
    unfold size toNat
    simp [h]
  · rintro ⟨hsize, hvalue⟩
    exact eq_of_value_eq hsize hvalue

theorem digest_eq_padded (hsize : x.size ≤ y.size) (h : x.toNat = y.toNat) :
    y.digest = List.replicate (y.size - x.size) 0 ++ x.digest := by
  refine eq_of_value_eq ?_ ?_
  · rw [List.length_append, List.length_replicate]
    show y.size = y.size - x.size + x.size
    omega
  · rw [value_padded]
    exact h.symm

/-! ## Reading with a size -/

theorem decode_of_read (h : a.decode text = .ok n) (hpos : 0 < m) (hfits : n < 256 ^ m) :
    ∃ x, decode a text m = .ok x ∧ x.size = m ∧ x.toNat = n ∧ x.frozen = false := by
  have hlen : (bytesOfNat n).length ≤ m := length_bytesOfNat_le_iff.2 ⟨hpos, hfits⟩
  have hsize : (List.replicate (m - (bytesOfNat n).length) 0 ++ bytesOfNat n).length = m := by
    rw [List.length_append, List.length_replicate]
    omega
  have hne : List.replicate (m - (bytesOfNat n).length) 0 ++ bytesOfNat n ≠ [] := by
    rw [← List.length_pos_iff, hsize]
    exact hpos
  refine ⟨⟨_, false, hne⟩, ?_, hsize, ?_, rfl⟩
  · rw [decode, h]
    show (if m < (bytesOfNat n).length then _ else _) = _
    rw [if_neg (Nat.not_lt.2 hlen)]
    exact ofBytes_eq_ok_iff.2 ⟨rfl, rfl⟩
  · rw [toNat, value_padded, map_toNat_bytesOfNat]
    exact Numeral.value_digits (by decide) n

theorem decode_of_wide (h : a.decode text = .ok n) (hwide : ¬ (0 < m ∧ n < 256 ^ m)) :
    decode a text m = .error (.format (.wideNumeral a.name (bytesOfNat n).length m)) := by
  have hlen : m < (bytesOfNat n).length := by
    rw [← Nat.not_le, length_bytesOfNat_le_iff]
    exact hwide
  rw [decode, h]
  exact if_pos hlen

theorem decode_of_unread {e : Error} (h : a.decode text = .error e) :
    decode a text m = .error e := by
  rw [decode, h]
  rfl

theorem decode_eq_ok_iff :
    decode a text m = .ok x ↔ x.size = m ∧ x.frozen = false ∧ a.decode text = .ok x.toNat := by
  constructor
  · intro h
    cases hread : a.decode text with
    | error e =>
      rw [decode_of_unread hread] at h
      cases h
    | ok n =>
      by_cases hfits : 0 < m ∧ n < 256 ^ m
      · obtain ⟨y, hy, hsize, rfl, hfrozen⟩ := decode_of_read hread hfits.1 hfits.2
        rw [h, Except.ok.injEq] at hy
        subst hy
        exact ⟨hsize, hfrozen, rfl⟩
      · rw [decode_of_wide hread hfits] at h
        cases h
  · rintro ⟨rfl, hfrozen, hread⟩
    obtain ⟨y, hy, hsize, hnumber, hthawed⟩ := decode_of_read hread x.size_pos x.toNat_lt
    rw [hy, eq_of_toNat_eq hsize (hthawed.trans hfrozen.symm) hnumber]

theorem exists_decode_eq_ok_iff :
    (∃ x, decode a text m = .ok x) ↔ ∃ n, a.decode text = .ok n ∧ 0 < m ∧ n < 256 ^ m := by
  constructor
  · rintro ⟨x, hx⟩
    obtain ⟨rfl, -, hread⟩ := decode_eq_ok_iff.1 hx
    exact ⟨x.toNat, hread, x.size_pos, x.toNat_lt⟩
  · rintro ⟨n, hread, hpos, hfits⟩
    obtain ⟨x, hx, -⟩ := decode_of_read hread hpos hfits
    exact ⟨x, hx⟩

theorem exists_fault_of_decode {e : Error} (h : decode a text m = .error e) :
    ∃ fault, e = .format fault := by
  cases hread : a.decode text with
  | error e' =>
    rw [decode_of_unread hread, Except.error.injEq] at h
    exact h ▸ a.exists_fault_of_decode hread
  | ok n =>
    by_cases hfits : 0 < m ∧ n < 256 ^ m
    · obtain ⟨x, hx, -⟩ := decode_of_read hread hfits.1 hfits.2
      rw [hx] at h
      cases h
    · rw [decode_of_wide hread hfits, Except.error.injEq] at h
      exact ⟨_, h.symm⟩

/-! ## Writing and reading back -/

theorem decode_encode (a : Alphabet) (x : Identifier) :
    decode a (x.encode a) x.size = .ok x.thawed :=
  decode_eq_ok_iff.2 ⟨rfl, rfl, a.decode_encode x.toNat⟩

theorem toNat_eq_of_decode_encode (h : decode a (x.encode a) m = .ok y) : y.toNat = x.toNat := by
  obtain ⟨-, -, hread⟩ := decode_eq_ok_iff.1 h
  rw [encode, a.decode_encode, Except.ok.injEq] at hread
  exact hread.symm

/-- A text is read exactly when it is a numeral whose value fits the size. -/
theorem spellings_lose_nothing (a : Alphabet) :
    (∀ text size, (∃ x, decode a text size = .ok x) ↔
      a.IsNumeral text ∧ 1 ≤ size ∧ ∃ n, a.decode text = .ok n ∧ n < 256 ^ size) ∧
    (∀ text size x, decode a text size = .ok x →
      x.size = size ∧ x.frozen = false ∧ a.decode text = .ok x.toNat) ∧
    (∀ text size e, decode a text size = .error e → ∃ fault, e = .format fault) ∧
    (∀ x : Identifier, decode a (x.encode a) x.size = .ok x.thawed) ∧
    (∀ (x : Identifier) (size : Nat), 1 ≤ size →
      ((∃ y, decode a (x.encode a) size = .ok y) ↔ x.toNat < 256 ^ size) ∧
      ∀ y, decode a (x.encode a) size = .ok y →
        (x.size ≤ size → y.digest = List.replicate (size - x.size) 0 ++ x.digest) ∧
        (size ≤ x.size → x.digest = List.replicate (x.size - size) 0 ++ y.digest)) := by
  refine ⟨?_, ?_, ?_, decode_encode a, ?_⟩
  · intro text size
    rw [exists_decode_eq_ok_iff]
    constructor
    · rintro ⟨n, hread, hpos, hfits⟩
      exact ⟨(a.decode_eq_ok_iff.1 hread).1, hpos, n, hread, hfits⟩
    · rintro ⟨-, hpos, n, hread, hfits⟩
      exact ⟨n, hread, hpos, hfits⟩
  · intro text size x h
    exact decode_eq_ok_iff.1 h
  · intro text size e h
    exact exists_fault_of_decode h
  · intro x size hpos
    refine ⟨?_, ?_⟩
    · rw [exists_decode_eq_ok_iff, encode, a.decode_encode]
      simp only [Except.ok.injEq, exists_eq_left']
      exact and_iff_right hpos
    · intro y hy
      have hnumber := toNat_eq_of_decode_encode hy
      obtain ⟨rfl, -, -⟩ := decode_eq_ok_iff.1 hy
      exact ⟨fun h => digest_eq_padded h hnumber.symm, fun h => digest_eq_padded h hnumber⟩

def padded : Identifier where
  digest := [0, 1, 2]
  frozen := true
  digest_ne_nil := List.cons_ne_nil _ _

theorem spellings_lose_nothing_padded :
    (padded.encode .base62 = "4A" ∧ decode .base62 "4A" 3 = .ok padded.thawed ∧
      padded.thawed.size = 3 ∧ padded.thawed.frozen = false ∧
      Alphabet.base62.decode "4A" = .ok padded.thawed.toNat) ∧
    (decode .base62 "4A" 1 = .error (.format (.wideNumeral "base62" 2 1)) ∧
      ∃ fault, Error.format (.wideNumeral "base62" 2 1) = .format fault) ∧
    (1 ≤ 1 ∧ ¬ ∃ y, decode .base62 (padded.encode .base62) 1 = .ok y) ∧
    (1 ≤ 2 ∧ 2 ≤ padded.size ∧ ∃ y, decode .base62 (padded.encode .base62) 2 = .ok y ∧
      padded.digest = List.replicate (padded.size - 2) 0 ++ y.digest) ∧
    (1 ≤ 5 ∧ padded.size ≤ 5 ∧ ∃ y, decode .base62 (padded.encode .base62) 5 = .ok y ∧
      y.digest = List.replicate (5 - padded.size) 0 ++ padded.digest) := by
  obtain ⟨-, hresult, hfault, hback, hother⟩ := spellings_lose_nothing .base62
  have htext : padded.encode .base62 = "4A" := by decide +kernel
  have hread : decode .base62 "4A" 3 = .ok padded.thawed := htext ▸ hback padded
  have hwide : decode .base62 "4A" 1 = .error (.format (.wideNumeral "base62" 2 1)) := rfl
  obtain ⟨y, hy⟩ := (hother padded 2 (by decide)).1.2 (by decide)
  obtain ⟨z, hz⟩ := (hother padded 5 (by decide)).1.2 (by decide)
  refine ⟨⟨htext, hread, hresult "4A" 3 _ hread⟩, ⟨hwide, hfault "4A" 1 _ hwide⟩,
    ⟨by decide, ?_⟩, ⟨by decide, by decide, y, hy, ?_⟩, by decide, by decide, z, hz, ?_⟩
  · rw [(hother padded 1 (by decide)).1]
    decide
  · exact ((hother padded 2 (by decide)).2 y hy).2 (by decide)
  · exact ((hother padded 5 (by decide)).2 z hz).1 (by decide)

end DigestFilter.Identifier
