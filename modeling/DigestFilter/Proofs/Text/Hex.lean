import DigestFilter.Bytes.Hex
import DigestFilter.Text.Utf8

/-!
# Which texts are hexadecimal

`decode` reads bytes; here is what that means for the characters of a text. A character is a digit
exactly when every byte of its UTF-8 form is one, so `decode` reads the texts of an even number of
digits and no others, and finds a foreign byte in every other text of even size. `encode` writes
such texts in lowercase and `pairs` takes them back.
-/

namespace DigestFilter.Hex

/-! ## Digits -/

def eitherCase : List Char := "0123456789abcdefABCDEF".toList

def IsDigit (c : Char) : Prop := c ∈ eitherCase

instance : DecidablePred IsDigit := fun c => inferInstanceAs (Decidable (c ∈ eitherCase))

/-- There are few digits, so what holds of them all can be looked up. -/
theorem of_isDigit {p : Char → Prop} [DecidablePred p] (hall : eitherCase.all fun c => p c)
    {c : Char} (h : IsDigit c) : p c := of_decide_eq_true (List.all_eq_true.1 hall c h)

def worth (c : Char) : Nat := digits.idxOf c.toLower

theorem worth_lt {c : Char} (h : IsDigit c) : worth c < 16 :=
  of_isDigit (p := fun c => worth c < 16) (by decide) h

theorem digit_worth {c : Char} (h : IsDigit c) : digit (worth c) = c.toLower :=
  of_isDigit (p := fun c => digit (worth c) = c.toLower) (by decide) h

theorem isDigit_digit {n : Nat} (h : n < 16) : IsDigit (digit n) := by
  revert n
  decide

theorem worth_digit {n : Nat} (h : n < 16) : worth (digit n) = n := by
  revert n
  decide

/-! ## Digits as bytes -/

theorem toNat_lt_of_isDigit {c : Char} (h : IsDigit c) : c.toNat < 128 :=
  of_isDigit (p := fun c => c.toNat < 128) (by decide) h

theorem digitValue?_of_isDigit {c : Char} (h : IsDigit c) :
    digitValue? (UInt8.ofNat c.toNat) = some (worth c) :=
  of_isDigit (p := fun c => digitValue? (UInt8.ofNat c.toNat) = some (worth c)) (by decide) h

theorem isDigit_of_digitValue? {n : Nat} (hn : n < 128)
    (h : (digitValue? (UInt8.ofNat n)).isSome) : IsDigit (Char.ofNat n) := by
  revert n
  decide

theorem toNat_lt_of_digitValue? {b : UInt8} (h : (digitValue? b).isSome) : b.toNat < 128 := by
  unfold digitValue? at h
  split at h
  · omega
  · split at h
    · omega
    · split at h
      · omega
      · contradiction

theorem isDigit_iff {c : Char} :
    IsDigit c ↔ c.toNat < 128 ∧ (digitValue? (UInt8.ofNat c.toNat)).isSome := by
  constructor
  · intro h
    rw [digitValue?_of_isDigit h]
    exact ⟨toNat_lt_of_isDigit h, rfl⟩
  · rintro ⟨hascii, hsome⟩
    rw [← Char.ofNat_toNat c]
    exact isDigit_of_digitValue? hascii hsome

theorem forall_isDigit_iff {text : String} :
    (∀ c ∈ text.toList, IsDigit c) ↔ ∀ b ∈ Utf8.encode text, (digitValue? b).isSome := by
  rw [Utf8.forall_mem_encode_iff fun b => toNat_lt_of_digitValue?]
  simp only [isDigit_iff]

theorem exists_not_isDigit {text : String} {b : UInt8} (hmem : b ∈ Utf8.encode text)
    (hb : digitValue? b = none) : ∃ c ∈ text.toList, ¬ IsDigit c := by
  apply Classical.byContradiction
  intro hnone
  have hall : ∀ c ∈ text.toList, IsDigit c :=
    fun c hc => Decidable.of_not_not fun hnot => hnone ⟨c, hc, hnot⟩
  have hsome := forall_isDigit_iff.1 hall b hmem
  rw [hb] at hsome
  contradiction

theorem encode_of_isDigit {text : String} (h : ∀ c ∈ text.toList, IsDigit c) :
    Utf8.encode text = text.toList.map fun c => UInt8.ofNat c.toNat :=
  Utf8.encode_of_ascii fun c hc => toNat_lt_of_isDigit (h c hc)

/-! ## Hexadecimal texts -/

def IsHex (cs : List Char) : Prop := cs.length % 2 = 0 ∧ ∀ c ∈ cs, IsDigit c

instance : DecidablePred IsHex := fun cs =>
  decidable_of_iff (cs.length % 2 = 0 ∧ cs.all fun c => IsDigit c) (by simp [IsHex])

def pairs : List Char → List UInt8
  | [] | [_] => []
  | high :: low :: rest => UInt8.ofNat (16 * worth high + worth low) :: pairs rest

theorem length_pairs (cs : List Char) : (pairs cs).length = cs.length / 2 := by
  fun_induction pairs cs with
  | case1 => rfl
  | case2 => simp
  | case3 high low rest ih =>
    simp only [List.length_cons, ih]
    omega

theorem isHex_encode (bs : List UInt8) : IsHex (encode bs) := by
  constructor
  · rw [length_encode]
    omega
  · intro c hc
    obtain ⟨b, -, hc⟩ := List.mem_flatMap.1 hc
    have hb : b.toNat < 256 := b.toNat_lt
    simp only [List.mem_cons, List.not_mem_nil, or_false] at hc
    rcases hc with rfl | rfl
    · exact isDigit_digit (by omega)
    · exact isDigit_digit (by omega)

theorem pairs_encode (bs : List UInt8) : pairs (encode bs) = bs := by
  induction bs with
  | nil => rfl
  | cons b bs ih =>
    have hb : b.toNat < 256 := b.toNat_lt
    have hsum : 16 * (b.toNat / 16) + b.toNat % 16 = b.toNat := Nat.div_add_mod _ _
    have hcons : encode (b :: bs) = digit (b.toNat / 16) :: digit (b.toNat % 16) :: encode bs := rfl
    rw [hcons, pairs, ih, worth_digit (by omega), worth_digit (by omega), hsum, UInt8.ofNat_toNat]

theorem toNat_pair {high low : Char} (hhigh : IsDigit high) (hlow : IsDigit low) :
    (UInt8.ofNat (16 * worth high + worth low)).toNat = 16 * worth high + worth low := by
  have hhigh := worth_lt hhigh
  have hlow := worth_lt hlow
  rw [UInt8.toNat_ofNat']
  omega

theorem encode_pairs {cs : List Char} (h : IsHex cs) : encode (pairs cs) = cs.map Char.toLower := by
  obtain ⟨heven, hdigits⟩ := h
  fun_induction pairs cs with
  | case1 => rfl
  | case2 => simp at heven
  | case3 high low rest ih =>
    simp only [List.forall_mem_cons] at hdigits
    obtain ⟨hhigh, hlow, hrest⟩ := hdigits
    have hlt : worth low < 16 := worth_lt hlow
    have hdiv : (16 * worth high + worth low) / 16 = worth high := by omega
    have hmod : (16 * worth high + worth low) % 16 = worth low := by omega
    have hshort : rest.length % 2 = 0 := by
      simp only [List.length_cons] at heven
      omega
    have ih := ih hshort hrest
    simp only [encode, List.flatMap_cons, toNat_pair hhigh hlow] at ih ⊢
    rw [ih, hdiv, hmod, digit_worth hhigh, digit_worth hlow]
    rfl

/-! ## What is read -/

theorem decodePairs_of_isDigit (position : Nat) {cs : List Char} (h : ∀ c ∈ cs, IsDigit c) :
    decodePairs position (cs.map fun c => UInt8.ofNat c.toNat) = .ok (pairs cs) := by
  fun_induction pairs cs generalizing position with
  | case1 | case2 => rfl
  | case3 high low rest ih =>
    simp only [List.forall_mem_cons] at h
    have ih := ih (position + 2) h.2.2
    simp only [List.map_cons, decodePairs, digitValue?_of_isDigit h.1,
      digitValue?_of_isDigit h.2.1, ih, Except.map]

theorem decodePairs_of_foreign (position : Nat) {before after : List UInt8} {b : UInt8}
    (hbefore : ∀ a ∈ before, (digitValue? a).isSome) (hb : digitValue? b = none)
    (heven : (before ++ b :: after).length % 2 = 0) :
    decodePairs position (before ++ b :: after) =
      .error (.foreign b (position + before.length)) := by
  match before with
  | [] =>
    -- The length is even, so the foreign byte is not the last one.
    obtain ⟨c, after, rfl⟩ : ∃ c rest, after = c :: rest := by
      apply List.exists_cons_of_ne_nil
      rintro rfl
      simp at heven
    simp only [List.nil_append, decodePairs, hb, List.length_nil, Nat.add_zero]
  | [a] =>
    obtain ⟨x, hx⟩ := Option.isSome_iff_exists.1 (hbefore a (List.mem_singleton_self a))
    simp only [List.cons_append, List.nil_append, decodePairs, hx, hb, List.length_singleton]
  | a :: a' :: before =>
    simp only [List.forall_mem_cons] at hbefore
    obtain ⟨x, hx⟩ := Option.isSome_iff_exists.1 hbefore.1
    obtain ⟨y, hy⟩ := Option.isSome_iff_exists.1 hbefore.2.1
    have heven' : (before ++ b :: after).length % 2 = 0 := by
      simp only [List.cons_append, List.length_cons] at heven
      omega
    have ih := decodePairs_of_foreign (position + 2) hbefore.2.2 hb heven'
    simp only [List.cons_append, decodePairs, hx, hy, ih, Except.map, List.length_cons]
    congr 2
    omega

variable {text : String}

theorem length_encode_of_isHex (h : IsHex text.toList) :
    (Utf8.encode text).length = text.length := by
  rw [encode_of_isDigit h.2, List.length_map, String.length_toList]

theorem decode_of_isHex (h : IsHex text.toList) :
    decode (Utf8.encode text) = .ok (pairs text.toList) := by
  have heven : (Utf8.encode text).length % 2 = 0 := by
    rw [length_encode_of_isHex h, ← String.length_toList]
    exact h.1
  rw [decode, if_neg (by omega), encode_of_isDigit h.2]
  exact decodePairs_of_isDigit 0 h.2

theorem decode_of_not_isHex (h : ¬ IsHex text.toList) (heven : text.utf8ByteSize % 2 = 0) :
    ∃ before b after, Utf8.encode text = before ++ b :: after ∧
      (∀ a ∈ before, (digitValue? a).isSome) ∧ digitValue? b = none ∧
      decode (Utf8.encode text) = .error (.foreign b before.length) := by
  rw [← Utf8.length_encode] at heven
  have hnot : ¬ ∀ b ∈ Utf8.encode text, (digitValue? b).isSome := by
    rw [← forall_isDigit_iff]
    intro hall
    rw [encode_of_isDigit hall, List.length_map] at heven
    exact h ⟨heven, hall⟩
  obtain ⟨before, b, after, heq, hbefore, hb⟩ := Utf8.exists_first_of_not_all hnot
  have hb : digitValue? b = none := by simpa using hb
  refine ⟨before, b, after, heq, hbefore, hb, ?_⟩
  rw [decode, if_neg (by omega), heq, decodePairs_of_foreign 0 hbefore hb (heq ▸ heven),
    Nat.zero_add]

end DigestFilter.Hex
