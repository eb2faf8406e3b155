/-!
# Text as bytes

A text is measured, searched and stored by the bytes of its UTF-8 form.
-/

namespace DigestFilter.Utf8

def encode (text : String) : List UInt8 := text.toByteArray.data.toList

def decode? (bs : List UInt8) : Option String := String.fromUTF8? bs.toByteArray

theorem toByteArray_encode (text : String) : (encode text).toByteArray = text.toByteArray := by
  apply ByteArray.ext
  apply Array.toList_inj.mp
  simp [encode]

theorem decode?_encode (text : String) : decode? (encode text) = some text := by
  have hvalid : text.toByteArray.IsValidUTF8 := text.isValidUTF8
  rw [decode?, toByteArray_encode, String.fromUTF8?, dif_pos hvalid]
  rfl

theorem length_encode (text : String) : (encode text).length = text.utf8ByteSize := by
  rw [encode, Array.length_toList]
  rfl

theorem encode_eq_flatMap (text : String) :
    encode text = text.toList.flatMap String.utf8EncodeChar := by
  conv => lhs; rw [← String.ofList_toList (s := text)]
  rw [encode, String.toByteArray_ofList, List.utf8Encode, List.data_toByteArray]

theorem encodeChar_of_lt {c : Char} (h : c.toNat < 128) :
    String.utf8EncodeChar c = [UInt8.ofNat c.toNat] := by
  have hv : c.val.toNat ≤ 0x7f := Nat.le_of_lt_succ h
  simp only [String.utf8EncodeChar, if_pos hv]
  rfl

theorem le_of_mem_encodeChar {c : Char} {b : UInt8} (h : 128 ≤ c.toNat)
    (hb : b ∈ String.utf8EncodeChar c) : 128 ≤ b.toNat := by
  have hv : ¬ c.val.toNat ≤ 0x7f := Nat.not_le_of_lt (Nat.lt_of_succ_le h)
  simp only [String.utf8EncodeChar, if_neg hv] at hb
  split at hb
  · simp only [List.mem_cons, List.not_mem_nil, or_false] at hb
    rcases hb with rfl | rfl <;> simp <;> omega
  · split at hb
    · simp only [List.mem_cons, List.not_mem_nil, or_false] at hb
      rcases hb with rfl | rfl | rfl <;> simp <;> omega
    · simp only [List.mem_cons, List.not_mem_nil, or_false] at hb
      rcases hb with rfl | rfl | rfl | rfl <;> simp <;> omega

/-! ## ASCII -/

theorem encode_of_ascii {text : String} (h : ∀ c ∈ text.toList, c.toNat < 128) :
    encode text = text.toList.map fun c => UInt8.ofNat c.toNat := by
  rw [encode_eq_flatMap]
  generalize text.toList = cs at h ⊢
  induction cs with
  | nil => rfl
  | cons c cs ih =>
    rw [List.forall_mem_cons] at h
    rw [List.flatMap_cons, encodeChar_of_lt h.1, ih h.2]
    rfl

variable {p : UInt8 → Prop}

theorem forall_mem_encodeChar_iff (hp : ∀ b, p b → b.toNat < 128) {c : Char} :
    (∀ b ∈ String.utf8EncodeChar c, p b) ↔ c.toNat < 128 ∧ p (UInt8.ofNat c.toNat) := by
  by_cases hascii : c.toNat < 128
  · rw [encodeChar_of_lt hascii, List.forall_mem_singleton]
    simp only [hascii, true_and]
  · constructor
    · intro h
      -- All bytes of such a character are too large for `p`.
      obtain ⟨b, hb⟩ := List.exists_mem_of_ne_nil _ (String.utf8EncodeChar_ne_nil (c := c))
      have hlarge := le_of_mem_encodeChar (Nat.le_of_not_lt hascii) hb
      exact absurd (hp b (h b hb)) (Nat.not_lt_of_le hlarge)
    · intro h
      exact absurd h.1 hascii

theorem forall_mem_encode_iff (hp : ∀ b, p b → b.toNat < 128) {text : String} :
    (∀ b ∈ encode text, p b) ↔
      ∀ c ∈ text.toList, c.toNat < 128 ∧ p (UInt8.ofNat c.toNat) := by
  rw [encode_eq_flatMap, List.forall_mem_flatMap]
  simp only [forall_mem_encodeChar_iff hp]

theorem exists_first_of_not_all {p : UInt8 → Bool} {text : String}
    (h : ¬ ∀ b ∈ encode text, p b) :
    ∃ before b after, encode text = before ++ b :: after ∧ (∀ x ∈ before, p x) ∧ ¬ p b := by
  cases hfind : (encode text).find? fun b => !p b with
  | none =>
    refine absurd ?_ h
    intro b hb
    simpa using List.find?_eq_none.1 hfind b hb
  | some b =>
    obtain ⟨hb, before, after, heq, hbefore⟩ := List.find?_eq_some_iff_append.1 hfind
    refine ⟨before, b, after, heq, ?_, by simpa using hb⟩
    intro x hx
    simpa using hbefore x hx

end DigestFilter.Utf8
