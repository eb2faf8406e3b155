import DigestFilter.Numeral.Alphabet
import DigestFilter.Proofs.Text.Numeral

/-!
# Numerals over an alphabet

A digit stands for its place in the alphabet. `encode` writes the canonical numeral of a number, and
`decode` reads every text over the alphabet and no other. It looks at bytes, but no byte of a
character outside ASCII is a digit, so a text of digits is one by its characters and by its bytes.
-/

namespace DigestFilter.Alphabet

variable (a : Alphabet) {c : Char} {b : UInt8} {d n : Nat} {text : String}

def worth (c : Char) : Nat := a.digits.idxOf c

def IsDigit (b : UInt8) : Prop := ∃ c ∈ a.digits, c.toNat = b.toNat

def IsNumeral (text : String) : Prop := text ≠ "" ∧ ∀ c ∈ text.toList, c ∈ a.digits

/-- A text without the zero digits in front. Of zeros alone, one is left. -/
def stripped (text : String) : String :=
  match text.toList.dropWhile (· == a.digit 0) with
  | [] => String.ofList [a.digit 0]
  | cs => String.ofList cs

/-! ## Digits -/

theorem two_le_base : 2 ≤ a.base := a.two_le_length

theorem worth_lt (h : c ∈ a.digits) : a.worth c < a.base := List.idxOf_lt_length_of_mem h

theorem digit_eq_getElem (h : d < a.digits.length) : a.digit d = a.digits[d] := by
  rw [digit, List.getD_eq_getElem?_getD, List.getElem?_eq_getElem h, Option.getD_some]

theorem digit_mem (h : d < a.base) : a.digit d ∈ a.digits := by
  rw [a.digit_eq_getElem h]
  exact List.getElem_mem h

theorem digit_worth (h : c ∈ a.digits) : a.digit (a.worth c) = c := by
  rw [a.digit_eq_getElem (a.worth_lt h)]
  exact List.getElem_idxOf _

theorem worth_digit (h : d < a.base) : a.worth (a.digit d) = d := by
  rw [a.digit_eq_getElem h]
  exact a.nodup.idxOf_getElem d h

theorem map_digit_map_worth {cs : List Char} (h : ∀ c ∈ cs, c ∈ a.digits) :
    (cs.map a.worth).map a.digit = cs := by
  rw [List.map_map]
  exact (List.map_congr_left fun c hc => a.digit_worth (h c hc)).trans (List.map_id cs)

theorem map_worth_map_digit {ds : List Nat} (h : ∀ d ∈ ds, d < a.base) :
    (ds.map a.digit).map a.worth = ds := by
  rw [List.map_map]
  exact (List.map_congr_left fun d hd => a.worth_digit (h d hd)).trans (List.map_id ds)

theorem worth_eq_zero_iff (h : c ∈ a.digits) : a.worth c = 0 ↔ c = a.digit 0 := by
  have hzero : 0 < a.base := Nat.lt_of_lt_of_le (by decide) a.two_le_base
  constructor
  · intro hworth
    rw [← hworth, a.digit_worth h]
  · rintro rfl
    exact a.worth_digit hzero

theorem dropWhile_map_worth {cs : List Char} (h : ∀ c ∈ cs, c ∈ a.digits) :
    (cs.map a.worth).dropWhile (· == 0) = (cs.dropWhile (· == a.digit 0)).map a.worth := by
  induction cs with
  | nil => rfl
  | cons c cs ih =>
    rw [List.forall_mem_cons] at h
    simp only [List.map_cons, List.dropWhile_cons, beq_iff_eq, a.worth_eq_zero_iff h.1]
    split
    · exact ih h.2
    · rfl

/-! ## Digits as bytes -/

theorem toNat_byte (h : c ∈ a.digits) : (UInt8.ofNat c.toNat).toNat = c.toNat := by
  have hascii := a.toNat_lt h
  rw [UInt8.toNat_ofNat']
  omega

theorem mem_digits_iff : c ∈ a.digits ↔ c.toNat < 128 ∧ a.IsDigit (UInt8.ofNat c.toNat) := by
  constructor
  · intro h
    exact ⟨a.toNat_lt h, c, h, (a.toNat_byte h).symm⟩
  · rintro ⟨hascii, c', hc', heq⟩
    rw [UInt8.toNat_ofNat', Nat.mod_eq_of_lt (by omega), Char.toNat_inj] at heq
    exact heq ▸ hc'

theorem toNat_lt_of_isDigit (h : a.IsDigit b) : b.toNat < 128 := by
  obtain ⟨c, hc, heq⟩ := h
  exact heq ▸ a.toNat_lt hc

theorem forall_isDigit_iff :
    (∀ b ∈ Utf8.encode text, a.IsDigit b) ↔ ∀ c ∈ text.toList, c ∈ a.digits := by
  rw [Utf8.forall_mem_encode_iff fun b => a.toNat_lt_of_isDigit]
  simp only [mem_digits_iff]

theorem isSome_digitValue?_iff : (a.digitValue? b).isSome ↔ a.IsDigit b := by
  rw [digitValue?, List.findIdx?_isSome, List.any_eq_true]
  simp only [IsDigit, beq_iff_eq]

theorem digitValue?_eq_none_iff : a.digitValue? b = none ↔ ¬ a.IsDigit b := by
  rw [← isSome_digitValue?_iff, Option.not_isSome_iff_eq_none]

theorem digitValue?_of_mem (h : c ∈ a.digits) :
    a.digitValue? (UInt8.ofNat c.toNat) = some (a.worth c) := by
  have hsame : (fun x : Char => x.toNat == c.toNat) = (· == c) := by
    funext x
    rw [Bool.eq_iff_iff, beq_iff_eq, beq_iff_eq, Char.toNat_inj]
  rw [digitValue?, a.toNat_byte h, hsame, List.findIdx?_eq_some_iff_findIdx_eq]
  exact ⟨a.worth_lt h, rfl⟩

/-! ## Reading -/

theorem digitValues_of_mem {cs : List Char} (h : ∀ c ∈ cs, c ∈ a.digits) :
    a.digitValues (cs.map fun c => UInt8.ofNat c.toNat) = .ok (cs.map a.worth) := by
  induction cs with
  | nil => rfl
  | cons c cs ih =>
    rw [List.forall_mem_cons] at h
    rw [List.map_cons, digitValues, a.digitValue?_of_mem h.1, ih h.2]
    rfl

theorem digitValues_of_foreign {before after : List UInt8} (hbefore : ∀ x ∈ before, a.IsDigit x)
    (hb : ¬ a.IsDigit b) : a.digitValues (before ++ b :: after) = .error b := by
  induction before with
  | nil =>
    rw [List.nil_append, digitValues, a.digitValue?_eq_none_iff.2 hb]
  | cons x before ih =>
    rw [List.forall_mem_cons] at hbefore
    obtain ⟨d, hd⟩ := Option.isSome_iff_exists.1 (a.isSome_digitValue?_iff.2 hbefore.1)
    rw [List.cons_append, digitValues, hd, ih hbefore.2]
    rfl

theorem forall_worth_lt (h : ∀ c ∈ text.toList, c ∈ a.digits) :
    ∀ d ∈ text.toList.map a.worth, d < a.base := by
  rw [List.forall_mem_map]
  exact fun c hc => a.worth_lt (h c hc)

/-- What the digits stand for is below the base, so reading them cannot fail any more. -/
theorem decode_of_isNumeral (h : a.IsNumeral text) :
    a.decode text = .ok (Numeral.value a.base (text.toList.map a.worth)) := by
  have hall : (text.toList.map a.worth).all (· < a.base) = true := by
    simpa only [List.all_eq_true, decide_eq_true_eq] using a.forall_worth_lt h.2
  rw [decode, if_neg h.1, Utf8.encode_of_ascii fun c hc => a.toNat_lt (h.2 c hc),
    a.digitValues_of_mem h.2]
  simp only [Numeral.ofDigits?, if_pos hall]

theorem decode_of_not_isNumeral (hne : text ≠ "") (h : ¬ a.IsNumeral text) :
    ∃ before b after, Utf8.encode text = before ++ b :: after ∧
      (∀ x ∈ before, a.IsDigit x) ∧ ¬ a.IsDigit b ∧
      a.decode text = .error (.format (.foreignDigit a.name b text)) := by
  have hnot : ¬ ∀ b ∈ Utf8.encode text, (a.digitValue? b).isSome := by
    simp only [isSome_digitValue?_iff, forall_isDigit_iff]
    exact fun hdigits => h ⟨hne, hdigits⟩
  obtain ⟨before, b, after, heq, hbefore, hb⟩ := Utf8.exists_first_of_not_all hnot
  simp only [isSome_digitValue?_iff] at hbefore hb
  refine ⟨before, b, after, heq, hbefore, hb, ?_⟩
  rw [decode, if_neg hne, heq, a.digitValues_of_foreign hbefore hb]

theorem decode_eq_error (h : ¬ a.IsNumeral text) :
    a.decode text = .error (.format (.emptyNumeral a.name)) ∨
      ∃ b, a.decode text = .error (.format (.foreignDigit a.name b text)) := by
  by_cases hne : text = ""
  · exact Or.inl (if_pos hne)
  · obtain ⟨-, b, -, -, -, -, hdecode⟩ := a.decode_of_not_isNumeral hne h
    exact Or.inr ⟨b, hdecode⟩

theorem exists_fault_of_decode {e : Error} (h : a.decode text = .error e) :
    ∃ fault, e = .format fault := by
  have hnot : ¬ a.IsNumeral text := by
    intro hnumeral
    rw [a.decode_of_isNumeral hnumeral] at h
    cases h
  rcases a.decode_eq_error hnot with hdecode | ⟨b, hdecode⟩
  · exact ⟨_, Except.error.inj (h.symm.trans hdecode)⟩
  · exact ⟨_, Except.error.inj (h.symm.trans hdecode)⟩

theorem decode_eq_ok_iff : a.decode text = .ok n ↔
    a.IsNumeral text ∧ n = Numeral.value a.base (text.toList.map a.worth) := by
  by_cases h : a.IsNumeral text
  · rw [a.decode_of_isNumeral h]
    simp only [h, true_and, Except.ok.injEq, eq_comm]
  · have hfail : a.decode text ≠ .ok n := by
      rcases a.decode_eq_error h with hdecode | ⟨b, hdecode⟩ <;> simp [hdecode]
    simp only [hfail, h, false_and]

theorem accepts_iff : a.accepts text = true ↔ text ≠ "" ∧ ∀ b ∈ Utf8.encode text, a.IsDigit b := by
  simp only [accepts, Bool.and_eq_true, bne_iff_ne, List.all_eq_true, isSome_digitValue?_iff]

/-! ## Writing -/

theorem toList_encode (n : Nat) : (a.encode n).toList = (Numeral.digits a.base n).map a.digit :=
  String.toList_ofList

theorem length_encode (n : Nat) : (a.encode n).length = (Numeral.digits a.base n).length := by
  rw [← String.length_toList, toList_encode, List.length_map]

theorem isNumeral_encode (n : Nat) : a.IsNumeral (a.encode n) := by
  constructor
  · intro h
    rw [← String.toList_eq_nil_iff, toList_encode, List.map_eq_nil_iff] at h
    exact Numeral.digits_ne_nil _ _ h
  · rw [toList_encode, List.forall_mem_map]
    exact fun d hd => a.digit_mem (Numeral.lt_of_mem_digits a.two_le_base n d hd)

theorem map_worth_encode (n : Nat) :
    (a.encode n).toList.map a.worth = Numeral.digits a.base n := by
  rw [toList_encode, a.map_worth_map_digit (Numeral.lt_of_mem_digits a.two_le_base n)]

theorem decode_encode (n : Nat) : a.decode (a.encode n) = .ok n := by
  rw [a.decode_of_isNumeral (a.isNumeral_encode n), map_worth_encode,
    Numeral.value_digits a.two_le_base]

theorem encode_injective : Function.Injective a.encode := by
  intro m n h
  have hm := a.decode_encode m
  rw [h, decode_encode, Except.ok.injEq] at hm
  exact hm.symm

theorem encode_value (h : ∀ c ∈ text.toList, c ∈ a.digits) :
    a.encode (Numeral.value a.base (text.toList.map a.worth)) = a.stripped text := by
  have hsub : ∀ c ∈ text.toList.dropWhile (· == a.digit 0), c ∈ a.digits :=
    fun c hc => h c ((List.dropWhile_sublist _).subset hc)
  rw [encode, stripped, Numeral.digits_value a.two_le_base (a.forall_worth_lt h),
    a.dropWhile_map_worth h]
  cases hcs : text.toList.dropWhile (· == a.digit 0) with
  | nil => rfl
  | cons c cs =>
    rw [hcs] at hsub
    exact congrArg String.ofList (a.map_digit_map_worth hsub)

/-! ## Numerals and numbers -/

theorem head?_encode_ne (hn : n ≠ 0) : (a.encode n).toList.head? ≠ some (a.digit 0) := by
  have hhead := Numeral.head?_digits_ne_zero a.two_le_base hn
  rw [toList_encode, List.head?_map]
  intro hzero
  obtain ⟨d, hd, hdigit⟩ := Option.map_eq_some_iff.1 hzero
  have hlt := Numeral.lt_of_mem_digits a.two_le_base n d (List.mem_of_head? hd)
  have hworth := congrArg a.worth hdigit
  rw [a.worth_digit hlt, a.worth_digit (Nat.lt_of_lt_of_le (by decide) a.two_le_base)] at hworth
  exact hhead (hworth ▸ hd)

theorem compare_of_decode {s t : String} {m n : Nat} (hlen : s.length = t.length)
    (hs : a.decode s = .ok m) (ht : a.decode t = .ok n) :
    compare (s.toList.map a.worth) (t.toList.map a.worth) = compare m n := by
  obtain ⟨⟨-, hsdigits⟩, rfl⟩ := a.decode_eq_ok_iff.1 hs
  obtain ⟨⟨-, htdigits⟩, rfl⟩ := a.decode_eq_ok_iff.1 ht
  have hlen : (s.toList.map a.worth).length = (t.toList.map a.worth).length := by
    rw [List.length_map, List.length_map, String.length_toList, String.length_toList, hlen]
  exact (Numeral.compare_value a.two_le_base (a.forall_worth_lt hsdigits)
    (a.forall_worth_lt htdigits) hlen).symm

/-- A number has one canonical text, and texts of one length are in the order of their numbers. -/
theorem encode_canonical (a : Alphabet) :
    (∀ n, a.IsNumeral (a.encode n) ∧ a.decode (a.encode n) = .ok n) ∧
    a.encode 0 = String.ofList [a.digit 0] ∧
    (∀ n, 0 < n → (a.encode n).toList.head? ≠ some (a.digit 0) ∧
      a.base ^ ((a.encode n).length - 1) ≤ n ∧ n < a.base ^ (a.encode n).length) ∧
    Function.Injective a.encode ∧
    (∀ s t m n, s.length = t.length → a.decode s = .ok m → a.decode t = .ok n →
      compare (s.toList.map a.worth) (t.toList.map a.worth) = compare m n) := by
  refine ⟨fun n => ⟨a.isNumeral_encode n, a.decode_encode n⟩, ?_, ?_, a.encode_injective,
    fun s t m n => a.compare_of_decode⟩
  · rw [encode, Numeral.digits_zero]
    rfl
  · intro n hn
    rw [length_encode]
    exact ⟨a.head?_encode_ne (by omega), Numeral.pow_length_digits_le a.two_le_base (by omega),
      Numeral.lt_pow_length_digits a.two_le_base n⟩

theorem encode_canonical_sixtyTwo :
    (0 < 62 ∧ base62.encode 62 = "10" ∧ base62.base = 62 ∧
      (base62.encode 62).toList.head? ≠ some (base62.digit 0) ∧
      base62.base ^ ((base62.encode 62).length - 1) ≤ 62 ∧
      62 < base62.base ^ (base62.encode 62).length) ∧
    ("0f".length = "a0".length ∧ base16.base = 16 ∧
      base16.decode "0f" = .ok 15 ∧ base16.decode "a0" = .ok 160 ∧
      compare ("0f".toList.map base16.worth) ("a0".toList.map base16.worth) = compare 15 160) ∧
    ("~!".length = "!~".length ∧ base94.base = 94 ∧
      base94.decode "~!" = .ok 8742 ∧ base94.decode "!~" = .ok 93 ∧
      compare ("~!".toList.map base94.worth) ("!~".toList.map base94.worth) =
        compare 8742 93) := by
  obtain ⟨-, -, hpositive, -, -⟩ := encode_canonical base62
  obtain ⟨-, -, -, -, hhex⟩ := encode_canonical base16
  obtain ⟨-, -, -, -, hprintable⟩ := encode_canonical base94
  have hsmall : base16.decode "0f" = .ok 15 := by decide +kernel
  have hlarge : base16.decode "a0" = .ok 160 := by decide +kernel
  have hfirst : base94.decode "~!" = .ok 8742 := by decide +kernel
  have hlast : base94.decode "!~" = .ok 93 := by decide +kernel
  exact ⟨⟨by decide, by decide +kernel, by decide +kernel, hpositive 62 (by decide)⟩,
    ⟨by decide +kernel, by decide +kernel, hsmall, hlarge,
      hhex "0f" "a0" 15 160 (by decide +kernel) hsmall hlarge⟩,
    ⟨by decide +kernel, by decide +kernel, hfirst, hlast,
      hprintable "~!" "!~" 8742 93 (by decide +kernel) hfirst hlast⟩⟩

/-- `decode` reads the texts that `accepts` takes, and names the first foreign byte of others. -/
theorem decode_accepts_alphabet (a : Alphabet) (text : String) :
    ((∃ n, a.decode text = .ok n) ↔ a.accepts text = true) ∧
    (a.accepts text = true ↔ text ≠ "" ∧ ∀ b ∈ Utf8.encode text, a.IsDigit b) ∧
    (∀ n, a.decode text = .ok n →
      n = (text.toList.reverse.mapIdx fun k c => a.worth c * a.base ^ k).sum ∧
      a.encode n = a.stripped text) ∧
    (text = "" → a.decode text = .error (.format (.emptyNumeral a.name))) ∧
    (text ≠ "" → a.accepts text = false → ∃ before b after,
      Utf8.encode text = before ++ b :: after ∧
      (∀ x ∈ before, a.IsDigit x) ∧ ¬ a.IsDigit b ∧
      a.decode text = .error (.format (.foreignDigit a.name b text))) ∧
    (∀ name other, a.decode text ≠ .error (.format (.badNumeral name other))) := by
  have haccepts : a.accepts text = true ↔ a.IsNumeral text := by
    rw [accepts_iff, forall_isDigit_iff, IsNumeral]
  refine ⟨?_, a.accepts_iff, ?_, fun h => if_pos h, ?_, ?_⟩
  · rw [haccepts]
    simp only [decode_eq_ok_iff, exists_and_left, exists_eq, and_true]
  · intro n hn
    obtain ⟨hnumeral, rfl⟩ := a.decode_eq_ok_iff.1 hn
    refine ⟨?_, a.encode_value hnumeral.2⟩
    rw [Numeral.value_eq_sum, ← List.map_reverse]
    simp only [List.mapIdx_eq_zipIdx_map, List.zipIdx_map, List.map_map]
    rfl
  · intro hne hnot
    refine a.decode_of_not_isNumeral hne ?_
    rw [← haccepts, hnot]
    exact Bool.false_ne_true
  · intro name other
    by_cases hnumeral : a.IsNumeral text
    · simp [a.decode_of_isNumeral hnumeral]
    · rcases a.decode_eq_error hnumeral with hdecode | ⟨b, hdecode⟩ <;> simp [hdecode]

theorem decode_accepts_alphabet_assorted :
    (base62.decode "0010" = .ok 62 ∧
      62 = ("0010".toList.reverse.mapIdx fun k c => base62.worth c * base62.base ^ k).sum ∧
      base62.encode 62 = base62.stripped "0010") ∧
    ("" = "" ∧ base16.decode "" = .error (.format (.emptyNumeral "base16"))) ∧
    ("1é" ≠ "" ∧ base94.accepts "1é" = false ∧ ∃ before b after,
      Utf8.encode "1é" = before ++ b :: after ∧ (∀ x ∈ before, base94.IsDigit x) ∧
      ¬ base94.IsDigit b ∧
      base94.decode "1é" = .error (.format (.foreignDigit "base94" b "1é"))) := by
  obtain ⟨-, -, hvalue, -, -, -⟩ := decode_accepts_alphabet base62 "0010"
  obtain ⟨-, -, -, hempty, -, -⟩ := decode_accepts_alphabet base16 ""
  obtain ⟨-, -, -, -, hforeign, -⟩ := decode_accepts_alphabet base94 "1é"
  have hread : base62.decode "0010" = .ok 62 := by decide +kernel
  have hnot : base94.accepts "1é" = false := by decide +kernel
  exact ⟨⟨hread, hvalue 62 hread⟩, ⟨rfl, hempty rfl⟩,
    ⟨by decide, hnot, hforeign (by decide) hnot⟩⟩

end DigestFilter.Alphabet
