import DigestFilter.Proofs.Text.Padding
import DigestFilter.Proofs.Text.Spelling

/-!
# One number in several bases

An identifier is written in base 2, 8 and 10 as the number that it denotes, and in base 16 byte by
byte. All of these texts say the same number: the two digits of a byte are its numeral in base 16,
so the digits of all bytes in a row are those of the number, filled up with zeros in front to two
digits a byte. Read as a numeral or as bytes, such a text gives the same identifier.
-/

namespace DigestFilter

namespace Numeral

variable {base n : Nat}

/-- The digits that a number is written with; a zero stands in front of no other digit. -/
structure Canonical (base n : Nat) (ds : List Nat) : Prop where
  ne_nil : ds ≠ []
  digit_lt : ∀ d ∈ ds, d < base
  value_eq : value base ds = n
  eq_zero_of_head : ds.head? = some 0 → ds = [0]

theorem canonical_digits (hb : 2 ≤ base) (n : Nat) : Canonical base n (digits base n) where
  ne_nil := digits_ne_nil base n
  digit_lt := lt_of_mem_digits hb n
  value_eq := value_digits hb n
  eq_zero_of_head := by
    intro h
    by_cases hn : n = 0
    · subst hn
      exact digits_zero base
    · exact absurd h (head?_digits_ne_zero hb hn)

theorem value_flatMap_halves (base : Nat) (ds : List Nat) :
    value base (ds.flatMap fun d => [d / base, d % base]) = value (base * base) ds := by
  unfold value
  rw [List.foldl_flatMap]
  congr 1
  funext n d
  simp [Nat.mul_add, Nat.add_assoc, Nat.mul_assoc, Nat.div_add_mod]

theorem toNat_decimalDigit {d : Nat} (h : d < 10) : (decimalDigit d).toNat - 48 = d := by
  revert d
  decide

theorem text_injective (hb : 2 ≤ base) (hten : base ≤ 10) : Function.Injective (text base) := by
  intro m n h
  have hback : ∀ k, (text base k).toList.map (fun c => c.toNat - 48) = digits base k := by
    intro k
    have hdigit : ∀ d ∈ digits base k, (decimalDigit d).toNat - 48 = d :=
      fun d hd => toNat_decimalDigit (Nat.lt_of_lt_of_le (lt_of_mem_digits hb k d hd) hten)
    unfold text
    rw [String.toList_ofList, List.map_map]
    exact (List.map_congr_left hdigit).trans (List.map_id _)
  rw [← value_digits hb m, ← hback m, h, hback, value_digits hb]

end Numeral

namespace Alphabet

/-! ## Zeros in front -/

theorem leftpad_dropWhile (z : Char) (cs : List Char) :
    (cs.dropWhile (· == z)).leftpad cs.length z = cs := by
  induction cs with
  | nil => rfl
  | cons c cs ih =>
    rw [List.dropWhile_cons]
    split
    · next h =>
      have hle : (cs.dropWhile (· == z)).length ≤ cs.length := (List.dropWhile_sublist _).length_le
      unfold List.leftpad at ih ⊢
      rw [List.length_cons, Nat.succ_sub hle, List.replicate_succ, List.cons_append, ih,
        eq_of_beq h]
    · simp [List.leftpad]

theorem leftpad_stripped (a : Alphabet) {text : String} (hne : text ≠ "") :
    (a.stripped text).toList.leftpad text.length (a.digit 0) = text.toList := by
  have hpad := leftpad_dropWhile (a.digit 0) text.toList
  rw [String.length_toList] at hpad
  unfold stripped
  split
  · next hnil =>
    -- Nothing but zeros: the one that is written takes the place of one in front.
    have hpos : 0 < text.length := Identifier.ne_empty_iff.1 hne
    rw [hnil] at hpad
    rw [← hpad, String.toList_ofList]
    unfold List.leftpad
    rw [List.length_nil, Nat.sub_zero, List.length_singleton, List.append_nil,
      ← List.replicate_succ', Nat.sub_add_cancel hpos]
  · rw [String.toList_ofList]
    exact hpad

end Alphabet

namespace Identifier

variable {base : Nat} {x y : Identifier} {text : String}

/-! ## Base 16 -/

def halves (x : Identifier) : List Nat :=
  (x.digest.map UInt8.toNat).flatMap fun d => [d / 16, d % 16]

theorem halves_lt (x : Identifier) : ∀ d ∈ x.halves, d < Alphabet.base16.base := by
  have hbase : Alphabet.base16.base = 16 := by decide
  intro d hd
  obtain ⟨n, hn, hd⟩ := List.mem_flatMap.1 hd
  have hlt := forall_toNat_lt x.digest n hn
  simp only [List.mem_cons, List.not_mem_nil, or_false] at hd
  omega

theorem toList_toHex_eq_map (x : Identifier) :
    x.toHex.toList = x.halves.map Alphabet.base16.digit := by
  rw [toList_toHex]
  unfold Hex.encode halves
  rw [List.map_flatMap, List.flatMap_map]
  rfl

theorem toHex_ne_empty (x : Identifier) : x.toHex ≠ "" := by
  have hpos := x.size_pos
  rw [ne_empty_iff, length_toHex]
  omega

theorem decode_toHex (x : Identifier) : Alphabet.base16.decode x.toHex = .ok x.toNat := by
  have hdigits : ∀ c ∈ x.toHex.toList, c ∈ Alphabet.base16.digits := by
    rw [toList_toHex_eq_map, List.forall_mem_map]
    exact fun d hd => Alphabet.base16.digit_mem (x.halves_lt d hd)
  rw [Alphabet.decode_eq_ok_iff]
  refine ⟨⟨x.toHex_ne_empty, hdigits⟩, ?_⟩
  rw [toList_toHex_eq_map, Alphabet.base16.map_worth_map_digit x.halves_lt]
  exact (Numeral.value_flatMap_halves 16 _).symm

theorem toHex_eq_leftpad (x : Identifier) :
    x.toHex.toList = (x.encode .base16).toList.leftpad (2 * x.size) '0' := by
  obtain ⟨hnumeral, hvalue⟩ := (Alphabet.base16.decode_eq_ok_iff).1 x.decode_toHex
  have hstripped : x.encode .base16 = Alphabet.base16.stripped x.toHex := by
    unfold encode
    rw [hvalue]
    exact Alphabet.base16.encode_value hnumeral.2
  have hpad := Alphabet.base16.leftpad_stripped x.toHex_ne_empty
  rw [hstripped, ← length_toHex]
  exact hpad.symm

/-! ## Bases 2, 8 and 10 -/

theorem toNat_eq_sum (x : Identifier) :
    x.toNat = (x.digest.reverse.mapIdx fun k b => b.toNat * 256 ^ k).sum := by
  unfold toNat
  rw [Numeral.value_eq_sum, ← List.map_reverse]
  simp only [List.mapIdx_eq_zipIdx_map, List.zipIdx_map, List.map_map]
  rfl

theorem toRadix_eq (x : Identifier) (h : base ∈ [2, 8, 10]) :
    x.toRadix base = .ok (Numeral.text base x.toNat) := by
  simp only [List.mem_cons, List.not_mem_nil, or_false] at h
  rcases h with rfl | rfl | rfl <;> rfl

theorem toNat_eq_of_toRadix_eq (hbase : base ∈ [2, 8, 10]) (h : x.toRadix base = y.toRadix base) :
    x.toNat = y.toNat := by
  rw [toRadix_eq x hbase, toRadix_eq y hbase, Except.ok.injEq] at h
  simp only [List.mem_cons, List.not_mem_nil, or_false] at hbase
  exact Numeral.text_injective (by omega) (by omega) h

theorem toNat_eq_of_toHex_eq (h : x.toHex = y.toHex) : x.toNat = y.toNat := by
  have hx := x.decode_toHex
  rw [h, decode_toHex, Except.ok.injEq] at hx
  exact hx.symm

/-! ## Lowercase text -/

theorem isDigit_of_mem_digits {c : Char} (h : c ∈ Hex.digits) : Hex.IsDigit c ∧ c.toLower = c := by
  have hall : (Hex.digits.all fun c => decide (Hex.IsDigit c ∧ c.toLower = c)) = true := by decide
  exact of_decide_eq_true (List.all_eq_true.1 hall c h)

theorem toLower_of_mem_digits (h : ∀ c ∈ text.toList, c ∈ Hex.digits) : text.toLower = text := by
  have hlower : text.toLower.toList = text.toList.map Char.toLower := String.toList_map
  apply String.toList_inj.1
  rw [hlower]
  exact (List.map_congr_left fun c hc => (isDigit_of_mem_digits (h c hc)).2).trans (List.map_id _)

theorem exists_decode_and_parse (h : ∀ c ∈ text.toList, c ∈ Hex.digits)
    (heven : text.length % 2 = 0) (hlong : 8 ≤ text.length) :
    ∃ x, decode .base16 text (text.length / 2) = .ok x ∧ parse text = .ok x := by
  have hhex : Hex.IsHex text.toList := by
    rw [← String.length_toList] at heven
    exact ⟨heven, fun c hc => (isDigit_of_mem_digits (h c hc)).1⟩
  obtain ⟨x, hparse, -, hsize, hfrozen, hwritten⟩ := exists_parse_eq_ok hhex hlong
  have hread := x.decode_toHex
  rw [hwritten, toLower_of_mem_digits h] at hread
  exact ⟨x, decode_eq_ok_iff.2 ⟨by omega, hfrozen, hread⟩, hparse⟩

/-- The texts in bases 2, 8, 10 and 16 denote the number of the bytes. -/
theorem texts_denote_one_number :
    (∀ x : Identifier,
      x.toNat = (x.digest.reverse.mapIdx fun k b => b.toNat * 256 ^ k).sum) ∧
    (∀ (x : Identifier) (base : Nat), base ∈ [2, 8, 10] →
      ∃ ds, Numeral.Canonical base x.toNat ds ∧
        x.toRadix base = .ok (String.ofList (ds.map Numeral.decimalDigit))) ∧
    (∀ x : Identifier, x.toHex.length = 2 * x.size ∧
      x.toHex.toList = (x.encode .base16).toList.leftpad (2 * x.size) '0') ∧
    (∀ x y : Identifier, x.size = y.size →
      (∀ base ∈ [2, 8, 10], x.toRadix base = y.toRadix base → (x == y) = true) ∧
      (x.toHex = y.toHex → (x == y) = true) ∧
      (x.encode .base16 = y.encode .base16 → (x == y) = true)) ∧
    (∀ text : String, (∀ c ∈ text.toList, c ∈ Hex.digits) → text.length % 2 = 0 →
      8 ≤ text.length →
      ∃ x, decode .base16 text (text.length / 2) = .ok x ∧ parse text = .ok x) := by
  refine ⟨toNat_eq_sum, ?_, fun x => ⟨length_toHex, x.toHex_eq_leftpad⟩, ?_,
    fun _ => exists_decode_and_parse⟩
  · intro x base hbase
    refine ⟨_, Numeral.canonical_digits ?_ x.toNat, toRadix_eq x hbase⟩
    simp only [List.mem_cons, List.not_mem_nil, or_false] at hbase
    omega
  · intro x y hsize
    simp only [beq_iff_toNat, hsize, true_and]
    exact ⟨fun base => toNat_eq_of_toRadix_eq, toNat_eq_of_toHex_eq,
      fun h => Alphabet.base16.encode_injective h⟩

theorem texts_denote_one_number_padded :
    (8 ∈ [2, 8, 10] ∧ padded.toNat = 258 ∧ ∃ ds, Numeral.Canonical 8 padded.toNat ds ∧
      padded.toRadix 8 = .ok (String.ofList (ds.map Numeral.decimalDigit))) ∧
    (padded.size = padded.thawed.size ∧ padded.toRadix 10 = padded.thawed.toRadix 10 ∧
      padded.toHex = padded.thawed.toHex ∧
      padded.encode .base16 = padded.thawed.encode .base16 ∧ (padded == padded.thawed) = true) ∧
    ((∀ c ∈ "000000ff".toList, c ∈ Hex.digits) ∧ "000000ff".length % 2 = 0 ∧
      8 ≤ "000000ff".length ∧
      ∃ x, decode .base16 "000000ff" 4 = .ok x ∧ parse "000000ff" = .ok x) := by
  obtain ⟨-, hradix, -, happart, hread⟩ := texts_denote_one_number
  have hall : ("000000ff".toList.all fun c => decide (c ∈ Hex.digits)) = true := by decide
  have hlower : ∀ c ∈ "000000ff".toList, c ∈ Hex.digits := by simpa using hall
  exact ⟨⟨by decide, by decide, hradix padded 8 (by decide)⟩,
    ⟨rfl, rfl, rfl, rfl, (happart padded padded.thawed rfl).1 10 (by decide) rfl⟩,
    ⟨hlower, by decide, by decide, hread "000000ff" hlower (by decide) (by decide)⟩⟩

end Identifier

end DigestFilter
