import DigestFilter.Filter.Text
import DigestFilter.Proofs.Filter.Insertion
import DigestFilter.Proofs.Text.Hex

/-!
# One numbering of bits

Looking up a bit, changing it, inserting a code and writing the bitmap out all count the bits of a
filter in one way: the bits of a byte from the lowest up. Only binary text has the highest bit of a
byte first, so there bit `i` stands at `8 * (i / 8) + 7 - i % 8`. What the texts say is what they
are read back as, and both are read back as the bitmap.
-/

namespace DigestFilter

/-! ## Binary text -/

namespace Binary

def digit? (c : Char) : Option Nat :=
  if c = '0' then some 0 else if c = '1' then some 1 else none

/-- Reads bytes of eight digits each, the highest digit first. -/
def decode? : List Char → Option (List UInt8)
  | [] => some []
  | a :: b :: c :: d :: e :: f :: g :: h :: rest => do
    let ds ← [a, b, c, d, e, f, g, h].mapM digit?
    let bs ← decode? rest
    return UInt8.ofNat (Numeral.value 2 ds) :: bs
  | _ => none

theorem digit?_of_bool (v : Bool) : digit? (if v then '1' else '0') = some v.toNat := by
  cases v <;> rfl

end Binary

namespace Filter

open Binary (digit? decode?)

variable {f g : Filter} {bs : List UInt8} {i j : Nat} {v : Bool}

theorem length_bitDigits (b : UInt8) : (bitDigits b).length = 8 := by
  simp [bitDigits]

theorem mapM_bitDigits (b : UInt8) :
    (bitDigits b).mapM digit? =
      some ((List.range 8).map fun k => (b.toNat.testBit (7 - k)).toNat) := by
  unfold bitDigits
  rw [List.mapM_map]
  simp only [Function.comp_def, Binary.digit?_of_bool]
  exact List.mapM_pure

theorem value_bits {n : Nat} (h : n < 256) :
    Numeral.value 2 ((List.range 8).map fun k => (n.testBit (7 - k)).toNat) = n := by
  revert n
  decide +kernel

theorem decode?_bitDigits_append (b : UInt8) (rest : List Char) :
    decode? (bitDigits b ++ rest) = (decode? rest).map (b :: ·) := by
  have hvalue := value_bits b.toNat_lt
  have hread := mapM_bitDigits b
  match hb : bitDigits b, length_bitDigits b with
  | [a₀, a₁, a₂, a₃, a₄, a₅, a₆, a₇], _ =>
    rw [hb] at hread
    simp only [List.cons_append, List.nil_append, decode?, hread]
    cases decode? rest <;> simp [hvalue]

theorem decode?_flatMap_bitDigits (bs : List UInt8) :
    decode? (bs.flatMap bitDigits) = some bs := by
  induction bs with
  | nil => rfl
  | cons b bs ih => rw [List.flatMap_cons, decode?_bitDigits_append, ih, Option.map_some]

theorem length_flatMap_bitDigits (bs : List UInt8) :
    (bs.flatMap bitDigits).length = 8 * bs.length := by
  induction bs with
  | nil => rfl
  | cons b bs ih =>
    simp only [List.flatMap_cons, List.length_append, length_bitDigits, ih, List.length_cons]
    omega

theorem getElem?_flatMap_bitDigits (bs : List UInt8) (j : Nat) {k : Nat} (hk : k < 8) :
    (bs.flatMap bitDigits)[8 * j + (7 - k)]? =
      bs[j]?.map fun b => if b.toNat.testBit k then '1' else '0' := by
  induction bs generalizing j with
  | nil => simp
  | cons b bs ih =>
    rw [List.flatMap_cons]
    cases j with
    | zero =>
      have hback : 7 - (7 - k) = k := by omega
      rw [List.getElem?_append_left (by rw [length_bitDigits]; omega)]
      simp [bitDigits, hback, show 7 - k < 8 by omega]
    | succ j =>
      rw [List.getElem?_append_right (by rw [length_bitDigits]; omega), length_bitDigits,
        List.getElem?_cons_succ, ← ih j]
      congr 1
      omega

theorem getElem?_bits_eq_one_iff :
    (bs.flatMap bitDigits)[8 * (i / 8) + 7 - i % 8]? = some '1' ↔
      Bitmap.get? bs i = some true := by
  have hk : i % 8 < 8 := Nat.mod_lt i (by decide)
  have hplace : 8 * (i / 8) + 7 - i % 8 = 8 * (i / 8) + (7 - i % 8) := by omega
  rw [hplace, getElem?_flatMap_bitDigits bs (i / 8) hk]
  unfold Bitmap.get?
  cases bs[i / 8]? with
  | none => simp
  | some b => cases b.toNat.testBit (i % 8) <;> simp

/-! ## Changing one bit -/

theorem put_get? {old : Bool} (h : Bitmap.get? bs i = some old) :
    Bitmap.put old i (Bitmap.put v i bs) = bs := by
  apply Bitmap.ext_get?
  intro j
  rw [Bitmap.get?_put, Bitmap.get?_put]
  by_cases hj : i = j
  · subst hj
    simp [h]
  · simp [hj]

theorem assign_of_lt (hf : f.frozen = false) (hi : i < 8 * f.size) (v : Bool) :
    ∃ g, f.assign i v = .ok (v, g) ∧ g.bitmap = Bitmap.put v i f.bitmap ∧ g.frozen = false := by
  unfold assign set bitSize
  rw [hf, if_neg Bool.false_ne_true, if_neg (Nat.not_le.2 hi)]
  exact ⟨_, rfl, rfl, rfl⟩

theorem size_of_put (h : g.bitmap = Bitmap.put v i f.bitmap) : g.size = f.size := by
  simp [size, h]

theorem get?_of_put (h : g.bitmap = Bitmap.put v i f.bitmap) (hi : i < 8 * f.size) (j : Nat) :
    g.get? j = if i = j then some v else f.get? j := by
  unfold get?
  rw [h, Bitmap.get?_put]
  split
  · next hj =>
    obtain ⟨b, hb⟩ := Option.isSome_iff_exists.1 (f.isSome_get?_iff.2 (hj ▸ hi))
    unfold get? at hb
    rw [hb, Option.map_some]
  · rfl

theorem assign_back (hf : f.frozen = false) (hi : i < 8 * f.size)
    (h : g.bitmap = Bitmap.put v i f.bitmap) (hg : g.frozen = false) {old : Bool}
    (hold : f.get? i = some old) : g.assign i old = .ok (old, f) := by
  obtain ⟨back, hassign, hback, hthawed⟩ := assign_of_lt hg (size_of_put h ▸ hi) old
  have heq : back = f := by
    apply Filter.ext
    · rw [hback, h]
      exact put_get? hold
    · rw [hthawed, hf]
  rw [hassign, heq]

theorem assign_eq_insert {α : Type} [Hashed α] {x : α} {code : UInt32} (hf : f.frozen = false)
    (hx : hashes x = [code]) : ∃ g, f.insert x = .ok g ∧
      f.assign (code.toNat % (8 * f.size)) true = .ok (true, g) := by
  have hlt : code.toNat % (8 * f.size) < 8 * f.size := f.position_lt code
  obtain ⟨g, hassign, hbitmap, hthawed⟩ := assign_of_lt hf hlt true
  refine ⟨g, ?_, hassign⟩
  rw [f.insert_of_thawed hf, hx]
  congr 1
  apply Filter.ext
  · exact hbitmap.symm
  · exact hf.trans hthawed.symm

/-! ## Texts of a bitmap -/

theorem exists_texts (f : Filter) :
    ∃ bits hex : String, f.toRadix 2 = .ok bits ∧ f.toRadix 16 = .ok hex ∧
      bits.toList = f.bitmap.flatMap bitDigits ∧ decode? bits.toList = some f.bitmap ∧
      Hex.decode (Utf8.encode hex) = .ok f.bitmap := by
  have hhex : Hex.IsHex (String.ofList (Hex.encode f.bitmap)).toList := by
    rw [String.toList_ofList]
    exact Hex.isHex_encode f.bitmap
  refine ⟨_, _, rfl, rfl, String.toList_ofList, ?_, ?_⟩
  · rw [String.toList_ofList, decode?_flatMap_bitDigits]
  · rw [Hex.decode_of_isHex hhex, String.toList_ofList, Hex.pairs_encode]

theorem bitmap_eq_of_toRadix_eq
    (h : f.toRadix 2 = g.toRadix 2 ∨ f.toRadix 16 = g.toRadix 16) : f.bitmap = g.bitmap := by
  obtain ⟨bits, hex, hbits, hhex, -, hfbits, hfhex⟩ := f.exists_texts
  obtain ⟨bits', hex', hbits', hhex', -, hgbits, hghex⟩ := g.exists_texts
  rcases h with h | h
  · rw [hbits, hbits', Except.ok.injEq] at h
    rw [h, hgbits, Option.some.injEq] at hfbits
    exact hfbits.symm
  · rw [hhex, hhex', Except.ok.injEq] at h
    rw [h, hghex, Except.ok.injEq] at hfhex
    exact hfhex.symm

/-- Single bits, elements of one code and the texts in base 2 and 16 number the bits alike. -/
theorem one_numbering_of_bits (f : Filter) (hf : f.frozen = false) :
    (∀ i, f.get? i = none ↔ 8 * f.size ≤ i) ∧
    (∀ i v, i < 8 * f.size → ∃ g, f.assign i v = .ok (v, g) ∧ g.size = f.size ∧
      g.get? i = some v ∧ (∀ j, j ≠ i → g.get? j = f.get? j) ∧
      ∀ old, f.get? i = some old → g.assign i old = .ok (old, f)) ∧
    (∀ (α : Type) [Hashed α] (x : α) (code : UInt32), hashes x = [code] →
      ∃ g, f.insert x = .ok g ∧
        f.assign (code.toNat % (8 * f.size)) true = .ok (true, g)) ∧
    (∃ bits hex : String, f.toRadix 2 = .ok bits ∧ f.toRadix 16 = .ok hex ∧
      bits.length = 8 * f.size ∧
      (∀ i, bits.toList[8 * (i / 8) + 7 - i % 8]? = some '1' ↔ f.get? i = some true) ∧
      decode? bits.toList = some f.bitmap ∧
      Hex.decode (Utf8.encode hex) = .ok f.bitmap) ∧
    (∀ g : Filter, f.toRadix 2 = g.toRadix 2 ∨ f.toRadix 16 = g.toRadix 16 →
      f.bitmap = g.bitmap) := by
  refine ⟨fun _ => Bitmap.get?_eq_none_iff, ?_, fun α _ x code => assign_eq_insert hf, ?_,
    fun g => bitmap_eq_of_toRadix_eq⟩
  · intro i v hi
    obtain ⟨g, hassign, hbitmap, hthawed⟩ := assign_of_lt hf hi v
    refine ⟨g, hassign, size_of_put hbitmap, ?_, ?_, fun _ => assign_back hf hi hbitmap hthawed⟩
    · rw [get?_of_put hbitmap hi, if_pos rfl]
    · intro j hj
      rw [get?_of_put hbitmap hi, if_neg (Ne.symm hj)]
  · obtain ⟨bits, hex, hbits, hhex, hlist, hread, hdecode⟩ := f.exists_texts
    refine ⟨bits, hex, hbits, hhex, ?_, ?_, hread, hdecode⟩
    · rw [← String.length_toList, hlist, length_flatMap_bitDigits]
      rfl
    · intro i
      rw [hlist]
      exact getElem?_bits_eq_one_iff

def sixteenBits : Filter := ⟨[0b100, 0b10000000], false, by decide⟩

theorem one_numbering_of_bits_sixteenBits :
    sixteenBits.frozen = false ∧
    (8 * sixteenBits.size ≤ 16 ∧ sixteenBits.get? 16 = none) ∧
    (9 < 8 * sixteenBits.size ∧ ∃ g, sixteenBits.assign 9 true = .ok (true, g) ∧
      g.get? 9 = some true ∧ g.get? 15 = some true ∧ g.get? 8 = some false ∧
      g.assign 9 false = .ok (false, sixteenBits)) ∧
    (hashes [(1000 : UInt32)] = [1000] ∧ ∃ g, sixteenBits.insert [(1000 : UInt32)] = .ok g ∧
      sixteenBits.assign 8 true = .ok (true, g)) ∧
    (∃ bits : String, sixteenBits.toRadix 2 = .ok bits ∧ bits.length = 16 ∧
      bits.toList[5]? = some '1' ∧ bits.toList[8]? = some '1' ∧ ¬ bits.toList[0]? = some '1') ∧
    (sixteenBits.toRadix 16 = sixteenBits.freeze.toRadix 16 ∧
      sixteenBits.bitmap = sixteenBits.freeze.bitmap) := by
  obtain ⟨hnone, hset, hinsert, ⟨bits, hex, hbits, -, hlength, hdigit, -, -⟩, happart⟩ :=
    one_numbering_of_bits sixteenBits rfl
  obtain ⟨g, hassign, -, hget, hother, hback⟩ := hset 9 true (by decide)
  exact ⟨rfl, ⟨by decide, (hnone 16).2 (by decide)⟩,
    ⟨by decide, g, hassign, hget, (hother 15 (by decide)).trans (by decide),
      (hother 8 (by decide)).trans (by decide), hback false (by decide)⟩,
    ⟨rfl, hinsert (List UInt32) [1000] 1000 rfl⟩,
    ⟨bits, hbits, hlength, (hdigit 2).2 (by decide), (hdigit 15).2 (by decide),
      mt (hdigit 7).1 (by decide)⟩,
    ⟨rfl, happart sixteenBits.freeze (.inr rfl)⟩⟩

end Filter

end DigestFilter
