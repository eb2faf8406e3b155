import DigestFilter.Proofs.Filter.Truncation

/-!
# Headed forms of the wrong length

A headed form that is cut short, or that has bytes behind it, is not taken as headed any more. It
is read as a plain form, and the magic bytes are then the low end of a length. That length is at
least 65536 times the size of the filter, so the bytes end before it unless almost as many follow.
-/

namespace DigestFilter.Filter

open LittleEndian (bytes value limit)

variable {f : Filter} {bs rest : List UInt8}

/-- The size of the bitmap when the headed form of `f` is read as a plain one. -/
def misreadSize (f : Filter) : Nat := 0xBC01 + 65536 * f.size

theorem length_encode_headed (f : Filter) : (f.encode true).length = f.size + 10 := by
  show (magic ++ Frame.encode 8 f.bitmap).length = f.size + 10
  rw [List.length_append, Frame.length_encode, magic, LittleEndian.length_bytes, size]
  omega

theorem encode_headed (hsize : f.size < 2 ^ 48) :
    f.encode true = bytes 8 f.misreadSize ++ ([0, 0] ++ f.bitmap) := by
  have hmagic : bytes 2 f.misreadSize = magic := by
    rw [bytes_eq_magic_iff, misreadSize]
    omega
  have hrest : f.misreadSize / limit 2 = f.size := by
    show (0xBC01 + 65536 * f.size) / 65536 = f.size
    omega
  -- The two zero bytes are the upper bytes of a size that fits six.
  have hupper : f.misreadSize / limit 8 = 0 := by
    show (0xBC01 + 65536 * f.size) / 2 ^ 64 = 0
    omega
  calc f.encode true
      = magic ++ (bytes 8 f.size ++ f.bitmap) := rfl
    _ = bytes (2 + 8) f.misreadSize ++ f.bitmap := by
        rw [LittleEndian.bytes_add, hmagic, hrest, List.append_assoc]
    _ = bytes 8 f.misreadSize ++ ([0, 0] ++ f.bitmap) := by
        rw [Nat.add_comm 2 8, LittleEndian.bytes_add, hupper, List.append_assoc]
        rfl

/-- Only one length agrees with the length field. -/
theorem length_of_isHeaded (hsize : f.size < 2 ^ 64) (hpre : bs <+: f.encode true ++ rest)
    (h : isHeaded bs = true) : bs.length = f.size + 10 := by
  obtain ⟨hten, -, hvalue⟩ := isHeaded_iff.1 h
  have hdrop : (f.encode true ++ rest).drop 2 = bytes 8 f.size ++ (f.bitmap ++ rest) := by
    show (magic ++ (bytes 8 f.size ++ f.bitmap) ++ rest).drop 2 = _
    rw [List.append_assoc, List.append_assoc]
    exact List.drop_left' (LittleEndian.length_bytes _ _)
  have hfield : (bs.drop 2).take 8 = bytes 8 f.size := by
    rw [List.prefix_iff_eq_take.1 hpre, List.drop_take, List.take_take, hdrop,
      Nat.min_eq_left (by omega)]
    exact List.take_left' (LittleEndian.length_bytes _ _)
  rw [hfield, LittleEndian.value_bytes_of_lt hsize] at hvalue
  omega

theorem read_of_short (hsize : f.size < 2 ^ 48) (hpre : bs <+: f.encode true ++ rest)
    (hshort : bs.length < f.misreadSize + 8) :
    read.runOn bs =
      (.error (if bs.length < 8 then .truncated 8 bs.length
        else .truncated f.misreadSize (bs.length - 8)), []) := by
  split
  · next hfield =>
    rw [read_runOn, Frame.read_of_short_field hfield]
    rfl
  · next hlong =>
    have hfield : bs.take 8 = bytes 8 f.misreadSize := by
      rw [List.prefix_iff_eq_take.1 hpre, List.take_take, Nat.min_eq_left (by omega),
        encode_headed hsize, List.append_assoc]
      exact List.take_left' (LittleEndian.length_bytes _ _)
    have hrest : (bs.drop 8).length = bs.length - 8 := List.length_drop
    have hlimit : f.misreadSize < 2 ^ 64 := by
      rw [misreadSize]
      omega
    have hread : read.runOn (bytes 8 f.misreadSize ++ bs.drop 8) = _ :=
      read_of_short_bitmap hlimit (by omega)
    rwa [← hfield, List.take_append_drop, hrest] at hread

theorem decode_of_wrong_length (hsize : f.size < 2 ^ 48) (hpre : bs <+: f.encode true ++ rest)
    (hlen : bs.length ≠ f.size + 10) (hshort : bs.length < f.misreadSize + 8) :
    decode bs = .error (if bs.length < 8 then .truncated 8 bs.length
      else .truncated f.misreadSize (bs.length - 8)) := by
  have hplain : isHeaded bs = false := by
    rw [Bool.eq_false_iff]
    intro h
    exact hlen (length_of_isHeaded (by omega) hpre h)
  rw [decode_of_plain hplain, read_of_short hsize hpre hshort]

theorem decode_of_long (hsize : f.size < 2 ^ 48)
    (hlong : f.misreadSize ≤ f.size + 2 + rest.length) :
    ∃ g, decode (f.encode true ++ rest) = .ok g ∧ g.size = f.misreadSize := by
  have hbig : f.misreadSize = 0xBC01 + 65536 * f.size := rfl
  have hplain : isHeaded (f.encode true ++ rest) = false := by
    rw [Bool.eq_false_iff]
    intro h
    have hlen := length_of_isHeaded (by omega) (List.prefix_refl _) h
    rw [List.length_append, length_encode_headed] at hlen
    omega
  have hpayload : f.misreadSize ≤ ([0, 0] ++ f.bitmap ++ rest).length := by
    simp only [List.length_append, List.length_cons, List.length_nil]
    rw [size] at hlong
    omega
  have htake : (([0, 0] ++ f.bitmap ++ rest).take f.misreadSize).length = f.misreadSize := by
    rw [List.length_take]
    exact Nat.min_eq_left hpayload
  have hne : ([0, 0] ++ f.bitmap ++ rest).take f.misreadSize ≠ [] := by
    rw [← List.length_pos_iff, htake]
    omega
  have hsplit : f.encode true ++ rest =
      (⟨_, false, hne⟩ : Filter).encode false ++
        ([0, 0] ++ f.bitmap ++ rest).drop f.misreadSize := by
    rw [encode_plain, size, htake, encode_headed hsize]
    simp only [List.append_assoc, List.take_append_drop]
  refine ⟨⟨_, false, hne⟩, ?_, htake⟩
  rw [decode_of_plain hplain, hsplit, read_encode_append]
  · rfl
  · rw [size, htake]
    omega

/-- A headed form is read as a filter at its full length only. -/
theorem headed_form_of_wrong_length (f : Filter) (hsize : f.size < 2 ^ 48) :
    (∀ bs, bs <+: f.encode true → bs ≠ f.encode true →
      decode bs = .error (if bs.length < 8 then .truncated 8 bs.length
        else .truncated (48129 + 65536 * f.size) (bs.length - 8))) ∧
    (∀ rest : List UInt8, 0 < rest.length → rest.length < 48127 + 65535 * f.size →
      decode (f.encode true ++ rest) =
        .error (.truncated (48129 + 65536 * f.size) ((f.encode true ++ rest).length - 8))) ∧
    (∀ rest : List UInt8, 48127 + 65535 * f.size ≤ rest.length →
      ∃ g, decode (f.encode true ++ rest) = .ok g ∧ g.size = 48129 + 65536 * f.size) ∧
    (∀ bs, bs <+: f.encode true →
      read.runOn bs = (.error (if bs.length < 8 then .truncated 8 bs.length
        else .truncated (48129 + 65536 * f.size) (bs.length - 8)), [])) := by
  have hwhole := length_encode_headed f
  have hbig : f.misreadSize = 48129 + 65536 * f.size := rfl
  refine ⟨?_, ?_, ?_, ?_⟩
  · intro bs hpre hne
    have hlt : bs.length < (f.encode true).length :=
      Nat.lt_of_le_of_ne hpre.length_le fun h => hne (hpre.eq_of_length h)
    rw [← List.append_nil (f.encode true)] at hpre
    exact decode_of_wrong_length hsize hpre (by omega) (by omega)
  · intro rest hpos hshort
    have hlen : (f.encode true ++ rest).length = f.size + 10 + rest.length := by
      rw [List.length_append, hwhole]
    rw [decode_of_wrong_length hsize (List.prefix_refl _) (by omega) (by omega),
      if_neg (by omega), hbig]
  · intro rest hlong
    exact decode_of_long hsize (by omega)
  · intro bs hpre
    have hle := hpre.length_le
    rw [← List.append_nil (f.encode true)] at hpre
    exact read_of_short hsize hpre (by omega)

def twoBytes : Filter where
  bitmap := [7, 0xFF]
  bitmap_ne_nil := List.cons_ne_nil _ _

theorem headed_form_of_wrong_length_twoBytes :
    twoBytes.size < 2 ^ 48 ∧
    ((twoBytes.encode true).take 5 <+: twoBytes.encode true ∧
      (twoBytes.encode true).take 5 ≠ twoBytes.encode true ∧
      decode ((twoBytes.encode true).take 5) = .error (.truncated 8 5)) ∧
    ((twoBytes.encode true).take 11 <+: twoBytes.encode true ∧
      (twoBytes.encode true).take 11 ≠ twoBytes.encode true ∧
      decode ((twoBytes.encode true).take 11) = .error (.truncated 179201 3)) ∧
    (0 < [9].length ∧ [9].length < 48127 + 65535 * twoBytes.size ∧
      decode (twoBytes.encode true ++ [9]) = .error (.truncated 179201 5)) ∧
    (48127 + 65535 * twoBytes.size ≤ (List.replicate 179197 (9 : UInt8)).length ∧
      ∃ g, decode (twoBytes.encode true ++ List.replicate 179197 9) = .ok g ∧
        g.size = 179201) ∧
    (twoBytes.encode true <+: twoBytes.encode true ∧
      read.runOn (twoBytes.encode true) = (.error (.truncated 179201 4), [])) := by
  obtain ⟨hcut, hextended, hlong, hstream⟩ :=
    headed_form_of_wrong_length twoBytes (by decide)
  have hlen : 48127 + 65535 * twoBytes.size ≤ (List.replicate 179197 (9 : UInt8)).length := by
    rw [List.length_replicate]
    decide
  exact ⟨by decide,
    ⟨List.take_prefix _ _, by decide, hcut _ (List.take_prefix 5 _) (by decide)⟩,
    ⟨List.take_prefix _ _, by decide, hcut _ (List.take_prefix 11 _) (by decide)⟩,
    ⟨by decide, by decide, hextended [9] (by decide) (by decide)⟩,
    ⟨hlen, hlong _ hlen⟩,
    List.prefix_refl _, hstream _ (List.prefix_refl _)⟩

end DigestFilter.Filter
