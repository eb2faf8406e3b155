import DigestFilter.Proofs.Filter.Header

/-!
# Plain forms that are cut short

A plain form that ends too early is reported as truncated, with one exception. When the size of a
filter ends in the magic bytes and its bitmap starts with two zero bytes, there is one place to cut
where the bytes that are left are a headed form as well: the upper bytes of the size then count
what is behind the zeros. Such bytes are read as the headed form that they are.
-/

namespace DigestFilter.Filter

open LittleEndian (bytes value limit)

variable {f : Filter} {m : Nat}

/-! ## What is left of a plain form -/

theorem length_take_encode (hm : m < f.size + 8) : ((f.encode false).take m).length = m := by
  have hlen : (f.encode false).length = 8 + f.size := by simp [encode_plain, size]
  rw [List.length_take, hlen]
  omega

theorem length_take_bitmap (hm : m ≤ f.size) : (f.bitmap.take m).length = m := by
  rw [List.length_take]
  exact Nat.min_eq_left hm

theorem take_encode (h : 8 ≤ m) :
    (f.encode false).take m = bytes 8 f.size ++ f.bitmap.take (m - 8) := by
  have hfield : (bytes 8 f.size).take m = bytes 8 f.size :=
    List.take_of_length_le (by simpa using h)
  rw [encode_plain, List.take_append, hfield, LittleEndian.length_bytes]

theorem read_of_short_bitmap {n : Nat} {rest : List UInt8} (hn : n < 2 ^ 64)
    (hrest : rest.length < n) :
    read.runOn (bytes 8 n ++ rest) = (.error (.truncated n rest.length), []) := by
  have hvalue : value (bytes 8 n) = n := LittleEndian.value_bytes_of_lt hn
  have hshort := Frame.read_of_short_payload (LittleEndian.length_bytes 8 n)
    (hvalue.symm ▸ hrest)
  rw [hvalue] at hshort
  rw [read_runOn, hshort]
  rfl

/-! ## The one cut that leaves a headed form -/

/-- Cut after `m` bytes, the plain form of `f` is a magic header with a length that agrees. -/
structure Ambiguous (f : Filter) (m : Nat) : Prop where
  size_low : f.size % 65536 = 0xBC01
  zeros : f.bitmap.take 2 = [0, 0]
  cut : m = 10 + f.size / 65536

def headedPart (f : Filter) : List UInt8 := (f.bitmap.drop 2).take (f.size / 65536)

theorem length_headedPart (h : Ambiguous f m) : f.headedPart.length = f.size / 65536 := by
  have hlow := h.size_low
  have hlen : f.bitmap.length = f.size := rfl
  simp only [headedPart, List.length_take, List.length_drop, hlen]
  omega

theorem length_headedPart_lt (hsize : f.size < 2 ^ 48) (h : Ambiguous f m) :
    f.headedPart.length < limit 8 := by
  show f.headedPart.length < 2 ^ 64
  rw [length_headedPart h]
  omega

theorem take_of_ambiguous (hsize : f.size < 2 ^ 48) (h : Ambiguous f m) :
    (f.encode false).take m = magic ++ Frame.encode 8 f.headedPart := by
  have hlow : bytes 2 f.size = magic := bytes_eq_magic_iff.2 h.size_low
  have hfield : bytes 8 f.size = magic ++ bytes 6 (f.size / 65536) := by
    rw [← hlow]
    exact LittleEndian.bytes_add 2 6 f.size
  -- The two zero bytes of the bitmap are the top of the length field.
  have hupper : bytes 6 (f.size / 65536) ++ [0, 0] = bytes 8 (f.size / 65536) := by
    have hquot : f.size / 65536 / limit 6 = 0 := Nat.div_eq_of_lt (by
      show f.size / 65536 < 2 ^ 48
      omega)
    have hadd := LittleEndian.bytes_add 6 2 (f.size / 65536)
    rw [hquot] at hadd
    exact hadd.symm
  have hbitmap : f.bitmap.take (2 + f.size / 65536) = [0, 0] ++ f.headedPart := by
    rw [List.take_add, h.zeros, headedPart]
  have hcut : m - 8 = 2 + f.size / 65536 := by have := h.cut; omega
  calc (f.encode false).take m
      = bytes 8 f.size ++ f.bitmap.take (m - 8) := take_encode (by have := h.cut; omega)
    _ = magic ++ (bytes 6 (f.size / 65536) ++ [0, 0] ++ f.headedPart) := by
        rw [hcut, hbitmap, hfield]
        simp only [List.append_assoc]
    _ = magic ++ Frame.encode 8 f.headedPart := by
        rw [hupper, Frame.encode, Frame.header, length_headedPart h]

theorem ambiguous_of_isHeaded (hsize : f.size < 2 ^ 48) (hm : m < f.size + 8)
    (h : isHeaded ((f.encode false).take m) = true) : Ambiguous f m := by
  have hten : 10 ≤ m := by
    have := (isHeaded_iff.1 h).1
    rwa [length_take_encode hm] at this
  have hlen : (f.bitmap.take (m - 8)).length = m - 8 := length_take_bitmap (by omega)
  have htwolen : (f.bitmap.take 2).length = 2 := length_take_bitmap (by omega)
  rw [take_encode (by omega)] at h
  obtain ⟨hlow, hfield⟩ := of_isHeaded_plain (by omega) h
  have htwo : (f.bitmap.take (m - 8)).take 2 = f.bitmap.take 2 := by
    rw [List.take_take, Nat.min_eq_left (by omega)]
  rw [hlen, htwo] at hfield
  -- Any other first two bytes would ask for 2^48 bytes and more.
  have hzero : value (f.bitmap.take 2) = 0 := by omega
  have hzeros : f.bitmap.take 2 = [0, 0] := by
    have hback := LittleEndian.bytes_value (f.bitmap.take 2)
    rw [hzero, htwolen] at hback
    exact hback.symm
  exact ⟨hlow, hzeros, by omega⟩

theorem isHeaded_take_iff (hsize : f.size < 2 ^ 48) (hm : m < f.size + 8) :
    isHeaded ((f.encode false).take m) = true ↔ Ambiguous f m := by
  constructor
  · exact ambiguous_of_isHeaded hsize hm
  · intro h
    have hfield : (Frame.encode 8 f.headedPart).take 8 = bytes 8 f.headedPart.length :=
      List.take_left' (LittleEndian.length_bytes _ _)
    rw [take_of_ambiguous hsize h, isHeaded_magic_append, hfield, Frame.length_encode,
      LittleEndian.value_bytes_of_lt (length_headedPart_lt hsize h)]
    omega

/-! ## What is read -/

theorem decode_take_of_not_ambiguous (hsize : f.size < 2 ^ 48) (hm : m < f.size + 8)
    (h : ¬ Ambiguous f m) :
    decode ((f.encode false).take m) =
      .error (if m < 8 then .truncated 8 m else .truncated f.size (m - 8)) := by
  have hplain : isHeaded ((f.encode false).take m) = false := by
    rw [← Bool.not_eq_true, isHeaded_take_iff hsize hm]
    exact h
  rw [decode_of_plain hplain]
  split
  · next hshort =>
    have hfield : ((f.encode false).take m).length < 8 := by rwa [length_take_encode hm]
    rw [read_runOn, Frame.read_of_short_field hfield, length_take_encode hm]
    rfl
  · next hlong =>
    have hlen : (f.bitmap.take (m - 8)).length = m - 8 := length_take_bitmap (by omega)
    rw [take_encode (by omega), read_of_short_bitmap (by omega) (by omega), hlen]

theorem decode_take_of_ambiguous (hsize : f.size < 2 ^ 48) (hm : m < f.size + 8)
    (h : Ambiguous f m) : decode ((f.encode false).take m) = ofBytes f.headedPart := by
  have hdrop : ((f.encode false).take m).drop 2 = Frame.encode 8 f.headedPart ++ [] := by
    rw [take_of_ambiguous hsize h, List.append_nil]
    exact List.drop_left' (LittleEndian.length_bytes _ _)
  rw [decode_of_headed ((isHeaded_take_iff hsize hm).2 h), hdrop, read_runOn,
    Frame.read_encode (length_headedPart_lt hsize h)]
  rfl

/-- A plain form that is cut short is reported as truncated, unless the cut is the ambiguous one. -/
theorem cut_plain_form (f : Filter) (m : Nat) (hsize : f.size < 2 ^ 48) (hm : m < f.size + 8) :
    (¬ Ambiguous f m → decode ((f.encode false).take m) =
      .error (if m < 8 then .truncated 8 m else .truncated f.size (m - 8))) ∧
    (Ambiguous f m → 65536 ≤ f.size → ∃ g : Filter,
      g.bitmap = (f.bitmap.drop 2).take (f.size / 65536) ∧ g.frozen = false ∧
      (f.encode false).take m = g.encode true ∧
      decode ((f.encode false).take m) = .ok g) ∧
    (Ambiguous f m → f.size < 65536 →
      decode ((f.encode false).take m) = .error (.argument .emptyBitmap)) := by
  refine ⟨decode_take_of_not_ambiguous hsize hm, ?_, ?_⟩
  · intro h hlarge
    have hne : f.headedPart ≠ [] := by
      rw [← List.length_pos_iff, length_headedPart h]
      omega
    refine ⟨⟨f.headedPart, false, hne⟩, rfl, rfl, take_of_ambiguous hsize h, ?_⟩
    rw [decode_take_of_ambiguous hsize hm h]
    exact ofBytes_eq_ok_iff.2 ⟨rfl, rfl⟩
  · intro h hsmall
    have hnil : f.headedPart = [] := by
      rw [← List.length_eq_zero_iff, length_headedPart h]
      omega
    rw [decode_take_of_ambiguous hsize hm h, hnil]
    rfl

def wide : Filter where
  bitmap := [0, 0, 7] ++ List.replicate 113662 1
  bitmap_ne_nil := List.cons_ne_nil _ _

def narrow : Filter where
  bitmap := [0, 0] ++ List.replicate 48127 1
  bitmap_ne_nil := List.cons_ne_nil _ _

theorem size_wide : wide.size = 113665 := by
  rw [size, wide, List.length_append, List.length_replicate]
  rfl

theorem size_narrow : narrow.size = 48129 := by
  rw [size, narrow, List.length_append, List.length_replicate]
  rfl

theorem ambiguous_wide : Ambiguous wide 11 :=
  ⟨by rw [size_wide], rfl, by rw [size_wide]⟩

theorem ambiguous_narrow : Ambiguous narrow 10 :=
  ⟨by rw [size_narrow], rfl, by rw [size_narrow]⟩

theorem cut_plain_form_wide :
    (wide.size < 2 ^ 48 ∧ 11 < wide.size + 8 ∧ Ambiguous wide 11 ∧ 65536 ≤ wide.size ∧
      ∃ g : Filter, g.bitmap = (wide.bitmap.drop 2).take (wide.size / 65536) ∧
        g.frozen = false ∧ (wide.encode false).take 11 = g.encode true ∧
        decode ((wide.encode false).take 11) = .ok g) ∧
    (12 < wide.size + 8 ∧ ¬ Ambiguous wide 12 ∧
      decode ((wide.encode false).take 12) = .error (.truncated 113665 4)) ∧
    (narrow.size < 2 ^ 48 ∧ 10 < narrow.size + 8 ∧ Ambiguous narrow 10 ∧ narrow.size < 65536 ∧
      decode ((narrow.encode false).take 10) = .error (.argument .emptyBitmap)) := by
  have hwide := size_wide
  have hnarrow := size_narrow
  have hnot : ¬ Ambiguous wide 12 := by
    intro h
    have := h.cut
    omega
  have htruncated := (cut_plain_form wide 12 (by omega) (by omega)).1 hnot
  rw [hwide] at htruncated
  refine ⟨⟨by omega, by omega, ambiguous_wide, by omega, ?_⟩, ⟨by omega, hnot, htruncated⟩,
    by omega, by omega, ambiguous_narrow, by omega, ?_⟩
  · exact (cut_plain_form wide 11 (by omega) (by omega)).2.1 ambiguous_wide (by omega)
  · exact (cut_plain_form narrow 10 (by omega) (by omega)).2.2 ambiguous_narrow (by omega)

/-- Eleven bytes of a plain form can be a filter of one byte, and ten a header without a bitmap. -/
theorem cut_reads_as_headed :
    (wide.size < 2 ^ 48 ∧ 11 < wide.size + 8 ∧
      decode ((wide.encode false).take 11) = .ok ⟨[7], false, List.cons_ne_nil _ _⟩ ∧
      ¬ ∃ expected found,
        decode ((wide.encode false).take 11) = .error (.truncated expected found)) ∧
    (narrow.size < 2 ^ 48 ∧ 10 < narrow.size + 8 ∧
      decode ((narrow.encode false).take 10) = .error (.argument .emptyBitmap) ∧
      ¬ ∃ expected found,
        decode ((narrow.encode false).take 10) = .error (.truncated expected found)) := by
  have hwide := size_wide
  have hnarrow := size_narrow
  have hseven : decode ((wide.encode false).take 11) =
      .ok ⟨[7], false, List.cons_ne_nil _ _⟩ := by
    rw [decode_take_of_ambiguous (by omega) (by omega) ambiguous_wide, headedPart, hwide]
    rfl
  have hempty : decode ((narrow.encode false).take 10) = .error (.argument .emptyBitmap) := by
    rw [decode_take_of_ambiguous (by omega) (by omega) ambiguous_narrow, headedPart, hnarrow]
    rfl
  refine ⟨⟨by omega, by omega, hseven, ?_⟩, by omega, by omega, hempty, ?_⟩
  · rintro ⟨expected, found, h⟩
    rw [hseven] at h
    cases h
  · rintro ⟨expected, found, h⟩
    rw [hempty] at h
    cases h

end DigestFilter.Filter
