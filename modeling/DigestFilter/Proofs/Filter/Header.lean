import Mathlib.Algebra.Group.Nat.Defs
import DigestFilter.Proofs.Stream.Frame
import DigestFilter.Proofs.Stream.Sink

/-!
# Headed and plain filters

A plain form whose size ends in the two magic bytes looks like the start of a headed one: the
upper six bytes of its size and the first two bytes of its bitmap stand where the header has its
length field. For sizes below 2^63 that field never comes out right, so reading back what was
written never takes one form for the other.
-/

namespace DigestFilter.Filter

open LittleEndian (bytes value limit)

/-! ## What makes bytes headed -/

theorem bytes_eq_magic_iff {n : Nat} : bytes 2 n = magic ↔ n % 65536 = 0xBC01 := by
  constructor
  · intro h
    have hvalue := congrArg value h
    rw [magic, LittleEndian.value_bytes, LittleEndian.value_bytes] at hvalue
    exact hvalue
  · intro h
    have hmod : n % limit 2 = 0xBC01 := h
    rw [magic, ← LittleEndian.bytes_mod, hmod]

theorem isHeaded_iff {bs : List UInt8} :
    isHeaded bs = true ↔
      10 ≤ bs.length ∧ bs.take 2 = magic ∧ value ((bs.drop 2).take 8) = bs.length - 10 := by
  simp [isHeaded, and_assoc]

theorem isHeaded_magic_append {bs : List UInt8} :
    isHeaded (magic ++ bs) = true ↔ 8 ≤ bs.length ∧ value (bs.take 8) = bs.length - 8 := by
  have htake : (magic ++ bs).take 2 = magic := List.take_left' (LittleEndian.length_bytes _ _)
  have hdrop : (magic ++ bs).drop 2 = bs := List.drop_left' (LittleEndian.length_bytes _ _)
  have hlen : (magic ++ bs).length = bs.length + 2 := by
    simp [magic, Nat.add_comm]
  rw [isHeaded_iff, htake, hdrop, hlen]
  simp only [true_and]
  omega

/-- What a plain form is like that would be taken as headed. -/
theorem of_isHeaded_plain {n : Nat} {rest : List UInt8} (hn : n < 2 ^ 64)
    (h : isHeaded (bytes 8 n ++ rest) = true) :
    n % 65536 = 0xBC01 ∧ n / 65536 + 2 ^ 48 * value (rest.take 2) + 2 = rest.length := by
  have hsplit : bytes 8 n ++ rest = bytes 2 n ++ (bytes 6 (n / 65536) ++ rest) := by
    rw [← List.append_assoc]
    exact congrArg (· ++ rest) (LittleEndian.bytes_add 2 6 n)
  have hlen : (bytes 8 n ++ rest).length = 8 + rest.length := by simp
  have hfield : (bytes 6 (n / 65536) ++ rest).take 8 = bytes 6 (n / 65536) ++ rest.take 2 := by
    rw [List.take_append, List.take_of_length_le (by simp), LittleEndian.length_bytes]
  have hlimit : limit 6 = 2 ^ 48 := rfl
  obtain ⟨hten, hmagic, hvalue⟩ := isHeaded_iff.1 h
  rw [hsplit, List.take_left' (LittleEndian.length_bytes _ _)] at hmagic
  rw [hlen, hsplit, List.drop_left' (LittleEndian.length_bytes _ _), hfield,
    LittleEndian.value_append, LittleEndian.length_bytes,
    LittleEndian.value_bytes_of_lt (by omega), hlimit] at hvalue
  exact ⟨bytes_eq_magic_iff.1 hmagic, by omega⟩

/-! ## Plain forms -/

variable {f : Filter}

theorem encode_plain (f : Filter) : f.encode false = bytes 8 f.size ++ f.bitmap := rfl

/-- Modulo 65535 the length field would be 0xBBFF, which no size below 2^63 has in its place. -/
theorem not_isHeaded_encode (h : f.size < 2 ^ 63) : isHeaded (f.encode false) = false := by
  rw [Bool.eq_false_iff, encode_plain]
  intro hheaded
  obtain ⟨hlow, hfield⟩ := of_isHeaded_plain (by omega) hheaded
  have hsize : f.bitmap.length = f.size := rfl
  omega

theorem not_isHeaded_encode_append {rest : List UInt8} (h : f.size + rest.length < 2 ^ 48) :
    isHeaded (f.encode false ++ rest) = false := by
  rw [Bool.eq_false_iff, encode_plain, List.append_assoc]
  intro hheaded
  obtain ⟨hlow, hfield⟩ := of_isHeaded_plain (by omega) hheaded
  rw [List.length_append] at hfield
  have hsize : f.bitmap.length = f.size := rfl
  omega

/-! ## Reading back -/

theorem ofBytes_bitmap (f : Filter) : ofBytes f.bitmap = .ok f.thawed :=
  ofBytes_eq_ok_iff.2 ⟨rfl, rfl⟩

theorem read_encode_append (h : f.size < 2 ^ 64) (rest : List UInt8) :
    read.runOn (f.encode false ++ rest) = (.ok f.thawed, rest) := by
  have hread : (Frame.read 8).runOn (Frame.encode 8 f.bitmap ++ rest) = (.ok f.bitmap, rest) :=
    Frame.read_encode h
  rw [read_runOn, encode, if_neg Bool.false_ne_true, List.nil_append, hread]
  simp only [Except.bind, ofBytes_bitmap]

theorem decode_of_plain {bs : List UInt8} (h : isHeaded bs = false) :
    decode bs = (read.runOn bs).1 := by
  simp [decode, h]

theorem decode_of_headed {bs : List UInt8} (h : isHeaded bs = true) :
    decode bs = (read.runOn (bs.drop 2)).1 := by
  simp [decode, h]

theorem isHeaded_encode (h : f.size < 2 ^ 64) : isHeaded (f.encode true) = true := by
  have htake : (f.encode false).take 8 = bytes 8 f.size :=
    List.take_left' (LittleEndian.length_bytes _ _)
  have hlen : (f.encode false).length = f.size + 8 := by simp [encode, size, Nat.add_comm]
  show isHeaded (magic ++ f.encode false) = true
  rw [isHeaded_magic_append, htake, hlen, LittleEndian.value_bytes_of_lt h]
  omega

theorem decode_encode_headed (h : f.size < 2 ^ 64) : decode (f.encode true) = .ok f.thawed := by
  have hdrop : (f.encode true).drop 2 = f.encode false ++ [] := by
    rw [List.append_nil]
    exact List.drop_left' (LittleEndian.length_bytes _ _)
  rw [decode_of_headed (isHeaded_encode h), hdrop, read_encode_append h]

theorem decode_encode_append {rest : List UInt8} (h : f.size < 2 ^ 64)
    (hplain : isHeaded (f.encode false ++ rest) = false) :
    decode (f.encode false ++ rest) = .ok f.thawed := by
  rw [decode_of_plain hplain, read_encode_append h]

theorem decode_encode (h : f.size < 2 ^ 63) (withHeader : Bool) :
    decode (f.encode withHeader) = .ok f.thawed := by
  cases withHeader
  · have hplain := not_isHeaded_encode h
    rw [← List.append_nil (f.encode false)] at hplain ⊢
    exact decode_encode_append (by omega) hplain
  · exact decode_encode_headed (by omega)

/-- A written filter reads back as it was, thawed, and a plain form is never taken as headed. -/
theorem header_never_misjudged (f : Filter) :
    (f.size < 2 ^ 63 → ∀ withHeader,
      isHeaded (f.encode withHeader) = withHeader ∧
      decode (f.encode withHeader) = .ok f.thawed) ∧
    (∀ rest, f.size + rest.length < 2 ^ 48 →
      isHeaded (f.encode false ++ rest) = false ∧
      decode (f.encode false ++ rest) = .ok f.thawed) ∧
    (∀ withHeader (sink : Sink), (∀ k ∈ sink.room, (f.encode withHeader).length ≤ k) →
      f.write withHeader sink =
        (.ok (), ⟨sink.written ++ f.encode withHeader,
          sink.room.map (· - (f.encode withHeader).length)⟩)) := by
  refine ⟨?_, ?_, ?_⟩
  · intro h withHeader
    refine ⟨?_, decode_encode h withHeader⟩
    cases withHeader
    · exact not_isHeaded_encode h
    · exact isHeaded_encode (by omega)
  · intro rest h
    have hplain := not_isHeaded_encode_append h
    exact ⟨hplain, decode_encode_append (by omega) hplain⟩
  · intro withHeader sink h
    rw [write_eq_put, Sink.put_of_fits h]

/-- A frozen filter whose plain form starts with the magic bytes. -/
def magicSized : Filter where
  bitmap := List.replicate 0xBC01 0xFF
  frozen := true
  bitmap_ne_nil := mt (List.replicate_eq_nil_iff 0xFF).1 (by decide)

theorem header_never_misjudged_magicSized :
    (magicSized.size < 2 ^ 63 ∧ isHeaded (magicSized.encode false) = false ∧
      decode (magicSized.encode false) = .ok magicSized.thawed) ∧
    (magicSized.size + [1, 2, 3].length < 2 ^ 48 ∧
      decode (magicSized.encode false ++ [1, 2, 3]) = .ok magicSized.thawed) ∧
    (magicSized.encode true).length ≤ 50000 ∧
      magicSized.write true ⟨[], some 50000⟩ = (.ok (), ⟨magicSized.encode true, some 1861⟩) := by
  have hsize : magicSized.size = 0xBC01 := List.length_replicate
  have hlen : (magicSized.encode true).length = 48139 := by
    show (magic ++ Frame.encode 8 magicSized.bitmap).length = 48139
    rw [List.length_append, Frame.length_encode, show magicSized.bitmap.length = 0xBC01 from hsize]
    rfl
  have hroom : ∀ k ∈ some 50000, (magicSized.encode true).length ≤ k := by
    intro k hk
    have hk : 50000 = k := Option.some.inj hk
    omega
  obtain ⟨hback, htrailing, hwrite⟩ := header_never_misjudged magicSized
  have hplain := hback (by omega) false
  have hrest := htrailing [1, 2, 3] (by rw [hsize]; decide)
  have hsink : magicSized.write true ⟨[], some 50000⟩ =
      (.ok (), ⟨[] ++ magicSized.encode true, some (50000 - (magicSized.encode true).length)⟩) :=
    hwrite true ⟨[], some 50000⟩ hroom
  rw [hlen, List.nil_append] at hsink
  exact ⟨⟨by omega, hplain⟩, ⟨by rw [hsize]; decide, hrest.2⟩, by omega, hsink⟩

end DigestFilter.Filter
