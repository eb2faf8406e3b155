import DigestFilter.Filter.Frame
import DigestFilter.Identifier.Frame

/-!
# What a sink holds

Writing piece by piece leaves a sink as writing all the pieces at once does, however much room it
has. So an identifier or a filter is written as if it were one row of bytes.
-/

namespace DigestFilter

namespace Sink

theorem put_of_room {k : Nat} {bs written : List UInt8} (h : bs.length ≤ k) :
    (Sink.mk written (some k)).put bs = (.ok (), ⟨written ++ bs, some (k - bs.length)⟩) := by
  simp [put, h, List.take_of_length_le h]

theorem put_of_no_room {k : Nat} {bs written : List UInt8} (h : k < bs.length) :
    (Sink.mk written (some k)).put bs =
      (.error (.device .full), ⟨written ++ bs.take k, some (k - bs.length)⟩) := by
  simp [put, Nat.not_le.2 h]

theorem putAll_eq_put (pieces : List (List UInt8)) (s : Sink) :
    s.putAll pieces = s.put pieces.flatten := by
  rcases s with ⟨written, _ | k⟩
  · exact putAll_unlimited pieces written
  induction pieces generalizing written k with
  | nil => rw [List.flatten_nil, put_of_room (Nat.zero_le _)]; simp [putAll]
  | cons bs rest ih =>
    rw [putAll, List.flatten_cons]
    by_cases hbs : bs.length ≤ k
    · simp only [put_of_room hbs, ih]
      by_cases hrest : rest.flatten.length ≤ k - bs.length
      · rw [put_of_room hrest, put_of_room (by simp only [List.length_append]; omega)]
        simp [Nat.sub_sub]
      · rw [put_of_no_room (by omega), put_of_no_room (by simp only [List.length_append]; omega)]
        simp [List.take_append, List.take_of_length_le hbs, Nat.sub_sub]
    -- A refused piece leaves no room, so what stands behind it makes no difference.
    · have hlt : k < bs.length := by omega
      simp only [put_of_no_room hlt]
      rw [put_of_no_room (by simp only [List.length_append]; omega)]
      simp only [List.take_append_of_le_length (Nat.le_of_lt hlt), List.length_append]
      rw [show k - bs.length = 0 by omega, show k - (bs.length + rest.flatten.length) = 0 by omega]

theorem put_of_fits {bs : List UInt8} {s : Sink} (h : ∀ k ∈ s.room, bs.length ≤ k) :
    s.put bs = (.ok (), ⟨s.written ++ bs, s.room.map (· - bs.length)⟩) := by
  rcases s with ⟨written, _ | k⟩
  · rfl
  · exact put_of_room (h k rfl)

end Sink

theorem Filter.write_eq_put (f : Filter) (withHeader : Bool) (s : Sink) :
    f.write withHeader s = s.put (f.encode withHeader) := by
  rw [write, Sink.putAll_eq_put, flatten_pieces]

theorem Identifier.write_eq_put {x : Identifier} (h : x.size < LittleEndian.limit 2) (s : Sink) :
    x.write s = s.put (Frame.encode 2 x.digest) := by
  simp only [write, pieces, if_neg (Nat.not_le.2 h), Sink.putAll_eq_put]
  simp [Frame.encode]

end DigestFilter
