import DigestFilter.Filter.Frame
import DigestFilter.Identifier.Frame

/-!
# Frames read from bytes

What `Frame.read` makes of any bytes in memory: a frame that is cut short in its length field or
in its payload, or the payload and what follows it. `read_eq_ok_iff` says that reading accepts
exactly what `Frame.encode` writes.
-/

namespace DigestFilter

/-! ## Running decoders -/

namespace Decoder

variable {σ α β : Type}

theorem runOn_bind (d : Decoder σ α) (k : α → Decoder σ β) (s : σ) :
    (d >>= k).runOn s = match d.runOn s with
      | (.ok a, s') => (k a).runOn s'
      | (.error e, s') => (.error e, s') := by
  simp only [runOn, ExceptT.run_bind, StateT.run_bind]
  rcases d.run.run s with ⟨_ | _, _⟩ <;> rfl

theorem runOn_bind_lift (d : Decoder σ α) (check : α → Except Error β) (s : σ) :
    (d >>= fun a => liftM (check a)).runOn s = ((d.runOn s).1.bind check, (d.runOn s).2) := by
  rw [runOn_bind]
  rcases d.runOn s with ⟨_ | a, s'⟩
  · rfl
  · show (liftM (check a) : Decoder σ β).runOn s' = (check a, s')
    cases check a <;> rfl

end Decoder

namespace Frame

variable {width : Nat} {bs field payload rest : List UInt8}

theorem runOn_readExactly {σ : Type} [Source σ] (n : Nat) (s : σ) :
    (readExactly n).runOn s =
      (match (Source.take n s).1 with
        | .error fault => .error (.device fault)
        | .ok bs => if bs.length < n then .error (.truncated n bs.length) else .ok bs,
      (Source.take n s).2) := by
  show readExactly n s = _
  unfold readExactly
  rcases Source.take n s with ⟨_ | bs, s'⟩
  · rfl
  · by_cases hshort : bs.length < n <;> simp [hshort]

theorem readExactly_of_short {n : Nat} (h : bs.length < n) :
    (readExactly n).runOn bs = (.error (.truncated n bs.length), []) := by
  have htake : bs.take n = bs := List.take_of_length_le (Nat.le_of_lt h)
  have hdrop : bs.drop n = [] := List.drop_of_length_le (Nat.le_of_lt h)
  show readExactly n bs = _
  simp only [readExactly, Source.take_bytes, htake, hdrop, if_pos h]

theorem readExactly_append {n : Nat} (h : field.length = n) :
    (readExactly n).runOn (field ++ rest) = (.ok field, rest) := by
  have hn : ¬ field.length < n := by omega
  show readExactly n (field ++ rest) = _
  simp only [readExactly, Source.take_bytes, List.take_left' h, List.drop_left' h, if_neg hn]

/-! ## The four ways to end -/

theorem read_of_short_field (h : bs.length < width) :
    (read width).runOn bs = (.error (.truncated width bs.length), []) := by
  simp only [read, readLength, Decoder.runOn_bind, readExactly_of_short h]

theorem read_append (h : field.length = width) :
    (read width).runOn (field ++ rest) =
      (readExactly (LittleEndian.value field)).runOn rest := by
  simp only [read, readLength, Decoder.runOn_bind, readExactly_append h]
  rfl

theorem read_of_short_payload (h : field.length = width)
    (hrest : rest.length < LittleEndian.value field) :
    (read width).runOn (field ++ rest) =
      (.error (.truncated (LittleEndian.value field) rest.length), []) := by
  rw [read_append h, readExactly_of_short hrest]

theorem read_of_payload (h : field.length = width)
    (hpayload : payload.length = LittleEndian.value field) :
    (read width).runOn (field ++ (payload ++ rest)) = (.ok payload, rest) := by
  rw [read_append h, readExactly_append hpayload]

/-! ## Reading is the inverse of writing -/

@[simp] theorem length_encode (width : Nat) (payload : List UInt8) :
    (encode width payload).length = width + payload.length := by
  simp [encode, header]

theorem read_encode (h : payload.length < LittleEndian.limit width) :
    (read width).runOn (encode width payload ++ rest) = (.ok payload, rest) := by
  rw [encode, header, List.append_assoc]
  exact read_of_payload (LittleEndian.length_bytes _ _) (LittleEndian.value_bytes_of_lt h).symm

theorem eq_encode_of_read (h : (read width).runOn bs = (.ok payload, rest)) :
    payload.length < LittleEndian.limit width ∧ bs = encode width payload ++ rest := by
  by_cases hshort : bs.length < width
  · simp [read_of_short_field hshort] at h
  have hfield : (bs.take width).length = width := by simp; omega
  rw [← List.take_append_drop width bs, read_append hfield] at h
  by_cases hrest : (bs.drop width).length < LittleEndian.value (bs.take width)
  · simp [readExactly_of_short hrest] at h
  have hpayload : ((bs.drop width).take (LittleEndian.value (bs.take width))).length =
      LittleEndian.value (bs.take width) := by
    rw [List.length_take]
    omega
  rw [← List.take_append_drop (LittleEndian.value (bs.take width)) (bs.drop width),
    readExactly_append hpayload] at h
  simp only [Prod.mk.injEq, Except.ok.injEq] at h
  obtain ⟨rfl, rfl⟩ := h
  have hlt := LittleEndian.value_lt (bs.take width)
  rw [hfield] at hlt
  refine ⟨by omega, ?_⟩
  have hheader : header width ((bs.drop width).take (LittleEndian.value (bs.take width))) =
      bs.take width := by
    rw [header, hpayload]
    simpa only [hfield] using LittleEndian.bytes_value (bs.take width)
  rw [encode, hheader, List.append_assoc, List.take_append_drop, List.take_append_drop]

theorem read_eq_ok_iff :
    (read width).runOn bs = (.ok payload, rest) ↔
      payload.length < LittleEndian.limit width ∧ bs = encode width payload ++ rest := by
  constructor
  · exact eq_encode_of_read
  · rintro ⟨h, rfl⟩
    exact read_encode h

end Frame

/-! ## Identifiers and filters -/

theorem Identifier.read_runOn {σ : Type} [Source σ] (s : σ) :
    Identifier.read.runOn s =
      (((Frame.read 2).runOn s).1.bind ofBytes, ((Frame.read 2).runOn s).2) :=
  Decoder.runOn_bind_lift (Frame.read 2) ofBytes s

theorem Filter.read_runOn {σ : Type} [Source σ] (s : σ) :
    Filter.read.runOn s =
      (((Frame.read 8).runOn s).1.bind ofBytes, ((Frame.read 8).runOn s).2) :=
  Decoder.runOn_bind_lift (Frame.read 8) ofBytes s

end DigestFilter
