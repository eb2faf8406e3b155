import DigestFilter.Stream.Channel

/-!
# What a reader has to give

A reader hands over its bytes in portions of its own choice and may be interrupted between them.
`Reader.Delivers` says which bytes they are and what stands behind the last of them: the end or a
fault. Taking from a reader gives what that supply gives, whatever the portions are. A meter counts
the bytes that the calls hand over.
-/

namespace DigestFilter

structure Supply where
  bytes : List UInt8
  /-- What the device reports behind the last byte; `none` is a plain end. -/
  fault : Option DeviceFault := none

/-- Calls take bytes from the supply, or are interrupted, or meet what stands behind it. -/
structure Reader.Delivers {ρ : Type} [Reader ρ] (supply : ρ → Supply) : Prop where
  of_interrupted {want : Nat} {r r' : ρ} : 0 < want →
    Reader.call want r = (.interrupted, r') → supply r' = supply r
  of_failed {want : Nat} {r r' : ρ} {fault : DeviceFault} : 0 < want →
    Reader.call want r = (.failed fault, r') → supply r = ⟨[], some fault⟩
  of_end {want : Nat} {r r' : ρ} : 0 < want →
    Reader.call want r = (.bytes [], r') → supply r = ⟨[], none⟩ ∧ supply r' = ⟨[], none⟩
  of_bytes {want : Nat} {r r' : ρ} {b : UInt8} {bs : List UInt8} : 0 < want →
    Reader.call want r = (.bytes (b :: bs), r') → bs.length < want ∧
      supply r = ⟨b :: bs ++ (supply r').bytes, (supply r').fault⟩

/-! ## Counting what is handed over -/

@[simp] def Delivery.size : Delivery → Nat
  | .bytes bs => bs.length
  | .interrupted | .failed _ => 0

/-- A reader, and how many bytes its calls have handed over. -/
structure Metered (ρ : Type) where
  reader : ρ
  position : Nat := 0

namespace Metered

variable {ρ : Type} [Reader ρ]

def call (want : Nat) (m : Metered ρ) : Delivery × Metered ρ :=
  let (delivery, reader) := Reader.call want m.reader
  (delivery, ⟨reader, m.position + delivery.size⟩)

theorem of_call_eq {want : Nat} {m m' : Metered ρ} {delivery : Delivery}
    (h : m.call want = (delivery, m')) :
    Reader.call want m.reader = (delivery, m'.reader) ∧
      m'.position = m.position + delivery.size := by
  unfold call at h
  rcases hcall : Reader.call want m.reader with ⟨delivery', reader⟩
  rw [hcall] at h
  obtain ⟨rfl, rfl⟩ := Prod.mk.inj h
  exact ⟨rfl, rfl⟩

instance : Reader (Metered ρ) where
  call := call
  patience want m := Reader.patience want m.reader
  patience_lt h := Reader.patience_lt (of_call_eq h).1

theorem takeOnto_eq (got : List UInt8) (want : Nat) (m : Metered ρ) :
    (Reader.takeOnto got want m).1 = (Reader.takeOnto got want m.reader).1 ∧
      (Reader.takeOnto got want m).2.reader = (Reader.takeOnto got want m.reader).2 := by
  induction got, want, m using Reader.takeOnto.induct with
  | case1 got m => simp
  | case2 got want m hwant m' hcall ih =>
    rwa [Reader.takeOnto_of_interrupted hwant hcall,
      Reader.takeOnto_of_interrupted hwant (of_call_eq hcall).1]
  | case3 got want m hwant fault m' hcall =>
    rw [Reader.takeOnto_of_failed hwant hcall,
      Reader.takeOnto_of_failed hwant (of_call_eq hcall).1]
    exact ⟨rfl, rfl⟩
  | case4 got want m hwant m' hcall =>
    rw [Reader.takeOnto_of_end hwant hcall, Reader.takeOnto_of_end hwant (of_call_eq hcall).1]
    exact ⟨rfl, rfl⟩
  | case5 got want m hwant b bs m' hcall ih =>
    rwa [Reader.takeOnto_of_bytes hwant hcall,
      Reader.takeOnto_of_bytes hwant (of_call_eq hcall).1]

end Metered

/-! ## Taking -/

namespace Reader.Delivers

variable {ρ : Type} [Reader ρ] {supply : ρ → Supply} {bytes got : List UInt8} {want : Nat}
  {m : Metered ρ}

theorem takeOnto_of_enough (h : Delivers supply) {fault? : Option DeviceFault}
    (hm : supply m.reader = ⟨bytes, fault?⟩) (henough : want ≤ bytes.length ∨ fault? = none) :
    ∃ m', takeOnto got want m = (.ok (got.reverse ++ bytes.take want), m') ∧
      supply m'.reader = ⟨bytes.drop want, fault?⟩ ∧
      m'.position = m.position + min want bytes.length := by
  induction got, want, m using takeOnto.induct generalizing bytes with
  | case1 got m => exact ⟨m, by simp, by simpa using hm, by simp⟩
  | case2 got want m hwant m' hcall ih =>
    obtain ⟨hread, hpos⟩ := Metered.of_call_eq hcall
    obtain ⟨last, htake, hsupply, hlast⟩ :=
      ih ((h.of_interrupted (by omega) hread).trans hm) henough
    exact ⟨last, by rw [takeOnto_of_interrupted hwant hcall, htake], hsupply, by simp_all⟩
  | case3 got want m hwant fault m' hcall =>
    -- The fault is met only with nothing left before it, so nothing could be wanted.
    cases (h.of_failed (by omega) (Metered.of_call_eq hcall).1).symm.trans hm
    simp only [List.length_nil, reduceCtorEq, or_false] at henough
    omega
  | case4 got want m hwant m' hcall =>
    obtain ⟨hread, hpos⟩ := Metered.of_call_eq hcall
    obtain ⟨hempty, hafter⟩ := h.of_end (by omega) hread
    cases hempty.symm.trans hm
    exact ⟨m', by simp [takeOnto_of_end hwant hcall], by simpa using hafter, by simpa using hpos⟩
  | case5 got want m hwant b bs m' hcall ih =>
    obtain ⟨hread, hpos⟩ := Metered.of_call_eq hcall
    obtain ⟨hfew, hportion⟩ := h.of_bytes (by omega) hread
    rcases hsupply : supply m'.reader with ⟨left, fault'?⟩
    rw [hsupply] at hportion
    cases hportion.symm.trans hm
    obtain ⟨k, rfl⟩ : ∃ k, want = (b :: bs).length + k := ⟨want - (b :: bs).length, by simp; omega⟩
    have hk : (b :: bs).length + k - (bs.length + 1) = k := by simp
    rw [hk] at ih
    obtain ⟨last, htake, hleft, hlast⟩ :=
      ih hsupply (henough.imp_left (by simp only [List.length_append]; omega))
    refine ⟨last, ?_, ?_, ?_⟩
    · rw [takeOnto_of_bytes hwant hcall, hk, htake, List.take_length_add_append]
      simp
    · rw [hleft, List.drop_length_add_append]
    · simp only [hlast, hpos, Delivery.size, List.length_append, List.length_cons]
      omega

theorem takeOnto_of_fault (h : Delivers supply) {fault : DeviceFault}
    (hm : supply m.reader = ⟨bytes, some fault⟩) (hfew : bytes.length < want) :
    ∃ m', takeOnto got want m = (.error fault, m') ∧
      m'.position = m.position + bytes.length := by
  induction got, want, m using takeOnto.induct generalizing bytes with
  | case1 got m => omega
  | case2 got want m hwant m' hcall ih =>
    obtain ⟨hread, hpos⟩ := Metered.of_call_eq hcall
    obtain ⟨last, htake, hlast⟩ := ih ((h.of_interrupted (by omega) hread).trans hm) hfew
    exact ⟨last, by rw [takeOnto_of_interrupted hwant hcall, htake], by simp_all⟩
  | case3 got want m hwant fault' m' hcall =>
    obtain ⟨hread, hpos⟩ := Metered.of_call_eq hcall
    cases (h.of_failed (by omega) hread).symm.trans hm
    exact ⟨m', takeOnto_of_failed hwant hcall, by simpa using hpos⟩
  | case4 got want m hwant m' hcall =>
    cases (h.of_end (by omega) (Metered.of_call_eq hcall).1).1.symm.trans hm
  | case5 got want m hwant b bs m' hcall ih =>
    obtain ⟨hread, hpos⟩ := Metered.of_call_eq hcall
    obtain ⟨hportion, hsupply⟩ := h.of_bytes (by omega) hread
    rcases hleft : supply m'.reader with ⟨left, fault'?⟩
    rw [hleft] at hsupply
    cases hsupply.symm.trans hm
    obtain ⟨last, htake, hlast⟩ := ih hleft (by simp at hfew; omega)
    refine ⟨last, by rw [takeOnto_of_bytes hwant hcall, htake], ?_⟩
    simp only [hlast, hpos, Delivery.size, List.length_append, List.length_cons]
    omega

theorem take_of_enough (h : Delivers supply) (want : Nat) {fault? : Option DeviceFault}
    (hm : supply m.reader = ⟨bytes, fault?⟩) (henough : want ≤ bytes.length ∨ fault? = none) :
    ∃ m', Source.take want m = (.ok (bytes.take want), m') ∧
      supply m'.reader = ⟨bytes.drop want, fault?⟩ ∧
      m'.position = m.position + min want bytes.length :=
  h.takeOnto_of_enough hm henough

theorem take_of_fault (h : Delivers supply) {fault : DeviceFault}
    (hm : supply m.reader = ⟨bytes, some fault⟩) (hfew : bytes.length < want) :
    ∃ m', Source.take want m = (.error fault, m') ∧
      m'.position = m.position + bytes.length :=
  h.takeOnto_of_fault hm hfew

end Reader.Delivers

/-! ## Channels -/

namespace Channel

variable {want : Nat} {c c' : Channel} {delivery : Delivery}

def supply (c : Channel) : Supply :=
  match c.allowance with
  | none => ⟨c.rest, none⟩
  | some k =>
    if k ≤ c.rest.length then ⟨c.rest.take k, some .connectionReset⟩ else ⟨c.rest, none⟩

theorem of_call_eq (h : c.call want = (delivery, c')) :
    (delivery = .interrupted ∧ c' = { c with interrupted := c.interrupted + 1 }) ∨
    (delivery = .failed .connectionReset ∧ c.allowance = some 0) ∨
    (c.allowance ≠ some 0 ∧ delivery = .bytes (c.rest.take (c.limit want)) ∧
      c' = c.advance (c.rest.take (c.limit want)).length) := by
  unfold call at h
  split at h
  · obtain ⟨rfl, rfl⟩ := Prod.mk.inj h
    exact .inl ⟨rfl, rfl⟩
  split at h
  · next hallowance =>
    obtain ⟨rfl, -⟩ := Prod.mk.inj h
    exact .inr (.inl ⟨rfl, hallowance⟩)
  · next hallowance =>
    obtain ⟨rfl, rfl⟩ := Prod.mk.inj h
    exact .inr (.inr ⟨hallowance, rfl, rfl⟩)

theorem limit_le (want : Nat) (c : Channel) : c.limit want ≤ want := by
  rcases h : c.allowance with _ | k <;> simp only [limit, h] <;> omega

theorem limit_le_allowance (want : Nat) {k : Nat} (h : c.allowance = some k) :
    c.limit want ≤ k := by
  simp only [limit, h]
  omega

theorem limit_pos (hwant : 0 < want) (h : c.allowance ≠ some 0) : 0 < c.limit want := by
  rcases hk : c.allowance with _ | k
  · simp only [limit, hk]
    omega
  · have hpos : k ≠ 0 := fun h0 => h (h0 ▸ hk)
    simp only [limit, hk]
    omega

theorem supply_of_advance {bs : List UInt8} (hbs : bs <+: c.rest)
    (hallowance : ∀ k, c.allowance = some k → bs.length ≤ k) :
    c.supply =
      ⟨bs ++ (c.advance bs.length).supply.bytes, (c.advance bs.length).supply.fault⟩ := by
  rcases c with ⟨rest, pace, allowance, turn, interrupted⟩
  obtain ⟨left, rfl⟩ := hbs
  rcases allowance with _ | k
  · simp [supply, advance]
  · obtain ⟨j, rfl⟩ : ∃ j, k = bs.length + j := Nat.exists_eq_add_of_le (hallowance k rfl)
    simp only [supply, advance, Option.map_some, List.drop_left, Nat.add_sub_cancel_left,
      List.length_append, Nat.add_le_add_iff_left, List.take_length_add_append]
    split <;> rfl

theorem supply_of_rest_eq_nil (hrest : c.rest = []) (hallowance : c.allowance ≠ some 0) :
    c.supply = ⟨[], none⟩ := by
  rcases c with ⟨rest, pace, _ | k, turn, interrupted⟩
  · simpa [supply] using hrest
  · simp_all [supply]

theorem delivers : Reader.Delivers supply where
  of_interrupted hwant hcall := by
    obtain ⟨-, rfl⟩ | ⟨h, -⟩ | ⟨-, h, -⟩ := of_call_eq hcall
    · rfl
    · cases h
    · cases h
  of_failed hwant hcall := by
    obtain ⟨h, -⟩ | ⟨h, hallowance⟩ | ⟨-, h, -⟩ := of_call_eq hcall
    · cases h
    · cases h
      simp [supply, hallowance]
    · cases h
  of_end {want c c'} hwant hcall := by
    obtain ⟨h, -⟩ | ⟨h, -⟩ | ⟨hallowance, h, rfl⟩ := of_call_eq hcall
    · cases h
    · cases h
    · have hnil : c.rest.take (c.limit want) = [] := (Delivery.bytes.inj h).symm
      have hrest : c.rest = [] := by
        have hpos := limit_pos hwant hallowance
        simpa [List.take_eq_nil_iff, Nat.ne_of_gt hpos] using hnil
      rw [hnil]
      refine ⟨supply_of_rest_eq_nil hrest hallowance, supply_of_rest_eq_nil ?_ ?_⟩
      · simp [advance, hrest]
      · simpa [advance] using hallowance
  of_bytes {want c c' b bs} hwant hcall := by
    obtain ⟨h, -⟩ | ⟨h, -⟩ | ⟨hallowance, h, rfl⟩ := of_call_eq hcall
    · cases h
    · cases h
    · have htake : b :: bs = c.rest.take (c.limit want) := Delivery.bytes.inj h
      have hlen : (b :: bs).length ≤ c.limit want := htake ▸ List.length_take_le ..
      refine ⟨Nat.lt_of_lt_of_le hlen (limit_le want c), ?_⟩
      rw [← htake]
      exact supply_of_advance (htake ▸ List.take_prefix ..) fun k hk =>
        Nat.le_trans hlen (limit_le_allowance want hk)

end Channel

end DigestFilter
