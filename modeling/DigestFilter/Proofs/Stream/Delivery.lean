import DigestFilter.Proofs.Stream.Item
import DigestFilter.Proofs.Stream.Supply

/-!
# Decoding does not depend on the delivery

Two sources that answer every request alike cannot be told apart by decoding. A reader that ends
plainly is in step with its bytes in memory. A reader that fails is in step with them up to the
fault: the item that asks for more gets the fault instead of an answer.
-/

namespace DigestFilter

/-! ## Sources in step -/

section InStep

variable {σ τ α β : Type} {R : σ → τ → Prop}

/-- From related states both decoders answer alike and leave related states. -/
def Decoder.InStep (R : σ → τ → Prop) (d : Decoder σ α) (e : Decoder τ α) : Prop :=
  ∀ s t, R s t → (d.runOn s).1 = (e.runOn t).1 ∧ R (d.runOn s).2 (e.runOn t).2

theorem Decoder.InStep.bind {d : Decoder σ α} {e : Decoder τ α} {k : α → Decoder σ β}
    {l : α → Decoder τ β} (hd : InStep R d e) (hk : ∀ a, InStep R (k a) (l a)) :
    InStep R (d >>= k) (e >>= l) := by
  intro s t hst
  obtain ⟨hanswer, hafter⟩ := hd s t hst
  rw [runOn_bind, runOn_bind]
  rcases hs : d.runOn s with ⟨a, s'⟩
  rcases ht : e.runOn t with ⟨a', t'⟩
  rw [hs, ht] at hanswer hafter
  cases (hanswer : a = a')
  cases a with
  | error fault => exact ⟨rfl, hafter⟩
  | ok a => exact hk a s' t' hafter

theorem Decoder.inStep_pure (a : α) : InStep R (pure a) (pure a) :=
  fun _ _ h => ⟨rfl, h⟩

variable [Source σ] [Source τ]

def Source.InStep (R : σ → τ → Prop) : Prop :=
  ∀ n s t, R s t →
    (Source.take n s).1 = (Source.take n t).1 ∧ R (Source.take n s).2 (Source.take n t).2

theorem Frame.inStep_readExactly (h : Source.InStep R) (n : Nat) :
    Decoder.InStep R (readExactly n) (readExactly n) := by
  intro s t hst
  obtain ⟨hanswer, hafter⟩ := h n s t hst
  rw [runOn_readExactly, runOn_readExactly, hanswer]
  exact ⟨rfl, hafter⟩

theorem Frame.inStep_read (h : Source.InStep R) (width : Nat) :
    Decoder.InStep R (read width) (read width) := by
  have hlength : Decoder.InStep R (readLength width) (readLength width) :=
    (inStep_readExactly h width).bind fun _ => Decoder.inStep_pure _
  exact hlength.bind (inStep_readExactly h)

theorem Item.Kind.inStep_read (h : Source.InStep R) (kind : Kind) :
    Decoder.InStep R kind.read kind.read := by
  intro s t hst
  obtain ⟨hanswer, hafter⟩ := Frame.inStep_read h kind.width s t hst
  rw [read_runOn, read_runOn, hanswer]
  exact ⟨rfl, hafter⟩

end InStep

/-! ## Decoding only moves forward -/

section Forward

variable {α β : Type}

def Decoder.Forward (d : Decoder (List UInt8) α) : Prop :=
  ∀ bs, (d.runOn bs).2.length ≤ bs.length

theorem Decoder.forward_pure (a : α) : Forward (pure a) := fun _ => Nat.le_refl _

theorem Decoder.Forward.bind {d : Decoder (List UInt8) α} {k : α → Decoder (List UInt8) β}
    (hd : d.Forward) (hk : ∀ a, (k a).Forward) : (d >>= k).Forward := by
  intro bs
  have hfirst := hd bs
  rw [runOn_bind]
  rcases h : d.runOn bs with ⟨_ | a, bs'⟩
  · simpa only [h] using hfirst
  · rw [h] at hfirst
    exact Nat.le_trans (hk a bs') hfirst

theorem Frame.forward_readExactly (n : Nat) : Decoder.Forward (readExactly n) := by
  intro bs
  rw [runOn_readExactly, Source.take_bytes, List.length_drop]
  omega

theorem Frame.forward_read (width : Nat) : Decoder.Forward (read width) := by
  have hlength : Decoder.Forward (readLength width) :=
    (forward_readExactly width).bind fun _ => Decoder.forward_pure _
  exact hlength.bind forward_readExactly

theorem Item.Kind.forward_read (kind : Kind) : Decoder.Forward kind.read := by
  intro bs
  rw [read_runOn]
  exact Frame.forward_read kind.width bs

end Forward

/-! ## Transcripts -/

namespace Item

/-- What came of one item, and the position in the stream after it. -/
abbrev Entry := Except Error Item × Nat

/-- Reads items of these kinds in order, going on after errors. -/
def transcript {σ : Type} [Source σ] (position : σ → Nat) : List Kind → σ → List Entry
  | [], _ => []
  | kind :: kinds, s =>
    let (answer, s') := kind.read.runOn s
    (answer, position s') :: transcript position kinds s'

def transcriptFrom {ρ : Type} [Reader ρ] (kinds : List Kind) (r : ρ) : List Entry :=
  transcript Metered.position kinds ⟨r, 0⟩

def transcriptInMemory (kinds : List Kind) (bs : List UInt8) : List Entry :=
  transcript (fun left => bs.length - left.length) kinds bs

variable {σ τ : Type} [Source σ] [Source τ] {R : σ → τ → Prop}

theorem transcript_cons {σ : Type} [Source σ] (position : σ → Nat) (kind : Kind)
    (kinds : List Kind) (s : σ) :
    transcript position (kind :: kinds) s =
      ((kind.read.runOn s).1, position (kind.read.runOn s).2) ::
        transcript position kinds (kind.read.runOn s).2 := rfl

theorem transcript_of_inStep (h : Source.InStep R) {position : σ → Nat} {position' : τ → Nat}
    (hpos : ∀ s t, R s t → position s = position' t) (kinds : List Kind) {s : σ} {t : τ}
    (hst : R s t) : transcript position kinds s = transcript position' kinds t := by
  induction kinds generalizing s t with
  | nil => rfl
  | cons kind kinds ih =>
    obtain ⟨hanswer, hafter⟩ := kind.inStep_read h s t hst
    simp only [transcript, hanswer, hpos _ _ hafter, ih hafter]

theorem readAll_of_inStep (h : Source.InStep R) (kinds : List Kind) {s : σ} {t : τ}
    (hst : R s t) : (readAll kinds s).1 = (readAll kinds t).1 := by
  induction kinds generalizing s t with
  | nil => rfl
  | cons kind kinds ih =>
    obtain ⟨hanswer, hafter⟩ := kind.inStep_read h s t hst
    simp only [readAll, hanswer, ih hafter]

theorem readAll_eq_transcript (position : σ → Nat) (kinds : List Kind) (s : σ) :
    (readAll kinds s).1 = (transcript position kinds s).map Prod.fst := by
  induction kinds generalizing s with
  | nil => rfl
  | cons kind kinds ih => simp only [readAll, transcript, List.map_cons, ih]

end Item

/-! ## Readers that end plainly -/

section Plain

variable {ρ : Type} [Reader ρ] {supply : ρ → Supply}

theorem Metered.inStep_reader :
    Source.InStep fun (m : Metered ρ) (r : ρ) => m.reader = r := by
  rintro want m _ rfl
  exact Metered.takeOnto_eq [] want m

theorem Metered.inStep_memory (h : Reader.Delivers supply) (total : Nat) :
    Source.InStep fun (m : Metered ρ) (bs : List UInt8) =>
      supply m.reader = ⟨bs, none⟩ ∧ m.position + bs.length = total := by
  rintro want m bs ⟨hsupply, htotal⟩
  obtain ⟨m', htake, hsupply', hpos⟩ := h.take_of_enough want hsupply (.inr rfl)
  rw [htake, Source.take_bytes]
  refine ⟨rfl, hsupply', ?_⟩
  rw [hpos, List.length_drop]
  omega

end Plain

/-! ## Readers that fail -/

/-- The device fails at `position`; the bytes `lost` are never handed over. -/
structure Outage where
  fault : DeviceFault
  position : Nat
  lost : List UInt8
  lost_ne_nil : lost ≠ []

namespace Outage

variable {ρ α β : Type} {supply : ρ → Supply} {o : Outage}

/-- The reader has not failed yet: it stands where decoding from memory stands. -/
def Ahead (o : Outage) (supply : ρ → Supply) (m : Metered ρ) (bs : List UInt8) : Prop :=
  ∃ front, supply m.reader = ⟨front, some o.fault⟩ ∧ bs = front ++ o.lost ∧
    m.position + front.length = o.position

/-- What one decoder makes of the reader, next to what it makes of the bytes in memory. -/
inductive Outcome (o : Outage) (supply : ρ → Supply) :
    Except Error α × Metered ρ → Except Error α × List UInt8 → Prop
  | same {answer : Except Error α} {m : Metered ρ} {bs : List UInt8}
      (whole : ∀ wanted found, answer ≠ .error (.truncated wanted found))
      (ahead : o.Ahead supply m bs) : Outcome o supply (answer, m) (answer, bs)
  | failed {answer : Except Error α} {m : Metered ρ} {bs : List UInt8}
      (stopped : m.position = o.position) (beyond : bs.length < o.lost.length) :
      Outcome o supply (.error (.device o.fault), m) (answer, bs)

theorem Outcome.bind {d : Decoder (Metered ρ) α} {e : Decoder (List UInt8) α}
    {k : α → Decoder (Metered ρ) β} {l : α → Decoder (List UInt8) β} {m : Metered ρ}
    {bs : List UInt8} (hd : o.Outcome supply (d.runOn m) (e.runOn bs))
    (hk : ∀ a m bs, o.Ahead supply m bs → o.Outcome supply ((k a).runOn m) ((l a).runOn bs))
    (hl : ∀ a, (l a).Forward) :
    o.Outcome supply ((d >>= k).runOn m) ((e >>= l).runOn bs) := by
  rw [Decoder.runOn_bind, Decoder.runOn_bind]
  rcases hm : d.runOn m with ⟨answer, m'⟩
  rcases hbs : e.runOn bs with ⟨answer', bs'⟩
  rw [hm, hbs] at hd
  cases hd with
  | same hwhole hahead =>
    cases answer with
    | error fault => exact .same (by simpa using hwhole) hahead
    | ok a => exact hk a m' bs' hahead
  | failed hstopped hbeyond =>
    cases answer' with
    | error fault => exact .failed hstopped hbeyond
    | ok a =>
      rcases hlast : (l a).runOn bs' with ⟨answer, last⟩
      have hle := hl a bs'
      rw [hlast] at hle
      simp only [hlast]
      exact .failed hstopped (Nat.lt_of_le_of_lt hle hbeyond)

variable [Reader ρ]

theorem outcome_readExactly (h : Reader.Delivers supply) {m : Metered ρ} {bs : List UInt8}
    (hahead : o.Ahead supply m bs) (n : Nat) :
    o.Outcome supply ((Frame.readExactly n).runOn m) ((Frame.readExactly n).runOn bs) := by
  obtain ⟨front, hsupply, rfl, hpos⟩ := hahead
  have hlost := List.length_pos_iff.2 o.lost_ne_nil
  rw [Frame.runOn_readExactly, Frame.runOn_readExactly, Source.take_bytes]
  by_cases hn : n ≤ front.length
  · obtain ⟨m', htake, hsupply', hpos'⟩ := h.take_of_enough n hsupply (.inl hn)
    have hfull : ¬ (front.take n).length < n := by rw [List.length_take]; omega
    simp only [htake, List.take_append_of_le_length hn, List.drop_append_of_le_length hn,
      if_neg hfull]
    refine .same (by simp) ⟨_, hsupply', rfl, ?_⟩
    rw [hpos', List.length_drop]
    omega
  · obtain ⟨m', htake, hpos'⟩ := h.take_of_fault hsupply (Nat.lt_of_not_le hn)
    rw [htake]
    refine .failed (hpos'.trans hpos) ?_
    rw [List.length_drop, List.length_append]
    omega

theorem outcome_read (h : Reader.Delivers supply) {m : Metered ρ} {bs : List UInt8}
    (hahead : o.Ahead supply m bs) (width : Nat) :
    o.Outcome supply ((Frame.read width).runOn m) ((Frame.read width).runOn bs) := by
  have hlength : o.Outcome supply ((Frame.readLength width).runOn m)
      ((Frame.readLength width).runOn bs) :=
    (outcome_readExactly h hahead width).bind (fun _ _ _ hahead => .same (by simp) hahead)
      fun _ => Decoder.forward_pure _
  exact hlength.bind (fun n _ _ hahead => outcome_readExactly h hahead n)
    Frame.forward_readExactly

theorem outcome_kind (h : Reader.Delivers supply) {m : Metered ρ} {bs : List UInt8}
    (hahead : o.Ahead supply m bs) (kind : Item.Kind) :
    o.Outcome supply (kind.read.runOn m) (kind.read.runOn bs) := by
  have hread := outcome_read h hahead kind.width
  rw [Item.Kind.read_runOn, Item.Kind.read_runOn]
  rcases hm : (Frame.read kind.width).runOn m with ⟨answer, m'⟩
  rcases hbs : (Frame.read kind.width).runOn bs with ⟨answer', bs'⟩
  rw [hm, hbs] at hread
  cases hread with
  | same hwhole hahead =>
    refine .same ?_ hahead
    cases answer with
    | error fault => simpa [Except.bind] using hwhole
    | ok payload => exact kind.ofBytes_ne_truncated payload
  | failed hstopped hbeyond => exact .failed hstopped hbeyond

end Outage

/-! ## Whole streams -/

namespace Item

/-- The item was read, for better or worse, from the first `p` bytes. -/
def Within (p : Nat) (entry : Entry) : Prop :=
  entry.2 ≤ p ∧ ∀ wanted found, entry.1 ≠ .error (.truncated wanted found)

/-- Entries within the first `p` bytes are as in `whole`; the first other is the fault at `p`. -/
def CutOff (fault : DeviceFault) (p : Nat) (whole cut : List Entry) : Prop :=
  ∀ (i : Nat) (entry : Entry), whole[i]? = some entry →
    (Within p entry → cut[i]? = some entry) ∧
    (¬ Within p entry → (∀ j < i, ∀ earlier, whole[j]? = some earlier → Within p earlier) →
      cut[i]? = some (.error (.device fault), p))

variable {fault : DeviceFault} {p : Nat} {entry : Entry} {whole cut : List Entry}

theorem cutOff_nil (cut : List Entry) : CutOff fault p [] cut := by
  intro i entry h
  cases h

theorem CutOff.cons (hentry : Within p entry) (h : CutOff fault p whole cut) :
    CutOff fault p (entry :: whole) (entry :: cut) := by
  intro i later hlater
  cases i with
  | zero =>
    cases hlater
    exact ⟨fun _ => rfl, fun hnot => absurd hentry hnot⟩
  | succ i =>
    obtain ⟨hsame, hfailed⟩ := h i later hlater
    exact ⟨hsame, fun hnot hearlier =>
      hfailed hnot fun j hj earlier => hearlier (j + 1) (Nat.succ_lt_succ hj) earlier⟩

theorem cutOff_of_past (hpast : ∀ later ∈ entry :: whole, p < later.2) :
    CutOff fault p (entry :: whole) ((.error (.device fault), p) :: cut) := by
  have hnot : ∀ later ∈ entry :: whole, ¬ Within p later := fun later hlater hwithin =>
    Nat.not_le.2 (hpast later hlater) hwithin.1
  intro i later hlater
  refine ⟨fun hwithin => absurd hwithin (hnot later (List.mem_of_getElem? hlater)), ?_⟩
  intro _ hearlier
  cases i with
  | zero => rfl
  | succ i =>
    exact absurd (hearlier 0 (Nat.succ_pos i) entry rfl) (hnot entry List.mem_cons_self)

theorem le_of_mem_transcript {total : Nat} {kinds : List Kind} {bs : List UInt8}
    (h : entry ∈ transcript (fun left => total - left.length) kinds bs) :
    total - bs.length ≤ entry.2 := by
  induction kinds generalizing bs with
  | nil => cases h
  | cons kind kinds ih =>
    have hle := kind.forward_read bs
    rw [transcript_cons, List.mem_cons] at h
    rcases h with rfl | h
    · simp only
      omega
    · have hlater := ih h
      omega

theorem cutOff_transcript {ρ : Type} [Reader ρ] {supply : ρ → Supply}
    (h : Reader.Delivers supply) {o : Outage} (kinds : List Kind) {m : Metered ρ}
    {bs : List UInt8} (hahead : o.Ahead supply m bs) :
    CutOff o.fault o.position
      (transcript (fun left => o.position + o.lost.length - left.length) kinds bs)
      (transcript Metered.position kinds m) := by
  induction kinds generalizing m bs with
  | nil => exact cutOff_nil _
  | cons kind kinds ih =>
    have hstep := Outage.outcome_kind h hahead kind
    rw [transcript_cons, transcript_cons]
    rcases hm : kind.read.runOn m with ⟨answer, m'⟩
    rcases hbs : kind.read.runOn bs with ⟨answer', bs'⟩
    rw [hm, hbs] at hstep
    cases hstep with
    | same hwhole hahead' =>
      have hpos : m'.position = o.position + o.lost.length - bs'.length ∧
          m'.position ≤ o.position := by
        obtain ⟨front, -, rfl, hfront⟩ := hahead'
        rw [List.length_append]
        omega
      simp only [← hpos.1]
      exact (ih hahead').cons ⟨hpos.2, hwhole⟩
    | failed hstopped hbeyond =>
      -- Positions in memory only grow, so no later item ends within `p` either.
      simp only [hstopped]
      refine cutOff_of_past fun later hlater => ?_
      have hle : o.position + o.lost.length - bs'.length ≤ later.2 := by
        rcases List.mem_cons.1 hlater with rfl | hlater
        · exact Nat.le_refl _
        · exact le_of_mem_transcript hlater
      omega

/-- However the bytes are delivered, items are read from a reader as they are from memory. -/
theorem decoding_ignores_delivery {ρ : Type} [Reader ρ] {supply : ρ → Supply}
    (h : Reader.Delivers supply) (r : ρ) (d : List UInt8) (kinds : List Kind) :
    (readAll kinds r).1 = (transcriptFrom kinds r).map Prod.fst ∧
    (supply r = ⟨d, none⟩ → transcriptFrom kinds r = transcriptInMemory kinds d) ∧
    (∀ (p : Nat) (fault : DeviceFault), p < d.length → supply r = ⟨d.take p, some fault⟩ →
      CutOff fault p (transcriptInMemory kinds d) (transcriptFrom kinds r)) := by
  refine ⟨?_, fun hsupply => ?_, fun p fault hp hsupply => ?_⟩
  · have hmeter : (readAll kinds (⟨r, 0⟩ : Metered ρ)).1 = (readAll kinds r).1 :=
      readAll_of_inStep Metered.inStep_reader kinds rfl
    rw [← hmeter]
    exact readAll_eq_transcript Metered.position kinds _
  · refine transcript_of_inStep (Metered.inStep_memory h d.length) ?_ kinds ⟨hsupply, by simp⟩
    rintro m bs ⟨-, htotal⟩
    omega
  · have hlost : d.drop p ≠ [] := by simpa using hp
    have hahead : Outage.Ahead ⟨fault, p, d.drop p, hlost⟩ supply ⟨r, 0⟩ d :=
      ⟨d.take p, hsupply, (List.take_append_drop p d).symm, by simp; omega⟩
    have htotal : p + (d.drop p).length = d.length := by
      rw [List.length_drop]
      omega
    have hcut := cutOff_transcript h kinds hahead
    rwa [htotal] at hcut

def twoItemsAndMore : List UInt8 := [2, 0, 7, 8] ++ [1, 0, 0, 0, 0, 0, 0, 0, 5] ++ [9]

def stuttering (allowance : Option Nat) : Channel where
  rest := twoItemsAndMore
  pace n := ⟨n % 3, n % 2⟩
  allowance := allowance

theorem decoding_ignores_delivery_stuttering :
    ((stuttering none).supply = ⟨twoItemsAndMore, none⟩ ∧
      transcriptFrom [.identifier, .filter, .identifier] (stuttering none) =
        [(.ok (.identifier ⟨[7, 8], false, by decide⟩), 4),
          (.ok (.filter ⟨[5], false, by decide⟩), 13), (.error (.truncated 2 1), 14)]) ∧
    (6 < twoItemsAndMore.length ∧
      (stuttering (some 6)).supply = ⟨twoItemsAndMore.take 6, some .connectionReset⟩ ∧
      (transcriptFrom [.identifier, .filter] (stuttering (some 6)))[0]? =
        some (.ok (.identifier ⟨[7, 8], false, by decide⟩), 4) ∧
      (transcriptFrom [.identifier, .filter] (stuttering (some 6)))[1]? =
        some (.error (.device .connectionReset), 6)) := by
  have hplain := decoding_ignores_delivery Channel.delivers (stuttering none) twoItemsAndMore
    [.identifier, .filter, .identifier]
  have hfailing := decoding_ignores_delivery Channel.delivers (stuttering (some 6))
    twoItemsAndMore [.identifier, .filter]
  have hcut := hfailing.2.2 6 .connectionReset (by decide) rfl
  refine ⟨⟨rfl, (hplain.2.1 rfl).trans rfl⟩, by decide, rfl, ?_, ?_⟩
  · exact (hcut 0 _ rfl).1 ⟨by decide, by simp⟩
  · refine (hcut 1 _ rfl).2 (fun hwithin => absurd hwithin.1 (by decide)) ?_
    intro j hj earlier hearlier
    obtain rfl : j = 0 := by omega
    cases hearlier
    exact ⟨by decide, by simp⟩

end Item

end DigestFilter
