import DigestFilter.Proofs.Filter.Header

/-!
# Streams of identifiers and filters

Identifiers and filters stand in a stream one after another, filters in the plain form. Reading an
item accepts exactly what writing it produces, with whatever follows, and says of all other bytes
how they fail. So a stream has one reading, and no item eats bytes of the next.
-/

namespace DigestFilter

inductive Item where
  | identifier (x : Identifier)
  | filter (f : Filter)

namespace Item

inductive Kind where
  | identifier
  | filter
  deriving DecidableEq, Repr

namespace Kind

def width : Kind → Nat
  | .identifier => 2
  | .filter => 8

def emptyFault : Kind → ArgumentFault
  | .identifier => .emptyDigest
  | .filter => .emptyBitmap

def ofBytes : Kind → List UInt8 → Except Error Item
  | .identifier, bs => (Identifier.ofBytes bs).map .identifier
  | .filter, bs => (Filter.ofBytes bs).map .filter

def read {σ : Type} [Source σ] : Kind → Decoder σ Item
  | .identifier => do return .identifier (← Identifier.read)
  | .filter => do return .filter (← Filter.read)

end Kind

def kind : Item → Kind
  | .identifier _ => .identifier
  | .filter _ => .filter

def content : Item → List UInt8
  | .identifier x => x.digest
  | .filter f => f.bitmap

def frozen : Item → Bool
  | .identifier x => x.frozen
  | .filter f => f.frozen

def thawed : Item → Item
  | .identifier x => .identifier x.thawed
  | .filter f => .filter f.thawed

/-- The length field can hold the size. -/
def Fits (item : Item) : Prop := item.content.length < LittleEndian.limit item.kind.width

def encode : Item → List UInt8
  | .identifier x => Frame.encode 2 x.digest
  | .filter f => f.encode false

/-- Filters are written in the form asked for; identifiers have only one. -/
def write (withHeader : Bool) : Item → Sink → Except Error Unit × Sink
  | .identifier x => x.write
  | .filter f => f.write withHeader

/-- Reads items of these kinds in order, going on after errors. -/
def readAll {σ : Type} [Source σ] : List Kind → σ → List (Except Error Item) × σ
  | [], s => ([], s)
  | kind :: kinds, s =>
    let (answer, s') := kind.read.runOn s
    let (answers, s'') := readAll kinds s'
    (answer :: answers, s'')

def writeAll : List (Item × Bool) → Sink → List (Except Error Unit) × Sink
  | [], s => ([], s)
  | (item, withHeader) :: rest, s =>
    let (answer, s') := item.write withHeader s
    let (answers, s'') := writeAll rest s'
    (answer :: answers, s'')

/-! ## Small facts -/

variable {kind : Kind} {item : Item} {bs field rest : List UInt8}

theorem encode_eq (item : Item) : item.encode = Frame.encode item.kind.width item.content := by
  cases item <;> rfl

theorem Kind.ofBytes_nil (kind : Kind) : kind.ofBytes [] = .error (.argument kind.emptyFault) := by
  cases kind <;> rfl

theorem Kind.ofBytes_of_ne_nil (kind : Kind) (h : bs ≠ []) :
    ∃ item, kind.ofBytes bs = .ok item := by
  cases kind <;> simp [ofBytes, Identifier.ofBytes, Filter.ofBytes, h, Except.map]

theorem Kind.ofBytes_ne_truncated (kind : Kind) (bs : List UInt8) (wanted found : Nat) :
    kind.ofBytes bs ≠ .error (.truncated wanted found) := by
  by_cases hbs : bs = []
  · subst hbs
    simp [kind.ofBytes_nil]
  · obtain ⟨item, hitem⟩ := kind.ofBytes_of_ne_nil hbs
    simp [hitem]

theorem Kind.ofBytes_content (item : Item) : item.kind.ofBytes item.content = .ok item.thawed := by
  cases item with
  | identifier x =>
    have h : Identifier.ofBytes x.digest = .ok x.thawed :=
      Identifier.ofBytes_eq_ok_iff.2 ⟨rfl, rfl⟩
    simp only [ofBytes, content, Item.kind, h]
    rfl
  | filter f =>
    simp only [ofBytes, content, Item.kind, Filter.ofBytes_bitmap]
    rfl

theorem Kind.of_ofBytes_eq_ok (h : kind.ofBytes bs = .ok item) :
    item.kind = kind ∧ item.content = bs ∧ item.frozen = false := by
  cases kind with
  | identifier =>
    cases hx : Identifier.ofBytes bs with
    | error e => simp [ofBytes, hx, Except.map] at h
    | ok x =>
      obtain ⟨hdigest, hfrozen⟩ := Identifier.ofBytes_eq_ok_iff.1 hx
      simp only [ofBytes, hx, Except.map, Except.ok.injEq] at h
      subst h
      exact ⟨rfl, hdigest, hfrozen⟩
  | filter =>
    cases hf : Filter.ofBytes bs with
    | error e => simp [ofBytes, hf, Except.map] at h
    | ok f =>
      obtain ⟨hbitmap, hfrozen⟩ := Filter.ofBytes_eq_ok_iff.1 hf
      simp only [ofBytes, hf, Except.map, Except.ok.injEq] at h
      subst h
      exact ⟨rfl, hbitmap, hfrozen⟩

theorem thawed_of_not_frozen (h : item.frozen = false) : item.thawed = item := by
  cases item with
  | identifier x => rcases x with ⟨digest, frozen, hd⟩; cases h; rfl
  | filter f => rcases f with ⟨bitmap, frozen, hb⟩; cases h; rfl

/-! ## Reading one item -/

theorem Kind.read_runOn {σ : Type} [Source σ] (kind : Kind) (s : σ) :
    kind.read.runOn s = (((Frame.read kind.width).runOn s).1.bind kind.ofBytes,
      ((Frame.read kind.width).runOn s).2) := by
  cases kind with
  | identifier =>
    rw [read, Decoder.runOn_bind, Identifier.read_runOn, width]
    rcases (Frame.read 2).runOn s with ⟨_ | bs, s'⟩
    · rfl
    · simp only [Except.bind, ofBytes]
      cases Identifier.ofBytes bs <;> rfl
  | filter =>
    rw [read, Decoder.runOn_bind, Filter.read_runOn, width]
    rcases (Frame.read 8).runOn s with ⟨_ | bs, s'⟩
    · rfl
    · simp only [Except.bind, ofBytes]
      cases Filter.ofBytes bs <;> rfl

theorem read_encode_append (h : item.Fits) (rest : List UInt8) :
    item.kind.read.runOn (item.encode ++ rest) = (.ok item.thawed, rest) := by
  rw [Kind.read_runOn, encode_eq, Frame.read_encode h]
  simp only [Except.bind, Kind.ofBytes_content]

theorem read_eq_ok_iff :
    kind.read.runOn bs = (.ok item, rest) ↔
      item.kind = kind ∧ item.frozen = false ∧ item.Fits ∧ bs = item.encode ++ rest := by
  constructor
  · intro h
    rw [Kind.read_runOn] at h
    rcases hread : (Frame.read kind.width).runOn bs with ⟨_ | content, s⟩
    · rw [hread] at h
      cases h
    · rw [hread, Prod.mk.injEq] at h
      obtain ⟨hitem, rfl⟩ := h
      obtain ⟨rfl, rfl, hfrozen⟩ := Kind.of_ofBytes_eq_ok hitem
      obtain ⟨hfits, rfl⟩ := Frame.read_eq_ok_iff.1 hread
      exact ⟨rfl, hfrozen, hfits, by rw [encode_eq]⟩
  · rintro ⟨rfl, hfrozen, hfits, rfl⟩
    rw [read_encode_append hfits, thawed_of_not_frozen hfrozen]

theorem read_of_short_field (h : bs.length < kind.width) :
    kind.read.runOn bs = (.error (.truncated kind.width bs.length), []) := by
  rw [Kind.read_runOn, Frame.read_of_short_field h]
  rfl

theorem read_of_short_payload (h : field.length = kind.width)
    (hrest : rest.length < LittleEndian.value field) :
    kind.read.runOn (field ++ rest) =
      (.error (.truncated (LittleEndian.value field) rest.length), []) := by
  rw [Kind.read_runOn, Frame.read_of_short_payload h hrest]
  rfl

theorem read_of_payload {content : List UInt8} (h : field.length = kind.width)
    (hcontent : content.length = LittleEndian.value field) :
    kind.read.runOn (field ++ (content ++ rest)) = (kind.ofBytes content, rest) := by
  rw [Kind.read_runOn, Frame.read_of_payload h hcontent]
  rfl

theorem read_of_empty (h : field.length = kind.width) (hzero : LittleEndian.value field = 0) :
    kind.read.runOn (field ++ rest) = (.error (.argument kind.emptyFault), rest) := by
  have hread : kind.read.runOn (field ++ ([] ++ rest)) = (kind.ofBytes [], rest) :=
    read_of_payload h hzero.symm
  rwa [List.nil_append, Kind.ofBytes_nil] at hread

theorem read_of_long_payload (h : field.length = kind.width) (hpos : 0 < LittleEndian.value field)
    (hrest : LittleEndian.value field ≤ rest.length) :
    ∃ item, kind.read.runOn (field ++ rest) =
      (.ok item, rest.drop (LittleEndian.value field)) := by
  have hlen : (rest.take (LittleEndian.value field)).length = LittleEndian.value field := by
    rw [List.length_take]
    omega
  obtain ⟨item, hitem⟩ := kind.ofBytes_of_ne_nil (List.length_pos_iff.1 (hlen ▸ hpos))
  refine ⟨item, ?_⟩
  rw [← hitem, ← read_of_payload h hlen, List.take_append_drop]

/-! ## Whole streams -/

theorem write_eq_put (h : item.Fits) (s : Sink) : item.write false s = s.put item.encode := by
  cases item with
  | identifier x => exact Identifier.write_eq_put h s
  | filter f => exact Filter.write_eq_put f false s

theorem writeAll_unlimited {items : List Item} (h : ∀ item ∈ items, item.Fits)
    (written : List UInt8) :
    writeAll (items.map (·, false)) ⟨written, none⟩ =
      (items.map fun _ => .ok (), ⟨written ++ items.flatMap encode, none⟩) := by
  induction items generalizing written with
  | nil => simp [writeAll]
  | cons item items ih =>
    obtain ⟨hitem, hitems⟩ := List.forall_mem_cons.1 h
    simp only [List.map_cons, writeAll, write_eq_put hitem, Sink.put_unlimited, ih hitems,
      List.flatMap_cons, List.append_assoc]

theorem readAll_encode_append {items : List Item} (h : ∀ item ∈ items, item.Fits)
    (tail : List UInt8) :
    readAll (items.map Item.kind) (items.flatMap encode ++ tail) =
      (items.map fun item => .ok item.thawed, tail) := by
  induction items with
  | nil => rfl
  | cons item items ih =>
    obtain ⟨hitem, hitems⟩ := List.forall_mem_cons.1 h
    simp only [List.map_cons, List.flatMap_cons, List.append_assoc, readAll,
      read_encode_append hitem, ih hitems]

/-- Items written one after another read back in order, whatever follows them. -/
theorem uniquely_decodable :
    (∀ (kind : Kind) (bs : List UInt8) (item : Item) (rest : List UInt8),
      kind.read.runOn bs = (.ok item, rest) ↔
        item.kind = kind ∧ item.frozen = false ∧ item.Fits ∧ bs = item.encode ++ rest) ∧
    (∀ item : Item, item.Fits → item.write false {} = (.ok (), ⟨item.encode, none⟩)) ∧
    (∀ (kind : Kind) (bs : List UInt8), bs.length < kind.width →
      kind.read.runOn bs = (.error (.truncated kind.width bs.length), [])) ∧
    (∀ (kind : Kind) (field rest : List UInt8), field.length = kind.width →
      (rest.length < LittleEndian.value field → kind.read.runOn (field ++ rest) =
        (.error (.truncated (LittleEndian.value field) rest.length), [])) ∧
      (LittleEndian.value field = 0 →
        kind.read.runOn (field ++ rest) = (.error (.argument kind.emptyFault), rest)) ∧
      (0 < LittleEndian.value field → LittleEndian.value field ≤ rest.length →
        ∃ item, kind.read.runOn (field ++ rest) =
          (.ok item, rest.drop (LittleEndian.value field)))) ∧
    (∀ (items : List Item) (tail : List UInt8), (∀ item ∈ items, item.Fits) →
      ∃ written,
        writeAll (items.map (·, false)) {} = (items.map fun _ => .ok (), ⟨written, none⟩) ∧
        readAll (items.map Item.kind) (written ++ tail) =
          (items.map fun item => .ok item.thawed, tail)) := by
  refine ⟨fun _ _ _ _ => read_eq_ok_iff, ?_, fun _ _ => read_of_short_field, ?_, ?_⟩
  · intro item h
    exact write_eq_put h {}
  · intro kind field rest h
    exact ⟨read_of_short_payload h, read_of_empty h, read_of_long_payload h⟩
  · intro items tail h
    exact ⟨_, writeAll_unlimited h [], readAll_encode_append h tail⟩

def mixed : List Item :=
  [.identifier ⟨[1, 2, 3], true, by decide⟩, .filter ⟨[0xFF, 0], false, by decide⟩]

theorem uniquely_decodable_mixed :
    ((∀ item ∈ mixed, item.Fits) ∧ ∃ written,
      writeAll (mixed.map (·, false)) {} = ([.ok (), .ok ()], ⟨written, none⟩) ∧
      readAll [.identifier, .filter] (written ++ [9]) =
        (mixed.map fun item => .ok item.thawed, [9])) ∧
    ([7].length < Kind.filter.width ∧
      Kind.filter.read.runOn [(7 : UInt8)] = (.error (.truncated 8 1), [])) ∧
    ([5].length < LittleEndian.value [2, 0] ∧
      Kind.identifier.read.runOn [(2 : UInt8), 0, 5] = (.error (.truncated 2 1), [])) ∧
    (LittleEndian.value [0, 0] = 0 ∧
      Kind.identifier.read.runOn [(0 : UInt8), 0, 5] = (.error (.argument .emptyDigest), [5])) ∧
    (0 < LittleEndian.value [1, 0] ∧ LittleEndian.value [1, 0] ≤ [(5 : UInt8), 6].length ∧
      ∃ item, Kind.identifier.read.runOn [(1 : UInt8), 0, 5, 6] = (.ok item, [6])) := by
  obtain ⟨-, -, hshort, hfield, hstream⟩ := uniquely_decodable
  have hfits : ∀ item ∈ mixed, item.Fits := by
    intro item hitem
    simp only [mixed, List.mem_cons, List.not_mem_nil, or_false] at hitem
    rcases hitem with rfl | rfl
    · show 3 < LittleEndian.limit 2
      decide
    · show 2 < LittleEndian.limit 8
      decide
  refine ⟨⟨hfits, hstream mixed [9] hfits⟩, ⟨by decide, hshort .filter [7] (by decide)⟩,
    ⟨by decide, ?_⟩, ⟨by decide, ?_⟩, by decide, by decide, ?_⟩
  · exact (hfield .identifier [2, 0] [5] rfl).1 (by decide)
  · exact (hfield .identifier [0, 0] [5] rfl).2.1 (by decide)
  · exact (hfield .identifier [1, 0] [5, 6] rfl).2.2 (by decide) (by decide)

end Item

end DigestFilter
