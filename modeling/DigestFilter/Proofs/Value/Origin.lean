import DigestFilter.Identifier.Json
import DigestFilter.Proofs.Files.Program
import DigestFilter.Proofs.Filter.Merge
import DigestFilter.Proofs.Stream.Item
import DigestFilter.Proofs.Text.Padding

/-!
# Where values come from

Identifiers and filters are made from bytes, by size, from content and elements, by reading text,
JSON, streams, serialized bytes and files, and from values that are there already. Whichever way a
value comes, it has exactly the length that was asked for, so nobody gets a value without bytes.
-/

namespace DigestFilter

/-- Values are known by the order in which they were made. -/
abbrev Heap := List Item

inductive Refusal where
  | error (e : Error)
  | json (fault : Identifier.JsonFault)
  | missing

namespace Refusal

variable {α : Type}

def lift (r : Except Error α) : Except Refusal α := r.mapError .error

theorem of_lift_eq_ok {r : Except Error α} {a : α} (h : lift r = .ok a) : r = .ok a := by
  cases r with
  | error e => cases h
  | ok b =>
    cases h
    rfl

end Refusal

theorem Except.of_map_eq_ok {ε α β : Type} {f : α → β} {r : Except ε α} {b : β}
    (h : r.map f = .ok b) : ∃ a, r = .ok a ∧ f a = b := by
  cases r with
  | error e => cases h
  | ok a => exact ⟨a, rfl, Except.ok.inj h⟩

theorem Except.of_bind_eq_ok {ε α β : Type} {f : α → Except ε β} {r : Except ε α} {b : β}
    (h : r.bind f = .ok b) : ∃ a, r = .ok a ∧ f a = .ok b := by
  cases r with
  | error e => cases h
  | ok a => exact ⟨a, rfl, h⟩

namespace Heap

def item? (h : Heap) (i : Nat) : Except Refusal Item :=
  match h[i]? with
  | some item => .ok item
  | none => .error .missing

def filter? (h : Heap) (i : Nat) : Except Refusal Filter :=
  match h[i]? with
  | some (.filter f) => .ok f
  | _ => .error .missing

theorem item?_eq_ok_iff {h : Heap} {i : Nat} {item : Item} :
    h.item? i = .ok item ↔ h[i]? = some item := by
  unfold item?
  split
  · next hi => simp [hi]
  · next hi => simp [hi]

theorem filter?_eq_ok_iff {h : Heap} {i : Nat} {f : Filter} :
    h.filter? i = .ok f ↔ h[i]? = some (.filter f) := by
  unfold filter?
  split
  · next hi => simp [hi]
  · next hi =>
    constructor
    · intro he
      cases he
    · intro he
      exact absurd he (hi f)

end Heap

namespace Item

theorem length_content_pos (item : Item) : 0 < item.content.length := by
  cases item with
  | identifier x => exact x.size_pos
  | filter f => exact f.size_pos

theorem length_content_thawed (item : Item) :
    item.thawed.content.length = item.content.length := by
  cases item <;> rfl

end Item

def Item.Kind.zeroed : Kind → Nat → Except Error Item
  | .identifier, n => (Identifier.zeroed n).map .identifier
  | .filter, n => (Filter.empty n).map .filter

inductive Origin : Type 1 where
  | ofBytes (kind : Item.Kind) (bs : List UInt8)
  | zeroed (kind : Item.Kind) (size : Nat)
  | ofContent (content : List UInt8)
  | parse (text : String)
  | numeral (a : Alphabet) (text : String) (size : Nat)
  | json (document : String)
  | default
  | ofElements {α : Type} [Hashed α] (xs : List α) (size : Option Nat)
  | read {σ : Type} [Source σ] (kind : Item.Kind) (source : σ)
  | serialized (bs : List UInt8)
  | load (path : String) (world : World)
  | clone (i : Nat)
  | dup (i : Nat)
  | merge (entry : Filter.Entry) (makesNew : entry.makesNew = true) (op : MergeOp) (i j : Nat)

namespace Origin

def make (h : Heap) : Origin → Except Refusal Item
  | .ofBytes kind bs => Refusal.lift (kind.ofBytes bs)
  | .zeroed kind size => Refusal.lift (kind.zeroed size)
  | .ofContent content => .ok (.identifier (Identifier.ofContent content))
  | .parse text => Refusal.lift ((Identifier.parse text).map .identifier)
  | .numeral a text size => Refusal.lift ((Identifier.decode a text size).map .identifier)
  | .json document => ((Identifier.ofJson document).map .identifier).mapError .json
  | .default => .ok (.filter Inhabited.default)
  | @ofElements _ _ xs size => Refusal.lift ((Filter.ofElements xs size).map .filter)
  | @read _ _ kind source => Refusal.lift (kind.read.runOn source).1
  | .serialized bs => Refusal.lift ((Filter.decode bs).map .filter)
  | .load path world => Refusal.lift (((Filter.load path).runOn world).1.map .filter)
  | .clone i => h.item? i
  | .dup i => (h.item? i).map Item.thawed
  | .merge entry _ op i j =>
    (h.filter? i).bind fun f => (h.filter? j).bind fun g =>
      Refusal.lift ((entry.run op f g).map .filter)

/-! ## How many bytes are asked for -/

def hexSize (text : String) : Nat := text.utf8ByteSize / 2

def jsonSize? (document : String) : Option Nat :=
  match Json.Token.next? (Json.skipBlanks document.toList) with
  | some (.string (some text), _) => some (hexSize text)
  | _ => none

def frameSize? {σ : Type} [Source σ] (kind : Item.Kind) (source : σ) : Option Nat :=
  ((Frame.read kind.width).runOn source).1.toOption.map List.length

def serializedSize? (bs : List UInt8) : Option Nat :=
  frameSize? .filter (if Filter.isHeaded bs then bs.drop 2 else bs)

/-- What the input says about the length of the value. -/
def asked? (h : Heap) : Origin → Option Nat
  | .ofBytes _ bs => some bs.length
  | .zeroed _ size => some size
  | .ofContent _ => some 32
  | .parse text => some (hexSize text)
  | .numeral _ _ size => some size
  | .json document => jsonSize? document
  | .default => some Filter.defaultSize
  | @ofElements _ _ xs size => some (size.getD (max 1 xs.length))
  | @read _ _ kind source => frameSize? kind source
  | .serialized bs => serializedSize? bs
  | .load path world => (world.files.read path).toOption.bind serializedSize?
  | .clone i | .dup i | .merge _ _ _ i _ => h[i]?.map fun item => item.content.length

end Origin

/-! ## Every way in gives that many -/

theorem Hex.length_decodePairs {position : Nat} {text bs : List UInt8}
    (h : decodePairs position text = .ok bs) : bs.length = text.length / 2 := by
  induction position, text using decodePairs.induct generalizing bs with
  | case1 position high low rest hhigh => simp [decodePairs, hhigh] at h
  | case2 position high low rest x hlow hhigh => simp [decodePairs, hhigh, hlow] at h
  | case3 position high low rest x y hlow hhigh ih =>
    simp only [decodePairs, hhigh, hlow] at h
    obtain ⟨bs', hrest, rfl⟩ := Except.of_map_eq_ok h
    rw [List.length_cons, ih hrest, List.length_cons, List.length_cons]
    omega
  | case4 text position hshort =>
    rw [decodePairs] at h
    · cases h
      match text, hshort with
      | [], _ => rfl
      | [_], _ => exact (Nat.div_eq_of_lt (by decide : 1 < 2)).symm
      | high :: low :: rest, hshort => exact absurd rfl (hshort high low rest)
    · exact hshort

theorem Hex.length_decode {text : String} {bs : List UInt8}
    (h : decode (Utf8.encode text) = .ok bs) : bs.length = Origin.hexSize text := by
  unfold decode at h
  split at h
  · cases h
  · rw [length_decodePairs h, Utf8.length_encode]
    rfl

namespace Identifier

variable {x : Identifier} {bs : List UInt8}

theorem size_of_ofBytes (h : ofBytes bs = .ok x) : x.size = bs.length :=
  congrArg List.length (ofBytes_eq_ok_iff.1 h).1

theorem size_of_parse {text : String} (h : parse text = .ok x) : x.size = Origin.hexSize text := by
  unfold parse at h
  split at h
  · cases h
  split at h
  · cases h
  split at h
  · cases h
  · next bs hbs =>
    split at h
    · cases h
    · rw [size_of_ofBytes h, Hex.length_decode hbs]

theorem size_of_ofHex {text : String} (h : ofHex text = .ok x) :
    x.size = Origin.hexSize text := by
  unfold ofHex at h
  split at h
  · cases h
  · next bs hbs =>
    cases hx : ofBytes bs with
    | error e => rw [hx] at h; cases h
    | ok y =>
      rw [hx] at h
      cases h
      rw [size_of_ofBytes hx, Hex.length_decode hbs]

theorem size_of_ofJson {document : String} (h : ofJson document = .ok x) :
    Origin.jsonSize? document = some x.size := by
  unfold ofJson at h
  unfold Origin.jsonSize?
  split at h
  · next text rest hnext =>
    obtain ⟨y, hy, h⟩ := Except.of_bind_eq_ok h
    split at h
    · cases h
      simp only [hnext, size_of_ofHex hy]
    · cases h
  · split at h <;> cases h
  · cases h

end Identifier

namespace Origin

variable {h : Heap} {item : Item}

theorem frameSize_of_read {σ : Type} [Source σ] {kind : Item.Kind} {source : σ}
    (hread : (kind.read.runOn source).1 = .ok item) :
    frameSize? kind source = some item.content.length := by
  rw [Item.Kind.read_runOn] at hread
  obtain ⟨bs, hframe, hitem⟩ := Except.of_bind_eq_ok hread
  rw [frameSize?, hframe, (Item.Kind.of_ofBytes_eq_ok hitem).2.1]
  rfl

theorem serializedSize_of_decode {bs : List UInt8} {f : Filter} (hf : Filter.decode bs = .ok f) :
    serializedSize? bs = some f.size := by
  suffices hread : (Item.Kind.filter.read.runOn
      (if Filter.isHeaded bs then bs.drop 2 else bs)).1 = .ok (.filter f) from
    frameSize_of_read hread
  rw [Item.Kind.read, Decoder.runOn_bind]
  unfold Filter.decode at hf
  dsimp only at hf
  rcases hread : Filter.read.runOn (if Filter.isHeaded bs then bs.drop 2 else bs) with ⟨r, rest⟩
  rw [hread] at hf
  subst hf
  rfl

theorem size_of_ofElements {α : Type} [Hashed α] {xs : List α} {size : Option Nat} {f : Filter}
    (hf : Filter.ofElements xs size = .ok f) : f.size = size.getD (max 1 xs.length) := by
  obtain ⟨empty, hempty, hf⟩ := Except.of_bind_eq_ok hf
  obtain ⟨hbitmap, hfrozen⟩ := Filter.ofBytes_eq_ok_iff.1 hempty
  rw [Filter.size_insertAll hf hfrozen, Filter.size, hbitmap, List.length_replicate]

theorem length_of_zeroed {kind : Item.Kind} {size : Nat} (hitem : kind.zeroed size = .ok item) :
    item.content.length = size := by
  have hzeroed : kind.zeroed size = kind.ofBytes (List.replicate size 0) := by cases kind <;> rfl
  rw [hzeroed] at hitem
  rw [(Item.Kind.of_ofBytes_eq_ok hitem).2.1, List.length_replicate]

theorem asked_of_make {origin : Origin} (hmake : origin.make h = .ok item) :
    origin.asked? h = some item.content.length := by
  cases origin with
  | ofBytes kind bs =>
    rw [asked?, (Item.Kind.of_ofBytes_eq_ok (Refusal.of_lift_eq_ok hmake)).2.1]
  | zeroed kind size => rw [asked?, length_of_zeroed (Refusal.of_lift_eq_ok hmake)]
  | ofContent content =>
    cases hmake
    exact congrArg some (Blake3.length_digest content).symm
  | parse text =>
    obtain ⟨x, hx, rfl⟩ := Except.of_map_eq_ok (Refusal.of_lift_eq_ok hmake)
    exact congrArg some (Identifier.size_of_parse hx).symm
  | numeral a text size =>
    obtain ⟨x, hx, rfl⟩ := Except.of_map_eq_ok (Refusal.of_lift_eq_ok hmake)
    exact congrArg some (Identifier.decode_eq_ok_iff.1 hx).1.symm
  | json document =>
    cases hx : Identifier.ofJson document with
    | error fault => rw [make, hx] at hmake; cases hmake
    | ok x =>
      rw [make, hx] at hmake
      cases hmake
      exact Identifier.size_of_ofJson hx
  | default =>
    cases hmake
    exact congrArg some List.length_replicate.symm
  | ofElements xs size =>
    obtain ⟨f, hf, rfl⟩ := Except.of_map_eq_ok (Refusal.of_lift_eq_ok hmake)
    exact congrArg some (size_of_ofElements hf).symm
  | read kind source => exact frameSize_of_read (Refusal.of_lift_eq_ok hmake)
  | serialized bs =>
    obtain ⟨f, hf, rfl⟩ := Except.of_map_eq_ok (Refusal.of_lift_eq_ok hmake)
    exact serializedSize_of_decode hf
  | load path world =>
    obtain ⟨f, hf, rfl⟩ := Except.of_map_eq_ok (Refusal.of_lift_eq_ok hmake)
    rw [Filter.runOn_load] at hf
    obtain ⟨bs, hbs, hf⟩ := Except.of_bind_eq_ok hf
    cases hread : world.files.read path with
    | error fault => rw [hread] at hbs; cases hbs
    | ok bs' =>
      rw [hread] at hbs
      cases hbs
      rw [asked?, hread]
      exact serializedSize_of_decode hf
  | clone i =>
    rw [asked?, Heap.item?_eq_ok_iff.1 hmake]
    rfl
  | dup i =>
    obtain ⟨source, hsource, rfl⟩ := Except.of_map_eq_ok hmake
    rw [asked?, Heap.item?_eq_ok_iff.1 hsource, Item.length_content_thawed]
    rfl
  | merge entry makesNew op i j =>
    obtain ⟨f, hf, hmake⟩ := Except.of_bind_eq_ok hmake
    obtain ⟨g, -, hmake⟩ := Except.of_bind_eq_ok hmake
    obtain ⟨m, hm, rfl⟩ := Except.of_map_eq_ok (Refusal.of_lift_eq_ok hmake)
    rw [asked?, Heap.filter?_eq_ok_iff.1 hf]
    exact congrArg some (Filter.size_combine (Filter.Entry.of_run_eq_ok hm)).symm

theorem make_of_asked_zero {origin : Origin} (hasked : origin.asked? h = some 0) :
    ∃ refusal, origin.make h = .error refusal := by
  cases hmake : origin.make h with
  | error refusal => exact ⟨refusal, rfl⟩
  | ok item =>
    have hpos := item.length_content_pos
    have hzero := Option.some.inj ((asked_of_make hmake).symm.trans hasked)
    omega

end Origin

end DigestFilter
