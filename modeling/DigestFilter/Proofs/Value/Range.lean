import DigestFilter.Proofs.Value.Heap
import DigestFilter.Proofs.Value.InPlace

/-!
# Nothing out of range

Every value has some bytes from the moment it is made, and never more or fewer. That is all that
the arithmetic on lengths needs, with bitmaps short enough for their bits to be counted in 64 bits:
no divisor is zero, and what is read, cut or copied lies inside.
-/

namespace DigestFilter.Heap

open Checked

variable {i : Nat} {item : Item}

theorem length_run {h : Heap} (hi : h[i]? = some item) (calls : List Call) :
    ∃ item' : Item, (h.run calls)[i]? = some item' ∧
      item'.kind = item.kind ∧ item'.content.length = item.content.length := by
  obtain ⟨item', hi', hitem⟩ := h.becomes_run calls i item hi
  exact ⟨item', hi', hitem.kind_eq, hitem.length_eq⟩

/-- Whatever calls are made, no value is ever accessed out of range. -/
theorem never_out_of_range :
    (∀ (calls : List Call) (i : Nat) (item : Item), (run [] calls)[i]? = some item →
      0 < item.content.length ∧
      (∃ before origin, Call.make origin ∈ calls ∧
        origin.asked? before = some item.content.length) ∧
      ∀ more, ∃ item' : Item, (run [] (calls ++ more))[i]? = some item' ∧
        item'.kind = item.kind ∧ item'.content.length = item.content.length) ∧
    (∀ (h : Heap) (origin : Origin), origin.asked? h = some 0 →
      ∃ refusal, origin.make h = .error refusal) ∧
    (∀ f : Filter, f.size < 2 ^ 61 →
      bitSize f.bitmap = .ok f.bitSize ∧
      (∀ code, position f.bitmap code = .ok (f.position code) ∧ f.position code / 8 < f.size) ∧
      (∀ codes : List UInt32, hasCodes f.bitmap codes = .ok (f.contains codes)) ∧
      ∀ c : Filter.Change, (c.routine f.frozen).runOn f.bitmap =
        Routine.ending Filter.bitmap f (c.apply f)) ∧
    (∀ x : Identifier,
      hashCode x.digest = .ok x.hashCode ∧ hashCodes x.digest = .ok (hashes x) ∧
      short x.digest = .ok x.short ∧
      ∀ c : Identifier.Change, (c.routine x.frozen).runOn x.digest =
        Routine.ending Identifier.digest x (c.apply x)) ∧
    (∀ (a : Alphabet) (text : String) (size : Nat),
      decode a text size = refuse (Identifier.decode a text size)) ∧
    (∀ bs : List UInt8, decodeFilter bs = refuse (Filter.decode bs)) := by
  refine ⟨?_, fun h _ => Origin.make_of_asked_zero, ?_, ?_, decode_eq, decodeFilter_eq⟩
  · intro calls i item hi
    refine ⟨item.length_content_pos, exists_origin hi, ?_⟩
    intro more
    rw [run_append]
    exact length_run hi more
  · intro f h
    exact ⟨bitSize_eq h, fun code => ⟨position_eq h code, position_div_lt f code⟩,
      hasCodes_eq h, fun c => c.runOn_routine h⟩
  · intro x
    exact ⟨hashCode_eq x, hashCodes_eq x, short_eq x, fun c => c.runOn_routine x⟩

def twoValues : List Call :=
  [.make (.zeroed .filter 2), .make (.ofBytes .identifier [7, 0, 1]), .changeFilter 0 (.set 3 true)]

def emptyHeaded : List UInt8 := [0x01, 0xBC, 0, 0, 0, 0, 0, 0, 0, 0]

theorem never_out_of_range_twoValues :
    ((run [] twoValues)[0]? = some (.filter ⟨[8, 0], false, by decide⟩) ∧ 0 < [8, 0].length ∧
      ∃ item' : Item, (run [] (twoValues ++ [.freeze 0, .changeFilter 0 .clear]))[0]? = some item' ∧
        item'.kind = .filter ∧ item'.content.length = 2) ∧
    ((Origin.serialized emptyHeaded).asked? [] = some 0 ∧
      ∃ refusal, (Origin.serialized emptyHeaded).make [] = .error refusal) ∧
    ((Origin.numeral .base16 "0" 0).asked? [] = some 0 ∧
      ∃ refusal, (Origin.numeral .base16 "0" 0).make [] = .error refusal) ∧
    (2 < 2 ^ 61 ∧ position [8, 0] 19 = .ok 3 ∧
      hasCodes [8, 0] [19, 35] = .ok true ∧
      ((Filter.Change.insert [(9 : UInt32)]).routine false).runOn [8, 0] = (.ok (), [8, 2])) := by
  obtain ⟨hvalues, hrefused, hfilter, -⟩ := never_out_of_range
  have hfirst : (run [] twoValues)[0]? = some (.filter ⟨[8, 0], false, by decide⟩) := rfl
  obtain ⟨hpos, -, hkeeps⟩ := hvalues twoValues 0 _ hfirst
  obtain ⟨-, hposition, hcodes, hroutine⟩ := hfilter ⟨[8, 0], false, by decide⟩ (by decide)
  exact ⟨⟨hfirst, hpos, hkeeps _⟩, ⟨rfl, hrefused _ _ rfl⟩, ⟨rfl, hrefused _ _ rfl⟩,
    by decide, (hposition 19).1, hcodes [19, 35], hroutine (.insert [(9 : UInt32)])⟩

end DigestFilter.Heap
