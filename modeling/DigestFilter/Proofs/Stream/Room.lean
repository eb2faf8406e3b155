import Mathlib.Data.List.Induction
import DigestFilter.Proofs.Stream.Item

/-!
# Writing where there is little room

What a sink holds follows from the bytes that it was offered, whoever offered them and in however
many pieces: it has the first of them, as many as there is room for. So when items are written one
after another, an item is refused exactly when the items up to it do not fit, and what is there
after each item is always the beginning of the whole.
-/

namespace DigestFilter

namespace Sink

def clip (limit : Option Nat) (bs : List UInt8) : List UInt8 := limit.elim bs fun k => bs.take k

/-- An empty sink with this limit after it was offered these bytes. -/
def offered (limit : Option Nat) (bs : List UInt8) : Sink :=
  ⟨clip limit bs, limit.map (· - bs.length)⟩

variable {limit : Option Nat} {bs cs : List UInt8}

theorem offered_nil : offered limit [] = ⟨[], limit⟩ := by
  cases limit <;> simp [offered, clip]

theorem offered_put : ((offered limit bs).put cs).2 = offered limit (bs ++ cs) := by
  cases limit with
  | none => rfl
  | some k =>
    have hroom : k - bs.length - cs.length = k - (bs ++ cs).length := by
      rw [List.length_append]
      omega
    have hwritten : bs.take k ++ cs.take (k - bs.length) = (bs ++ cs).take k :=
      List.take_append.symm
    by_cases hfits : cs.length ≤ k - bs.length
    · have hall : cs.take (k - bs.length) = cs := List.take_of_length_le hfits
      rw [hall] at hwritten
      simp only [offered, clip, Option.elim_some, Option.map_some, put_of_room hfits, hwritten,
        hroom]
    · simp only [offered, clip, Option.elim_some, Option.map_some,
        put_of_no_room (Nat.lt_of_not_le hfits), hwritten, hroom]

theorem put_offered_eq_ok_iff (hcs : cs ≠ []) :
    ((offered limit bs).put cs).1 = .ok () ↔ ∀ k ∈ limit, (bs ++ cs).length ≤ k := by
  have hpos : 0 < cs.length := List.length_pos_iff.2 hcs
  cases limit with
  | none => simp [offered, put]
  | some k =>
    simp only [Option.mem_def, Option.some.injEq, forall_eq', List.length_append]
    by_cases hfits : cs.length ≤ k - bs.length
    · simp only [offered, Option.map_some, put_of_room hfits, true_iff]
      omega
    · simp only [offered, Option.map_some, put_of_no_room (Nat.lt_of_not_le hfits), reduceCtorEq,
        false_iff]
      omega

theorem put_eq_full_of_ne_ok {s : Sink} (h : (s.put bs).1 ≠ .ok ()) :
    (s.put bs).1 = .error (.device .full) := by
  rcases s with ⟨written, _ | k⟩
  · exact absurd rfl h
  · by_cases hfits : bs.length ≤ k
    · rw [put_of_room hfits] at h
      exact absurd rfl h
    · rw [put_of_no_room (Nat.lt_of_not_le hfits)]

end Sink

namespace Item

/-! ## One item -/

/-- Too long for its length field. A filter never is. -/
def Oversized : Item → Prop
  | .identifier x => 65535 < x.size
  | .filter _ => False

instance : DecidablePred Oversized
  | .identifier x => inferInstanceAs (Decidable (65535 < x.size))
  | .filter _ => inferInstanceAs (Decidable False)

/-- The complete encoding, of a filter in the form asked for. -/
def form (withHeader : Bool) : Item → List UInt8
  | .identifier x => Frame.encode 2 x.digest
  | .filter f => f.encode withHeader

variable {item : Item} {withHeader : Bool}

theorem form_ne_nil (item : Item) (withHeader : Bool) : item.form withHeader ≠ [] := by
  rw [← List.length_pos_iff]
  cases item with
  | identifier x =>
    rw [form, Frame.length_encode]
    omega
  | filter f =>
    have hframe := Frame.length_encode 8 f.bitmap
    rw [form, Filter.encode, List.length_append]
    omega

theorem write_of_oversized (h : item.Oversized) (s : Sink) :
    item.write withHeader s = (.error (.argument (.longDigest item.content.length)), s) := by
  cases item with
  | identifier x =>
    have hlong : LittleEndian.limit 2 ≤ x.size := h
    simp only [write, Identifier.write, Identifier.pieces, if_pos hlong]
    rfl
  | filter f => exact h.elim

theorem write_eq_put_form (h : ¬ item.Oversized) (s : Sink) :
    item.write withHeader s = s.put (item.form withHeader) := by
  cases item with
  | identifier x => exact Identifier.write_eq_put (Nat.lt_of_not_le h) s
  | filter f => exact Filter.write_eq_put f withHeader s

/-! ## Items in order -/

/-- What is to be written: the complete encodings one after another, without what is too long. -/
def stream (items : List (Item × Bool)) : List UInt8 :=
  (items.filter fun p => ¬ p.1.Oversized).flatMap fun p => p.1.form p.2

variable {limit : Option Nat} {before : List (Item × Bool)}

theorem stream_snoc_of_oversized (h : item.Oversized) :
    stream (before ++ [(item, withHeader)]) = stream before := by
  simp [stream, h]

theorem stream_snoc (h : ¬ item.Oversized) :
    stream (before ++ [(item, withHeader)]) = stream before ++ item.form withHeader := by
  simp [stream, h]

theorem writeAll_append (items more : List (Item × Bool)) (s : Sink) :
    writeAll (items ++ more) s =
      ((writeAll items s).1 ++ (writeAll more (writeAll items s).2).1,
        (writeAll more (writeAll items s).2).2) := by
  induction items generalizing s with
  | nil => rfl
  | cons p items ih => simp only [List.cons_append, writeAll, ih]

theorem length_writeAll (items : List (Item × Bool)) (s : Sink) :
    (writeAll items s).1.length = items.length := by
  induction items generalizing s with
  | nil => rfl
  | cons p items ih => simp only [writeAll, List.length_cons, ih]

theorem write_offered (item : Item) (withHeader : Bool) :
    (item.write withHeader (Sink.offered limit (stream before))).2 =
      Sink.offered limit (stream (before ++ [(item, withHeader)])) := by
  by_cases h : item.Oversized
  · rw [write_of_oversized h, stream_snoc_of_oversized h]
  · rw [write_eq_put_form h, stream_snoc h, Sink.offered_put]

theorem writeAll_offered (items : List (Item × Bool)) :
    (writeAll items ⟨[], limit⟩).2 = Sink.offered limit (stream items) := by
  induction items using List.reverseRecOn with
  | nil => exact Sink.offered_nil.symm
  | append_singleton before p ih =>
    rw [writeAll_append, ih]
    exact write_offered p.1 p.2

theorem write_offered_eq_ok_iff (h : ¬ item.Oversized) :
    (item.write withHeader (Sink.offered limit (stream before))).1 = .ok () ↔
      ∀ k ∈ limit, (stream (before ++ [(item, withHeader)])).length ≤ k := by
  rw [write_eq_put_form h, stream_snoc h]
  exact Sink.put_offered_eq_ok_iff (item.form_ne_nil withHeader)

theorem answer_writeAll {after : List (Item × Bool)} :
    (writeAll (before ++ (item, withHeader) :: after) ⟨[], limit⟩).1[before.length]? =
      some (item.write withHeader (writeAll before ⟨[], limit⟩).2).1 := by
  have hlen : (writeAll before ⟨[], limit⟩).1.length = before.length := length_writeAll _ _
  rw [writeAll_append, List.getElem?_append_right (Nat.le_of_eq hlen), hlen, Nat.sub_self]
  rfl

/-- Written items leave the first bytes of their encodings, as many as the limit allows. -/
theorem writing_keeps_a_prefix (limit : Option Nat) (items : List (Item × Bool)) :
    (writeAll items ⟨[], limit⟩).1.length = items.length ∧
    (writeAll items ⟨[], limit⟩).2.written = Sink.clip limit (stream items) ∧
    (∀ (before after : List (Item × Bool)) (item : Item) (withHeader : Bool),
      items = before ++ (item, withHeader) :: after →
      ∃ answer sink,
        item.write withHeader (writeAll before ⟨[], limit⟩).2 = (answer, sink) ∧
        (writeAll items ⟨[], limit⟩).1[before.length]? = some answer ∧
        (writeAll (before ++ [(item, withHeader)]) ⟨[], limit⟩).2 = sink ∧
        sink.written = Sink.clip limit (stream (before ++ [(item, withHeader)])) ∧
        (item.Oversized → answer = .error (.argument (.longDigest item.content.length)) ∧
          sink = (writeAll before ⟨[], limit⟩).2) ∧
        (¬ item.Oversized →
          (answer = .ok () ↔
            ∀ k ∈ limit, (stream (before ++ [(item, withHeader)])).length ≤ k) ∧
          (answer ≠ .ok () → answer = .error (.device .full)))) ∧
    (∀ (f : Filter) (withHeader : Bool),
      f.write withHeader {} = (.ok (), ⟨f.encode withHeader, none⟩)) := by
  refine ⟨length_writeAll _ _, ?_, ?_, ?_⟩
  · rw [writeAll_offered]
    rfl
  · rintro before after item withHeader rfl
    refine ⟨(item.write withHeader (writeAll before ⟨[], limit⟩).2).1,
      (item.write withHeader (writeAll before ⟨[], limit⟩).2).2, rfl, answer_writeAll,
      ?_, ?_, ?_, ?_⟩
    · rw [writeAll_append]
      rfl
    · rw [writeAll_offered, write_offered]
      rfl
    · intro h
      rw [write_of_oversized h]
      exact ⟨rfl, rfl⟩
    · intro h
      constructor
      · rw [writeAll_offered]
        exact write_offered_eq_ok_iff h
      · rw [write_eq_put_form h]
        exact Sink.put_eq_full_of_ne_ok
  · intro f withHeader
    exact Filter.write_eq_put f withHeader {}

def bulky : Item := .identifier ⟨List.replicate 65536 0, true, List.cons_ne_nil _ _⟩

theorem oversized_bulky : bulky.Oversized := by
  show 65535 < (List.replicate 65536 (0 : UInt8)).length
  rw [List.length_replicate]
  decide

def small : Item := .identifier ⟨[4, 5, 6], false, by decide⟩

def headed : Item := .filter ⟨[0xA5], false, by decide⟩

theorem writing_keeps_a_prefix_sevenBytes :
    (writeAll [(bulky, false), (small, false), (headed, true)] ⟨[], some 7⟩).2.written =
      [3, 0, 4, 5, 6, 0x01, 0xBC] ∧
    (bulky.Oversized ∧
      (writeAll [(bulky, false), (small, false), (headed, true)] ⟨[], some 7⟩).1[0]? =
        some (.error (.argument (.longDigest bulky.content.length)))) ∧
    (¬ small.Oversized ∧ (∀ k ∈ some 7, (stream [(bulky, false), (small, false)]).length ≤ k) ∧
      (writeAll [(bulky, false), (small, false), (headed, true)] ⟨[], some 7⟩).1[1]? =
        some (.ok ())) ∧
    (¬ headed.Oversized ∧
      (writeAll [(bulky, false), (small, false), (headed, true)] ⟨[], some 7⟩).1[2]? =
        some (.error (.device .full))) := by
  obtain ⟨-, hend, heach, -⟩ :=
    writing_keeps_a_prefix (some 7) [(bulky, false), (small, false), (headed, true)]
  have hsmall : ¬ small.Oversized := by decide
  have hheaded : ¬ headed.Oversized := by decide
  have htwo : stream [(bulky, false), (small, false)] = [3, 0, 4, 5, 6] := by
    simp only [stream, List.filter_cons, oversized_bulky, hsmall, not_true_eq_false,
      decide_false, not_false_eq_true, decide_true, List.filter_nil]
    decide
  have hthree : stream [(bulky, false), (small, false), (headed, true)] =
      [3, 0, 4, 5, 6] ++ headed.form true := by
    have hsnoc : stream ([(bulky, false), (small, false)] ++ [(headed, true)]) =
        stream [(bulky, false), (small, false)] ++ headed.form true := stream_snoc hheaded
    rwa [htwo] at hsnoc
  have hfits : ∀ k ∈ some 7, (stream [(bulky, false), (small, false)]).length ≤ k := by
    rw [htwo]
    decide
  obtain ⟨_, _, -, hfirst, -, -, hlong, -⟩ := heach [] _ bulky false rfl
  obtain ⟨_, _, -, hsecond, -, -, -, hok⟩ := heach [(bulky, false)] _ small false rfl
  obtain ⟨answer, _, -, hthird, -, -, -, hfull⟩ :=
    heach [(bulky, false), (small, false)] _ headed true rfl
  have hrefused : answer ≠ .ok () := by
    intro h
    have hroom := ((hfull hheaded).1.1 h) 7 rfl
    have hlen : (stream [(bulky, false), (small, false), (headed, true)]).length = 16 := by
      rw [hthree]
      decide
    have hle : (stream [(bulky, false), (small, false), (headed, true)]).length ≤ 7 := hroom
    omega
  refine ⟨?_, ⟨oversized_bulky, ?_⟩, ⟨hsmall, hfits, ?_⟩, hheaded, ?_⟩
  · rw [hend, hthree]
    decide
  · rw [(hlong oversized_bulky).1] at hfirst
    exact hfirst
  · rw [(hok hsmall).1.2 hfits] at hsecond
    exact hsecond
  · rw [(hfull hheaded).2 hrefused] at hthird
    exact hthird

end Item

end DigestFilter
