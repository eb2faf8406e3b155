import DigestFilter.Identifier.Text
import DigestFilter.Proofs.Filter.Header
import DigestFilter.Proofs.Filter.Insertion

/-!
# Arithmetic that can go out of range

Bits are looked up, hash codes are taken and bytes are cut by arithmetic on lengths. Here it is done
step by step on plain lists of bytes, and each step is checked: a product has to fit 64 bits, a
difference must not be negative, a divisor must not be zero, and what is read, cut or copied has to
lie inside. For bytes that are not empty, and short enough for their bits to be counted in 64 bits,
no check fails and the answers are the usual ones.
-/

namespace DigestFilter

inductive Panic where
  | overflow
  | divisionByZero
  | outOfRange
  deriving DecidableEq, Repr

/-- How work ends early: with an error that is meant for the caller, or out of range. -/
inductive Stop where
  | refused (error : Error)
  | panicked (panic : Panic)
  deriving DecidableEq, Repr

abbrev Checked (α : Type) := Except Stop α

namespace Checked

variable {α β : Type}

/-! ## Steps -/

def refuse : Except Error α → Checked α
  | .ok a => .ok a
  | .error e => .error (.refused e)

def mul (a b : Nat) : Checked Nat :=
  if a * b < UInt64.size then .ok (a * b) else .error (.panicked .overflow)

def sub (a b : Nat) : Checked Nat :=
  if b ≤ a then .ok (a - b) else .error (.panicked .overflow)

def rem (a b : Nat) : Checked Nat :=
  if b = 0 then .error (.panicked .divisionByZero) else .ok (a % b)

def mask (k : Nat) : Checked UInt8 :=
  if k < 8 then .ok (Bitmap.mask k) else .error (.panicked .overflow)

def at? (xs : List α) (i : Nat) : Checked α :=
  match xs[i]? with
  | some x => .ok x
  | none => .error (.panicked .outOfRange)

def slice (xs : List α) (start stop : Nat) : Checked (List α) :=
  if start ≤ stop ∧ stop ≤ xs.length then .ok ((xs.take stop).drop start)
  else .error (.panicked .outOfRange)

/-- Copies `ys` over the slice from `start` to `stop`, which has to be of that length. -/
def copyOver (xs : List α) (start stop : Nat) (ys : List α) : Checked (List α) := do
  let there ← slice xs start stop
  if there.length = ys.length then .ok (xs.take start ++ ys ++ xs.drop stop)
  else .error (.panicked .outOfRange)

theorem bind_ok (a : α) (k : α → Checked β) : (Except.ok a >>= k : Checked β) = k a := rfl

theorem rem_of_pos {a b : Nat} (h : 0 < b) : rem a b = .ok (a % b) := if_neg (by omega)

theorem sub_of_le {a b : Nat} (h : b ≤ a) : sub a b = .ok (a - b) := if_pos h

theorem mask_of_lt {k : Nat} (h : k < 8) : mask k = .ok (Bitmap.mask k) := if_pos h

theorem at?_of_getElem? {xs : List α} {i : Nat} {x : α} (h : xs[i]? = some x) :
    at? xs i = .ok x := by
  simp [at?, h]

theorem slice_of_le {xs : List α} {start stop : Nat} (h : start ≤ stop) (hstop : stop ≤ xs.length) :
    slice xs start stop = .ok ((xs.take stop).drop start) := if_pos ⟨h, hstop⟩

theorem slice_zero {xs : List α} {stop : Nat} (h : stop ≤ xs.length) :
    slice xs 0 stop = .ok (xs.take stop) := slice_of_le (Nat.zero_le _) h

theorem copyOver_of_length {xs ys : List α} {start stop : Nat} (h : start ≤ stop)
    (hstop : stop ≤ xs.length) (hys : ys.length = stop - start) :
    copyOver xs start stop ys = .ok (xs.take start ++ ys ++ xs.drop stop) := by
  have hlen : ((xs.take stop).drop start).length = ys.length := by
    rw [List.length_drop, List.length_take]
    omega
  rw [copyOver, slice_of_le h hstop, bind_ok, if_pos hlen]

/-! ## Bits -/

def bitSize (bs : List UInt8) : Checked Nat := mul bs.length 8

def position (bs : List UInt8) (code : UInt32) : Checked Nat := do
  rem code.toNat (← bitSize bs)

def hasCode (bs : List UInt8) (code : UInt32) : Checked Bool := do
  let i ← position bs code
  let b ← at? bs (i / 8)
  return (b &&& (← mask (i % 8))) != 0

def hasCodes (bs : List UInt8) : List UInt32 → Checked Bool
  | [] => return true
  | code :: codes => do
    if ← hasCode bs code then hasCodes bs codes else return false

theorem and_mask_ne_zero {k : Nat} (hk : k < 8) (b : UInt8) :
    ((b &&& Bitmap.mask k) != 0) = b.toNat.testBit k := by
  have hbit : ∀ j, (b &&& Bitmap.mask k).toNat.testBit j =
      (b.toNat.testBit j && decide (k = j)) := by
    intro j
    rw [UInt8.toNat_and, Nat.testBit_and, Bitmap.testBit_mask hk]
  cases hb : b.toNat.testBit k with
  | false =>
    have hzero : b &&& Bitmap.mask k = 0 := by
      apply Bitmap.byte_ext
      intro j _
      rw [hbit]
      by_cases hj : k = j
      · subst hj
        simp [hb]
      · simp [hj]
    rw [hzero]
    rfl
  | true =>
    rw [bne_iff_ne]
    intro hzero
    have hk := hbit k
    rw [hzero, hb] at hk
    simp at hk

variable {f : Filter}

theorem bitSize_eq (h : f.size < 2 ^ 61) : bitSize f.bitmap = .ok f.bitSize := by
  have hlen : f.bitmap.length = f.size := rfl
  rw [bitSize, mul, hlen, if_pos (by show f.size * 8 < 2 ^ 64; omega), Nat.mul_comm]
  rfl

theorem position_eq (h : f.size < 2 ^ 61) (code : UInt32) :
    position f.bitmap code = .ok (f.position code) := by
  have hpos : 0 < f.bitSize := Nat.lt_of_le_of_lt (Nat.zero_le _) (f.position_lt code)
  rw [position, bitSize_eq h, bind_ok, rem_of_pos hpos]
  rfl

example : position [] 5 = .error (.panicked .divisionByZero) := rfl

theorem position_div_lt (f : Filter) (code : UInt32) : f.position code / 8 < f.size := by
  have hlt := f.position_lt code
  rw [Filter.bitSize] at hlt
  omega

theorem hasCode_eq (h : f.size < 2 ^ 61) (code : UInt32) :
    hasCode f.bitmap code = .ok (f.hasCode code) := by
  have hb := List.getElem?_eq_getElem (position_div_lt f code)
  have hk : f.position code % 8 < 8 := Nat.mod_lt _ (by decide)
  rw [hasCode, position_eq h, bind_ok, at?_of_getElem? hb, bind_ok, mask_of_lt hk, bind_ok,
    and_mask_ne_zero hk, Filter.hasCode, Filter.get?, Bitmap.get?, hb]
  simp
  rfl

theorem hasCodes_eq (h : f.size < 2 ^ 61) (codes : List UInt32) :
    hasCodes f.bitmap codes = .ok (codes.all f.hasCode) := by
  induction codes with
  | nil => rfl
  | cons code codes ih =>
    rw [hasCodes, hasCode_eq h, bind_ok, List.all_cons]
    cases f.hasCode code
    · rfl
    · exact ih

/-! ## Hash codes -/

def hashCode (digest : List UInt8) : Checked UInt32 := do
  let n := min digest.length 4
  let word ← copyOver [0, 0, 0, 0] 0 n (← slice digest 0 n)
  return Identifier.codeOf word

/-- Four bytes at a time; what does not fill a group is left out. -/
def groups : List UInt8 → List (List UInt8)
  | a :: b :: c :: d :: rest => [a, b, c, d] :: groups rest
  | _ => []

def groupCode (group : List UInt8) : Checked UInt32 := do
  return Identifier.codeOf [← at? group 0, ← at? group 1, ← at? group 2, ← at? group 3]

def hashCodes (digest : List UInt8) : Checked (List UInt32) := do
  if digest.length < 4 then return [← hashCode digest]
  else (groups digest).mapM groupCode

theorem hashCode_eq (x : Identifier) : hashCode x.digest = .ok x.hashCode := by
  have hn : min x.digest.length 4 ≤ x.digest.length := Nat.min_le_left _ _
  have hword : min x.digest.length 4 ≤ [(0 : UInt8), 0, 0, 0].length := Nat.min_le_right _ _
  have htake : x.digest.take (min x.digest.length 4) = x.digest.take 4 := by
    rw [Nat.min_comm, ← List.take_take, List.take_length]
  have hlen : (x.digest.take 4).length = min x.digest.length 4 - 0 := by
    rw [List.length_take, Nat.sub_zero, Nat.min_comm]
  rw [hashCode, slice_zero hn, htake, bind_ok, copyOver_of_length (Nat.zero_le _) hword hlen,
    bind_ok, List.take_zero, List.nil_append, Identifier.hashCode, Identifier.codeOf,
    show [(0 : UInt8), 0, 0, 0] = List.replicate 4 0 from rfl, List.drop_replicate,
    Identifier.codeOf, LittleEndian.value_append_zeros]
  rfl

theorem mapM_groupCode (digest : List UInt8) :
    (groups digest).mapM groupCode = .ok (Identifier.groupCodes digest) := by
  induction digest using groups.induct with
  | case1 a b c d rest ih =>
    rw [groups, List.mapM_cons, ih, Identifier.groupCodes]
    rfl
  | case2 digest h =>
    rw [groups, Identifier.groupCodes]
    · rfl
    · exact h
    · exact h

theorem hashCodes_eq (x : Identifier) : hashCodes x.digest = .ok (hashes x) := by
  have hsize : x.digest.length = x.size := rfl
  rw [hashCodes, hsize, Identifier.hashes_eq]
  split
  · rw [hashCode_eq]
    rfl
  · exact mapM_groupCode x.digest

/-! ## Texts -/

def short (digest : List UInt8) : Checked String := do
  let hex := Hex.encode digest
  return String.ofList (← slice hex 0 (min hex.length 7))

theorem short_eq (x : Identifier) : short x.digest = .ok x.short := by
  have htake : (Hex.encode x.digest).take (min (Hex.encode x.digest).length 7) =
      (Hex.encode x.digest).take 7 := by
    rw [Nat.min_comm, ← List.take_take, List.take_length]
  rw [short, slice_zero (Nat.min_le_left _ _), htake]
  rfl

def decode (a : Alphabet) (text : String) (size : Nat) : Checked Identifier := do
  let bs := Identifier.bytesOfNat (← refuse (a.decode text))
  if size < bs.length then .error (.refused (.format (.wideNumeral a.name bs.length size)))
  else
    let start ← sub size bs.length
    refuse (Identifier.ofBytes (← copyOver (List.replicate size 0) start size bs))

theorem decode_eq (a : Alphabet) (text : String) (size : Nat) :
    decode a text size = refuse (Identifier.decode a text size) := by
  rw [decode, Identifier.decode]
  rcases a.decode text with e | n
  · rfl
  show (if size < (Identifier.bytesOfNat n).length then _ else _) = refuse (if _ then _ else _)
  split
  · rfl
  · next hfits =>
    have hle : (Identifier.bytesOfNat n).length ≤ size := Nat.not_lt.1 hfits
    have hlen : (Identifier.bytesOfNat n).length =
        size - (size - (Identifier.bytesOfNat n).length) := by omega
    rw [sub_of_le hle, bind_ok, copyOver_of_length (Nat.sub_le _ _) (by simp) hlen, bind_ok,
      List.take_replicate, List.drop_replicate, Nat.sub_self, Nat.min_eq_left (Nat.sub_le _ _)]
    simp

/-! ## Filters in bytes -/

def declared (bs : List UInt8) : Checked Nat := do
  return LittleEndian.value [← at? bs 2, ← at? bs 3, ← at? bs 4, ← at? bs 5, ← at? bs 6,
    ← at? bs 7, ← at? bs 8, ← at? bs 9]

def isHeaded (bs : List UInt8) : Checked Bool := do
  if 10 ≤ bs.length then
    if (← slice bs 0 2) = Filter.magic then
      return (← declared bs) == (← sub bs.length 10)
    else return false
  else return false

def decodeFilter (bs : List UInt8) : Checked Filter := do
  let plain ← if ← isHeaded bs then slice bs 2 bs.length else pure bs
  refuse (Filter.read.runOn plain).1

theorem declared_eq {bs : List UInt8} (h : 10 ≤ bs.length) :
    declared bs = .ok (LittleEndian.value ((bs.drop 2).take 8)) := by
  match bs, h with
  | _ :: _ :: _ :: _ :: _ :: _ :: _ :: _ :: _ :: _ :: _, _ => rfl

theorem isHeaded_eq (bs : List UInt8) : isHeaded bs = .ok (Filter.isHeaded bs) := by
  rw [isHeaded, Filter.isHeaded]
  by_cases hlen : 10 ≤ bs.length
  · rw [if_pos hlen, slice_zero (by omega), bind_ok, declared_eq hlen, sub_of_le hlen,
      decide_eq_true hlen, Bool.true_and]
    by_cases hmagic : bs.take 2 = Filter.magic
    · rw [if_pos hmagic, beq_iff_eq.2 hmagic, Bool.true_and]
      rfl
    · rw [if_neg hmagic, beq_false_of_ne hmagic, Bool.false_and]
      rfl
  · rw [if_neg hlen, decide_eq_false hlen, Bool.false_and, Bool.false_and]
    rfl

theorem decodeFilter_eq (bs : List UInt8) : decodeFilter bs = refuse (Filter.decode bs) := by
  rw [decodeFilter, isHeaded_eq, bind_ok, Filter.decode]
  cases hheaded : Filter.isHeaded bs with
  | false => rfl
  | true =>
    have hlen := (Filter.isHeaded_iff.1 hheaded).1
    rw [if_pos rfl, slice_of_le (by omega) (Nat.le_refl _), List.take_length]
    rfl

end Checked

end DigestFilter
