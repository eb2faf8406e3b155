import DigestFilter.Proofs.Value.Change
import DigestFilter.Proofs.Value.Checked

/-!
# Changes in place

A change is carried out on the bytes where they are, one after another, and when it stops early
what it has written stays. Every change carried out in this way ends as it should: a change that is
refused has not written anything, and one that goes through leaves exactly the bytes of the changed
value. No step of it goes out of range.
-/

namespace DigestFilter

abbrev Routine (α : Type) := ExceptT Stop (StateM (List UInt8)) α

namespace Routine

variable {α β : Type}

/-- How a routine ends on some bytes, and the bytes it leaves. -/
def runOn (r : Routine α) (bs : List UInt8) : Checked α × List UInt8 := r.run.run bs

def check (c : Checked α) : Routine α := liftM c

def ensureThawed (kind : Freezable) (frozen : Bool) : Routine Unit :=
  if frozen then throw (.refused (.frozen kind)) else pure ()

def rewrite (i : Nat) (change : UInt8 → Checked UInt8) : Routine Unit := do
  let b ← check (Checked.at? (← get) i)
  let b' ← check (change b)
  modify (·.set i b')

/-! ## Running -/

theorem runOn_bind (r : Routine α) (k : α → Routine β) (bs : List UInt8) :
    (r >>= k).runOn bs = match r.runOn bs with
      | (.ok a, bs') => (k a).runOn bs'
      | (.error s, bs') => (.error s, bs') := by
  simp only [runOn, ExceptT.run_bind, StateT.run_bind]
  rcases r.run.run bs with ⟨_ | _, _⟩ <;> rfl

theorem runOn_check (c : Checked α) (bs : List UInt8) : (check c).runOn bs = (c, bs) := by
  cases c <;> rfl

theorem runOn_get_bind (k : List UInt8 → Routine β) (bs : List UInt8) :
    (get >>= k).runOn bs = (k bs).runOn bs := rfl

theorem runOn_modify (change : List UInt8 → List UInt8) (bs : List UInt8) :
    (modify change : Routine Unit).runOn bs = (.ok (), change bs) := rfl

theorem runOn_ensureThawed_bind {kind : Freezable} {frozen : Bool} (k : Unit → Routine β)
    (bs : List UInt8) :
    (ensureThawed kind frozen >>= k).runOn bs =
      if frozen then (.error (.refused (.frozen kind)), bs) else (k ()).runOn bs := by
  cases frozen <;> rfl

theorem runOn_rewrite {i : Nat} {change : UInt8 → Checked UInt8} {bs : List UInt8} {b b' : UInt8}
    (hb : bs[i]? = some b) (hchange : change b = .ok b') :
    (rewrite i change).runOn bs = (.ok (), bs.set i b') := by
  rw [rewrite, runOn_get_bind, Checked.at?_of_getElem? hb, runOn_bind, runOn_check]
  simp only [runOn_bind, runOn_check, hchange, runOn_modify]

end Routine

/-! ## Identifiers -/

namespace Identifier.Change

open Routine

def routine (frozen : Bool) : Change → Routine Unit
  | .set index byte => do
    ensureThawed .identifier frozen
    let size := (← get).length
    if size ≤ index then throw (.refused (.outOfBounds index size))
    else rewrite index fun _ => .ok byte
  | .clear => do
    ensureThawed .identifier frozen
    modify (·.map fun _ => 0)
  | .fill byte => do
    ensureThawed .identifier frozen
    modify (·.map fun _ => byte)

end Identifier.Change

namespace Filter.Change

open Routine

def putBit (value : Bool) (index : Nat) : Routine Unit :=
  rewrite (index / 8) fun b => do
    let m ← Checked.mask (index % 8)
    return if value then b ||| m else b &&& ~~~m

def putCodes (bits : Nat) : List UInt32 → Routine Unit
  | [] => pure ()
  | code :: codes => do
    putBit true (← check (Checked.rem code.toNat bits))
    putCodes bits codes

def combineFrom (op : MergeOp) (i : Nat) : List UInt8 → Routine Unit
  | [] => pure ()
  | b :: bs => do
    rewrite i fun a => .ok (op.apply a b)
    combineFrom op (i + 1) bs

def combineWith (frozen : Bool) (op : MergeOp) (bs : List UInt8) : Routine Unit := do
  ensureThawed .filter frozen
  let size := (← get).length
  if bs.length = size then combineFrom op 0 bs
  else throw (.refused (.sizeMismatch size bs.length))

def routine (frozen : Bool) : Change → Routine Unit
  | @insert _ _ y => do
    ensureThawed .filter frozen
    putCodes (← check (Checked.bitSize (← get))) (hashes y)
  | .set index value => do
    ensureThawed .filter frozen
    let size ← check (Checked.bitSize (← get))
    if (← get).length ≤ index / 8 then throw (.refused (.outOfBounds index size))
    else putBit value index
  | .clear => do
    ensureThawed .filter frozen
    modify (·.map fun _ => 0)
  | .merge _ _ op right => combineWith frozen op right.bitmap
  | .mergeBytes bs op => combineWith frozen op bs

end Filter.Change

/-! ## How changes end -/

/-- How a change in place should end: with changed bytes, or refused with the bytes as they were. -/
def Routine.ending {α : Type} (bytes : α → List UInt8) (x : α) :
    Except Error α → Checked Unit × List UInt8
  | .ok y => (.ok (), bytes y)
  | .error e => (.error (.refused e), bytes x)

open Routine

theorem Identifier.Change.runOn_routine (c : Change) (x : Identifier) :
    (c.routine x.frozen).runOn x.digest = ending digest x (c.apply x) := by
  cases c with
  | set index byte =>
    rw [routine, runOn_ensureThawed_bind, runOn_get_bind, apply, Identifier.set, Identifier.size]
    split
    · rfl
    dsimp only
    by_cases hindex : x.digest.length ≤ index
    · rw [if_pos hindex, if_pos hindex]
      rfl
    · have hb := List.getElem?_eq_getElem (Nat.not_le.1 hindex)
      have hstep : (rewrite index fun _ => .ok byte).runOn x.digest =
          (.ok (), x.digest.set index byte) := runOn_rewrite hb rfl
      rw [if_neg hindex, if_neg hindex, hstep]
      rfl
  | clear | fill =>
    rw [routine, runOn_ensureThawed_bind]
    cases hf : x.frozen <;>
      simp [apply, Identifier.clear, Identifier.fill, hf, ending, runOn_modify]

namespace Filter.Change

theorem set_eq_modify {bs : List UInt8} {i : Nat} {b : UInt8} (h : bs[i]? = some b)
    (change : UInt8 → UInt8) : bs.set i (change b) = bs.modify i change := by
  apply List.ext_getElem?
  intro j
  rw [List.getElem?_set, List.getElem?_modify]
  by_cases hij : i = j
  · subst hij
    obtain ⟨hi, rfl⟩ := List.getElem?_eq_some_iff.1 h
    simp [hi]
  · simp [hij]

theorem runOn_putBit {index : Nat} {bs : List UInt8} (value : Bool)
    (h : index / 8 < bs.length) :
    (putBit value index).runOn bs = (.ok (), Bitmap.put value index bs) := by
  have hb := List.getElem?_eq_getElem h
  have hk : index % 8 < 8 := Nat.mod_lt _ (by decide)
  have hchange : (do
      let m ← Checked.mask (index % 8)
      return if value then bs[index / 8] ||| m else bs[index / 8] &&& ~~~m) =
        Except.ok (Bitmap.putBit value (index % 8) bs[index / 8]) := by
    rw [Checked.mask_of_lt hk]
    rfl
  rw [putBit, runOn_rewrite hb hchange, set_eq_modify hb]
  rfl

theorem runOn_putCodes {n : Nat} (hn : 0 < n) (codes : List UInt32) {bs : List UInt8}
    (hlen : bs.length = n) :
    (putCodes (8 * n) codes).runOn bs =
      (.ok (), (codes.map (·.toNat % (8 * n))).foldl (fun bs i => Bitmap.put true i bs) bs) := by
  induction codes generalizing bs with
  | nil => rfl
  | cons code codes ih =>
    have hlt : code.toNat % (8 * n) < 8 * n := Nat.mod_lt _ (by omega)
    rw [putCodes, Checked.rem_of_pos (by omega), runOn_bind, runOn_check]
    simp only [runOn_bind, runOn_putBit true (show code.toNat % (8 * n) / 8 < bs.length by omega)]
    rw [ih (by rw [Bitmap.length_put, hlen])]
    rfl

theorem runOn_combineFrom (op : MergeOp) (done : List UInt8) {as bs : List UInt8}
    (h : as.length = bs.length) :
    (combineFrom op done.length bs).runOn (done ++ as) =
      (.ok (), done ++ List.zipWith op.apply as bs) := by
  -- The bytes that are done stand in front of those that are left.
  induction bs generalizing done as with
  | nil =>
    rw [List.length_eq_zero_iff.1 h]
    rfl
  | cons b bs ih =>
    match as, h with
    | a :: as, h =>
      have ha : (done ++ a :: as)[done.length]? = some a := by simp
      have hset : (done ++ a :: as).set done.length (op.apply a b) =
          (done ++ [op.apply a b]) ++ as := by simp
      have hlen : done.length + 1 = (done ++ [op.apply a b]).length := by simp
      have hstep : (rewrite done.length fun a => .ok (op.apply a b)).runOn (done ++ a :: as) =
          (.ok (), (done ++ a :: as).set done.length (op.apply a b)) := runOn_rewrite ha rfl
      rw [combineFrom, runOn_bind, hstep]
      simp only [hset, hlen]
      rw [ih _ (by simpa using h), List.zipWith_cons_cons, List.append_assoc]
      rfl

theorem runOn_combineWith (f : Filter) (op : MergeOp) (bs : List UInt8) :
    (combineWith f.frozen op bs).runOn f.bitmap = ending bitmap f (f.combine bs op) := by
  have hsize : f.size = f.bitmap.length := rfl
  rw [combineWith, runOn_ensureThawed_bind, runOn_get_bind, combine]
  split
  · rfl
  dsimp only
  by_cases h : bs.length = f.bitmap.length
  · rw [if_pos h, dif_pos (h.trans hsize.symm)]
    exact runOn_combineFrom op [] h.symm
  · rw [if_neg h, dif_neg (fun he => h (he.trans hsize))]
    rfl

theorem runOn_routine (c : Change) {f : Filter} (h : f.size < 2 ^ 61) :
    (c.routine f.frozen).runOn f.bitmap = ending bitmap f (c.apply f) := by
  cases c with
  | insert y =>
    rw [routine, runOn_ensureThawed_bind, apply, Filter.insert, runOn_get_bind,
      Checked.bitSize_eq h, runOn_bind, runOn_check]
    split
    · rfl
    · exact runOn_putCodes f.size_pos (hashes y) rfl
  | set index value =>
    rw [routine, runOn_ensureThawed_bind, apply, Filter.set, runOn_get_bind,
      Checked.bitSize_eq h, runOn_bind, runOn_check]
    split
    · rfl
    simp only [runOn_get_bind]
    have hbits : f.bitmap.length ≤ index / 8 ↔ f.bitSize ≤ index := by
      rw [bitSize, Filter.size]
      omega
    split
    · next hindex =>
      rw [if_pos (hbits.1 hindex)]
      rfl
    · next hindex =>
      rw [if_neg (mt hbits.2 hindex)]
      exact runOn_putBit value (Nat.not_le.1 hindex)
  | clear =>
    rw [routine, runOn_ensureThawed_bind, apply, Filter.clear]
    split <;> rfl
  | merge entry inPlace op right =>
    rw [apply_merge]
    exact runOn_combineWith f op right.bitmap
  | mergeBytes bs op => exact runOn_combineWith f op bs

end Filter.Change

end DigestFilter
