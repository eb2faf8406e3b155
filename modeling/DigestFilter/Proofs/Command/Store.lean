import Mathlib.Algebra.Group.Nat.Defs
import Mathlib.Logic.Function.Basic
import DigestFilter.Command.Run
import DigestFilter.Proofs.Filter.Insertion

/-!
# A store of bitmaps

What the filter commands come to when there are no files, no headers and no documents: a bitmap
under every path that has been written, and for every command the bitmap that it writes, if it
writes one.
-/

namespace DigestFilter

namespace Bitmap

def position (bs : List UInt8) (code : UInt32) : Nat := code.toNat % (8 * bs.length)

/-- The bitmap with the bits of some hash codes set as well. -/
def mark (codes : List UInt32) (bs : List UInt8) : List UInt8 :=
  (codes.map (position bs)).foldl (fun bs i => put true i bs) bs

def hasAll (bs : List UInt8) (codes : List UInt32) : Bool :=
  codes.all fun code => get? bs (position bs code) == some true

variable {bs : List UInt8} {codes : List UInt32}

theorem length_mark : (mark codes bs).length = bs.length := Filter.length_foldl_put _ _

theorem get?_mark (h : bs ≠ []) {i : Nat} :
    get? (mark codes bs) i = some true ↔
      get? bs i = some true ∨ ∃ code ∈ codes, position bs code = i := by
  have hlen : 0 < bs.length := List.length_pos_iff.2 h
  rw [mark, Filter.get?_foldl_put, ← List.mem_map]
  by_cases hi : i ∈ codes.map (position bs)
  · obtain ⟨code, -, rfl⟩ := List.mem_map.1 hi
    have hlt : position bs code < 8 * bs.length := Nat.mod_lt _ (by omega)
    obtain ⟨b, hb⟩ := Option.isSome_iff_exists.1 (isSome_get?_iff.2 hlt)
    simp [hi, hb]
  · simp [hi]

theorem hasAll_iff : hasAll bs codes = true ↔
    ∀ code ∈ codes, get? bs (position bs code) = some true := by
  simp [hasAll]

theorem hasAll_mark (h : bs ≠ []) {wanted : List UInt32} (hwanted : ∀ code ∈ wanted, code ∈ codes) :
    hasAll (mark codes bs) wanted = true := by
  rw [hasAll_iff]
  intro code hcode
  rw [get?_mark h, position, length_mark]
  exact .inr ⟨code, hwanted code hcode, rfl⟩

end Bitmap

abbrev Store := String → Option (List UInt8)

namespace FilterCommand

def paths : FilterCommand → List String
  | .create path _ | .insert path _ _ | .check path _ | .info path => [path]
  | .merge a b _ output => [a, b, output]

/-- Where the command writes a filter, if it is one that does. -/
def target? : FilterCommand → Option String
  | .create path _ | .insert path _ _ => some path
  | .merge _ _ _ output => some output
  | .check _ _ | .info _ => none

/-- What an insertion inserts. `inputs` are the files that can be read. -/
def inserted? (inputs : String → Option (List UInt8)) (ids files : List String) :
    Option (List Identifier) := do
  let parsed ← ids.mapM fun id => (Identifier.parse id).toOption
  let named ← files.mapM fun file => (inputs file).map Identifier.ofContent
  return parsed ++ named

def written? (config : Config) (inputs : String → Option (List UInt8)) (store : Store) :
    FilterCommand → Option (List UInt8)
  | .create _ capacity =>
    let size := capacity.getD config.defaultCapacity.toNat
    if size = 0 then none else some (List.replicate size 0)
  | .insert path ids files => do
    let bs ← store path
    return Bitmap.mark (codes (← inserted? inputs ids files)) bs
  | .merge a b op _ => do
    let left ← store a
    let right ← store b
    if left.length = right.length then return List.zipWith op.apply left right else none
  | .check _ _ | .info _ => none

/-- The store after the command. One that fails changes nothing. -/
def storeAfter (config : Config) (inputs : String → Option (List UInt8)) (store : Store)
    (c : FilterCommand) : Store :=
  match c.target?, c.written? config inputs store with
  | some path, some bs => Function.update store path (some bs)
  | _, _ => store

theorem isSome_storeAfter {config : Config} {inputs : String → Option (List UInt8)} {store : Store}
    {c : FilterCommand} {path : String} :
    (c.storeAfter config inputs store path).isSome ↔
      (store path).isSome ∨ c.target? = some path ∧ (c.written? config inputs store).isSome := by
  rw [storeAfter]
  cases c.target? with
  | none => simp
  | some target =>
    cases c.written? config inputs store with
    | none => simp
    | some bs =>
      by_cases hpath : path = target
      · simp [hpath]
      · simp [hpath, Ne.symm hpath]

def checkAnswer (bs : List UInt8) (ids : List String) : Json × Nat :=
  match ids.mapM Identifier.parse with
  | .error e => (.object [(some "message", .ofText e.message), (some "status", .ofText "error")], 2)
  | .ok xs => (
    .object [
      (some "count", .ofNat xs.length),
      (some "results", .array (xs.map fun x => .object [
        (some "id", .ofText x.toHex), (some "present", .bool (Bitmap.hasAll bs (hashes x)))]))],
    if xs.all fun x => Bitmap.hasAll bs (hashes x) then 0 else 1)

def infoDocument (path : String) (bs : List UInt8) : Json :=
  .object [
    (some "bitsize", .ofNat (8 * bs.length)),
    (some "bytesize", .ofNat bs.length),
    (some "empty", .bool (bs.all (· == 0))),
    (some "path", .ofText path),
    (some "space", .ofFloat (Float.ofNat (Bitmap.zeroCount bs) / Float.ofNat (8 * bs.length)))]

/-- No process can hold 2^63 bytes, so no new filter has that many. -/
def FitsMemory (config : Config) : FilterCommand → Prop
  | .create _ capacity => capacity.getD config.defaultCapacity.toNat < 2 ^ 63
  | _ => True

end FilterCommand

end DigestFilter
