import Mathlib.Data.Finmap
import DigestFilter.IdSet

/-!
# Sets of identifiers as finite maps

A set of identifiers stands for a finite map from the digests of its members to their frozen flags.
Every call answers what the map answers and does to the members what it does to the map, so whole
runs do. Hash codes play no part in it: members are told apart by their digests alone.
-/

namespace DigestFilter

abbrev Flags := Finmap fun _ : List UInt8 => Bool

namespace IdSet

inductive Call where
  | insert (x : Identifier)
  | remove (x : Identifier)
  | replace (old : Identifier) (new : Option Identifier)
  | contains (x : Identifier)
  | size
  | isEmpty
  | clear

inductive Answer where
  | nothing
  | truth (b : Bool)
  | number (n : Nat)
  deriving DecidableEq

def step (s : IdSet) : Call → Answer × IdSet
  | .insert x => (.truth (s.add x).1, (s.add x).2)
  | .remove x => (.truth (s.remove x).1, (s.remove x).2)
  | .replace old new => (.nothing, s.replace old new)
  | .contains x => (.truth (s.contains x), s)
  | .size => (.number s.size, s)
  | .isEmpty => (.truth s.isEmpty, s)
  | .clear => (.nothing, empty)

def run (s : IdSet) : List Call → List Answer × IdSet
  | [] => ([], s)
  | call :: calls =>
    let (answer, s') := s.step call
    let (answers, s'') := run s' calls
    (answer :: answers, s'')

end IdSet

namespace Flags

/-- Adds what is not there yet; a flag that is there stays. -/
def add (m : Flags) (x : Identifier) : Flags :=
  if x.digest ∈ m then m else m.insert x.digest x.frozen

def replace (m : Flags) (old : Identifier) (new : Option Identifier) : Flags :=
  new.elim (m.erase old.digest) (add (m.erase old.digest))

def ofList (xs : List Identifier) : Flags := xs.foldl add ∅

def step (m : Flags) : IdSet.Call → IdSet.Answer × Flags
  | .insert x => (.truth (decide (x.digest ∉ m)), add m x)
  | .remove x => (.truth (decide (x.digest ∈ m)), m.erase x.digest)
  | .replace old new => (.nothing, replace m old new)
  | .contains x => (.truth (decide (x.digest ∈ m)), m)
  | .size => (.number m.keys.card, m)
  | .isEmpty => (.truth (decide (m = ∅)), m)
  | .clear => (.nothing, ∅)

def run (m : Flags) : List IdSet.Call → List IdSet.Answer × Flags
  | [] => ([], m)
  | call :: calls =>
    let (answer, m') := step m call
    let (answers, m'') := run m' calls
    (answer :: answers, m'')

/-! ## What stands under a digest -/

variable (m : Flags) (x : Identifier) (d : List UInt8)

theorem lookup_add : (add m x).lookup d =
    if d = x.digest then some ((m.lookup d).getD x.frozen) else m.lookup d := by
  rw [add]
  by_cases hx : x.digest ∈ m
  · obtain ⟨b, hb⟩ := Finmap.mem_iff.1 hx
    rw [if_pos hx]
    split
    · next hd => rw [hd, hb, Option.getD_some]
    · rfl
  · rw [if_neg hx]
    split
    · next hd => rw [hd, Finmap.lookup_insert, Finmap.lookup_eq_none.2 hx, Option.getD_none]
    · next hd => rw [Finmap.lookup_insert_of_ne _ hd]

theorem lookup_erase : (m.erase x.digest).lookup d =
    if d = x.digest then none else m.lookup d := by
  split
  · next hd => rw [hd, Finmap.lookup_erase]
  · next hd => rw [Finmap.lookup_erase_ne hd]

theorem lookup_replace (old new : Identifier) : (replace m old (some new)).lookup d =
    if d = new.digest then
      some (if new.digest = old.digest then new.frozen else (m.lookup d).getD new.frozen)
    else if d = old.digest then none
    else m.lookup d := by
  rw [replace, Option.elim_some, lookup_add, lookup_erase]
  by_cases hnew : d = new.digest
  · subst hnew
    by_cases hold : new.digest = old.digest <;> simp [hold]
  · simp [hnew]

theorem lookup_foldl_add (xs : List Identifier) : (xs.foldl add m).lookup d =
    (m.lookup d).or ((xs.find? (·.digest == d)).map Identifier.frozen) := by
  induction xs generalizing m with
  | nil => simp
  | cons x xs ih =>
    rw [List.foldl_cons, ih, lookup_add, List.find?_cons]
    by_cases hd : x.digest = d
    · simp only [hd, if_true, beq_self_eq_true, Option.some_or, Option.map_some]
      cases m.lookup d <;> rfl
    · simp only [Ne.symm hd, if_false, beq_eq_false_iff_ne.2 hd]

theorem lookup_ofList (xs : List Identifier) :
    (ofList xs).lookup d = (xs.find? (·.digest == d)).map Identifier.frozen := by
  rw [ofList, lookup_foldl_add, Finmap.lookup_empty, Option.none_or]

end Flags

/-! ## Members as entries -/

namespace IdSet

def entry (x : Identifier) : Sigma fun _ : List UInt8 => Bool := ⟨x.digest, x.frozen⟩

variable (s : IdSet) (x : Identifier) {d : List UInt8} {b : Bool}

theorem keys_entries : (s.members.map entry).keys = s.members.map Identifier.digest :=
  List.map_map

def flags : Flags := AList.toFinmap ⟨s.members.map entry, by
  rw [List.NodupKeys, keys_entries]
  exact s.nodup⟩

theorem lookup_flags_eq_some_iff :
    s.flags.lookup d = some b ↔ ∃ x ∈ s.members, x.digest = d ∧ x.frozen = b := by
  rw [flags, Finmap.lookup_toFinmap, ← Option.mem_def, AList.mem_lookup_iff, List.mem_map]
  simp [entry]

theorem mem_flags_iff : d ∈ s.flags ↔ ∃ x ∈ s.members, x.digest = d := by
  rw [Finmap.mem_iff]
  simp only [lookup_flags_eq_some_iff]
  constructor
  · rintro ⟨b, x, hx, hd, -⟩
    exact ⟨x, hx, hd⟩
  · rintro ⟨x, hx, hd⟩
    exact ⟨x.frozen, x, hx, hd, rfl⟩

theorem contains_iff : s.contains x = true ↔ x.digest ∈ s.flags := by
  rw [mem_flags_iff, contains, List.any_eq_true]
  simp only [Identifier.beq_iff]

theorem card_keys_flags : s.flags.keys.card = s.size := by
  have hcard : s.flags.keys.card = ((s.members.map entry).keys).length := rfl
  rw [hcard, keys_entries, List.length_map, size]

theorem mem_erase {y : Identifier} :
    y ∈ (s.erase x).members ↔ y ∈ s.members ∧ y.digest ≠ x.digest := by
  rw [erase, List.mem_filter, Bool.not_eq_true', ← Bool.not_eq_true, Identifier.beq_iff]

theorem eq_of_digest_eq {x y : Identifier} (hx : x ∈ s.members) (hy : y ∈ s.members)
    (h : x.digest = y.digest) : x = y :=
  List.inj_on_of_nodup_map s.nodup hx hy h

/-! ## Calls -/

theorem flags_empty : empty.flags = ∅ := rfl

theorem flags_insert : (s.insert x).flags = Flags.add s.flags x := by
  by_cases hx : s.contains x = true
  · rw [insert, dif_pos hx, Flags.add, if_pos ((s.contains_iff x).1 hx)]
  · have hmem : x.digest ∉ s.flags := mt (s.contains_iff x).2 hx
    rw [Flags.add, if_neg hmem, insert, dif_neg hx]
    exact congrArg AList.toFinmap (AList.insert_of_notMem hmem).symm

theorem flags_erase : (s.erase x).flags = s.flags.erase x.digest := by
  apply Finmap.ext_lookup
  intro d
  rw [Flags.lookup_erase]
  apply Option.ext
  intro b
  rw [lookup_flags_eq_some_iff]
  simp only [mem_erase]
  split
  · next hd =>
    simp only [reduceCtorEq, iff_false]
    rintro ⟨y, ⟨-, hne⟩, hy, -⟩
    exact hne (hy.trans hd)
  · next hd =>
    rw [lookup_flags_eq_some_iff]
    constructor
    · rintro ⟨y, ⟨hy, -⟩, hflag⟩
      exact ⟨y, hy, hflag⟩
    · rintro ⟨y, hy, rfl, hb⟩
      exact ⟨y, ⟨hy, hd⟩, rfl, hb⟩

theorem flags_replace (old : Identifier) (new : Option Identifier) :
    (s.replace old new).flags = Flags.replace s.flags old new := by
  cases new with
  | none => exact s.flags_erase old
  | some y =>
    rw [replace, flags_insert, flags_erase]
    rfl

theorem flags_ofList (xs : List Identifier) : (ofList xs).flags = Flags.ofList xs := by
  have hfold : ∀ s : IdSet, (xs.foldl insert s).flags = xs.foldl Flags.add s.flags := by
    induction xs with
    | nil => exact fun s => rfl
    | cons x xs ih =>
      intro s
      rw [List.foldl_cons, List.foldl_cons, ih, flags_insert]
  exact hfold empty

theorem isEmpty_iff : s.isEmpty = true ↔ s.flags = ∅ := by
  rw [isEmpty, List.isEmpty_iff]
  constructor
  · intro h
    apply Finmap.ext_lookup
    intro d
    rw [Finmap.lookup_empty, Finmap.lookup_eq_none, mem_flags_iff]
    simp [h]
  · intro h
    have hcard := s.card_keys_flags
    rw [h] at hcard
    exact List.length_eq_zero_iff.1 hcard.symm

/-- A call answers what the map answers, and does to the members what it does to the map. -/
theorem step_flags (call : Call) :
    (s.step call).1 = (Flags.step s.flags call).1 ∧
      (s.step call).2.flags = (Flags.step s.flags call).2 := by
  have hcontains : ∀ x, s.contains x = decide (x.digest ∈ s.flags) := fun x =>
    Bool.eq_iff_iff.2 ((s.contains_iff x).trans decide_eq_true_iff.symm)
  cases call with
  | insert x => exact ⟨by simp [step, Flags.step, add, hcontains], s.flags_insert x⟩
  | remove x => exact ⟨by simp [step, Flags.step, remove, hcontains], s.flags_erase x⟩
  | replace old new => exact ⟨rfl, s.flags_replace old new⟩
  | contains x => exact ⟨by simp [step, Flags.step, hcontains], rfl⟩
  | size => exact ⟨by simp [step, Flags.step, card_keys_flags], rfl⟩
  | isEmpty => exact ⟨by simp [step, Flags.step, ← isEmpty_iff], rfl⟩
  | clear => exact ⟨rfl, flags_empty⟩

theorem run_flags (calls : List Call) :
    (s.run calls).1 = (Flags.run s.flags calls).1 ∧
      (s.run calls).2.flags = (Flags.run s.flags calls).2 := by
  induction calls generalizing s with
  | nil => exact ⟨rfl, rfl⟩
  | cons call calls ih =>
    obtain ⟨hanswer, hflags⟩ := s.step_flags call
    obtain ⟨hanswers, hend⟩ := ih (s.step call).2
    rw [hflags] at hanswers hend
    exact ⟨congrArg₂ List.cons hanswer hanswers, hend⟩

theorem contains_of_digest_ne {x y : Identifier} (h : x.digest ≠ y.digest) :
    (s.insert y).contains x = s.contains x ∧ (s.erase y).contains x = s.contains x := by
  constructor
  · rw [Bool.eq_iff_iff, contains_iff, contains_iff, flags_insert]
    simp only [Finmap.mem_iff, Flags.lookup_add, if_neg h]
  · rw [Bool.eq_iff_iff, contains_iff, contains_iff, flags_erase]
    simp only [Finmap.mem_erase, ne_eq, h, not_false_eq_true, true_and]

/-- A set answers and lists its members as a finite map from digests to flags does. -/
theorem run_as_finite_map :
    (∀ x y : Identifier, (x == y) = true ↔ x.digest = y.digest) ∧
    (∀ x y : Identifier, (x == y) = true → x.hashCode = y.hashCode) ∧
    (∀ (xs : List Identifier) (calls : List Call),
      ((ofList xs).run calls).1 = (Flags.run (Flags.ofList xs) calls).1 ∧
      (∀ d b, (Flags.run (Flags.ofList xs) calls).2.lookup d = some b ↔
        ∃ x ∈ ((ofList xs).run calls).2.members, x.digest = d ∧ x.frozen = b) ∧
      ∀ x ∈ ((ofList xs).run calls).2.members, ∀ y ∈ ((ofList xs).run calls).2.members,
        x.digest = y.digest → x = y) ∧
    (∀ (s : IdSet) (x y : Identifier), x.digest ≠ y.digest →
      (s.insert y).contains x = s.contains x ∧ (s.erase y).contains x = s.contains x) ∧
    (∀ (xs : List Identifier) (d : List UInt8),
      (Flags.ofList xs).lookup d = (xs.find? (·.digest == d)).map Identifier.frozen) ∧
    ∀ (m : Flags) (x old new : Identifier) (d : List UInt8),
      (Flags.add m x).lookup d =
        (if d = x.digest then some ((m.lookup d).getD x.frozen) else m.lookup d) ∧
      (m.erase x.digest).lookup d = (if d = x.digest then none else m.lookup d) ∧
      Flags.replace m old none = m.erase old.digest ∧
      (Flags.replace m old (some new)).lookup d =
        if d = new.digest then
          some (if new.digest = old.digest then new.frozen else (m.lookup d).getD new.frozen)
        else if d = old.digest then none
        else m.lookup d := by
  refine ⟨fun _ _ => Identifier.beq_iff, fun _ _ => Identifier.hashCode_eq_of_beq, ?_,
    fun s _ _ => s.contains_of_digest_ne, fun xs d => Flags.lookup_ofList d xs, ?_⟩
  · intro xs calls
    obtain ⟨hanswers, hflags⟩ := (ofList xs).run_flags calls
    rw [flags_ofList] at hanswers hflags
    refine ⟨hanswers, ?_, fun _ hx _ hy => eq_of_digest_eq _ hx hy⟩
    intro d b
    rw [← hflags]
    exact lookup_flags_eq_some_iff _
  · intro m x old new d
    exact ⟨Flags.lookup_add m x d, Flags.lookup_erase m x d, rfl, Flags.lookup_replace m d old new⟩

def frozenKey : Identifier := ⟨[1, 2, 3, 4], true, by decide⟩

def longerKey : Identifier := ⟨[1, 2, 3, 4, 5], false, by decide⟩

theorem run_as_finite_map_sharedCode :
    ((frozenKey.thawed == frozenKey) = true ∧
      frozenKey.thawed.hashCode = frozenKey.hashCode) ∧
    (Flags.run (Flags.ofList [frozenKey, frozenKey.thawed])
      [.contains longerKey, .insert frozenKey.thawed, .insert longerKey, .size,
        .replace frozenKey (some frozenKey.thawed), .remove longerKey, .clear, .isEmpty]).1 =
      [.truth false, .truth false, .truth true, .number 2, .nothing, .truth true, .nothing,
        .truth true] ∧
    (longerKey.digest ≠ frozenKey.digest ∧ longerKey.hashCode = frozenKey.hashCode ∧
      (empty.insert frozenKey).contains longerKey = false) ∧
    (Flags.ofList [frozenKey, frozenKey.thawed]).lookup [1, 2, 3, 4] = some true ∧
    (Flags.replace (Flags.ofList [frozenKey]) frozenKey (some frozenKey.thawed)).lookup
      [1, 2, 3, 4] = some false := by
  obtain ⟨hbeq, hcode, hrun, hapart, hofList, hflags⟩ := run_as_finite_map
  have hequal : (frozenKey.thawed == frozenKey) = true := (hbeq _ _).2 rfl
  have hne : longerKey.digest ≠ frozenKey.digest := by decide
  refine ⟨⟨hequal, hcode _ _ hequal⟩, (hrun _ _).1.symm.trans (by decide),
    ⟨hne, by decide, ((hapart empty _ _ hne).1).trans rfl⟩, (hofList _ _).trans rfl, ?_⟩
  exact (hflags (Flags.ofList [frozenKey]) frozenKey frozenKey frozenKey.thawed _).2.2.2

end IdSet

end DigestFilter
