import Mathlib.Data.List.DropRight
import Mathlib.Data.List.Nodup
import DigestFilter.IdMap

/-!
# Maps of identifiers and their histories

What a map answers follows from the calls that it has had. Under a digest it has the value that was
inserted last since the digest was absent, and the key that was inserted first since then. Keys are
told apart by their digests alone, so equal hash codes make no difference.
-/

namespace DigestFilter.IdMap

variable {V : Type}

inductive Call (V : Type) where
  | insert (k : Identifier) (v : V)
  | remove (k : Identifier)
  | get (k : Identifier)
  | contains (k : Identifier)
  | size
  | isEmpty
  | clear
  | keys

inductive Answer (V : Type) where
  | nothing
  | value (v : Option V)
  | truth (b : Bool)
  | number (n : Nat)
  | identifiers (ks : List Identifier)

def step (m : IdMap V) : Call V → Answer V × IdMap V
  | .insert k v => (.value (m.put k v).1, (m.put k v).2)
  | .remove k => (.value (m.remove k).1, (m.remove k).2)
  | .get k => (.value (m.get? k), m)
  | .contains k => (.truth (m.contains k), m)
  | .size => (.number m.size, m)
  | .isEmpty => (.truth m.isEmpty, m)
  | .clear => (.nothing, empty)
  | .keys => (.identifiers m.keys, m)

def run (m : IdMap V) : List (Call V) → List (Answer V) × IdMap V
  | [] => ([], m)
  | call :: calls =>
    let (answer, m') := m.step call
    let (answers, m'') := run m' calls
    (answer :: answers, m'')

/-! ## Histories -/

/-- After such a call the digest is absent. -/
def Call.forgets (d : List UInt8) : Call V → Bool
  | .remove k => k.digest == d
  | .clear => true
  | _ => false

def Call.inserted? (d : List UInt8) : Call V → Option (Identifier × V)
  | .insert k v => if k.digest = d then some (k, v) else none
  | _ => none

/-- What has been inserted under a digest since it was absent, in order. -/
def inserted (d : List UInt8) (history : List (Call V)) : List (Identifier × V) :=
  (history.rtakeWhile fun call => !call.forgets d).filterMap (Call.inserted? d)

/-- What a call may answer after a history. The order in which keys are listed is left open. -/
def Answers (history : List (Call V)) : Call V → Answer V → Prop
  | .insert k _, answer | .remove k, answer | .get k, answer =>
    answer = .value ((inserted k.digest history).getLast?.map Prod.snd)
  | .contains k, answer => ∃ b, answer = .truth b ∧ (b = true ↔ inserted k.digest history ≠ [])
  | .size, answer => ∃ ds : List (List UInt8), answer = .number ds.length ∧ ds.Nodup ∧
      ∀ d, d ∈ ds ↔ inserted d history ≠ []
  | .isEmpty, answer => ∃ b, answer = .truth b ∧ (b = true ↔ ∀ d, inserted d history = [])
  | .clear, answer => answer = .nothing
  | .keys, answer => ∃ ks, answer = .identifiers ks ∧ (ks.map Identifier.digest).Nodup ∧
      (∀ d, d ∈ ks.map Identifier.digest ↔ inserted d history ≠ []) ∧
      ∀ k, k ∈ ks ↔ (inserted k.digest history).head?.map Prod.fst = some k

/-! ## Entries -/

section Entry

variable (m : IdMap V) (k : Identifier) (v : V) (d : List UInt8)

def held? : Option (Identifier × V) := m.entries.find? fun e => e.1.digest == d

theorem get?_eq : m.get? k = (m.held? k.digest).map Prod.snd := rfl

theorem contains_eq : m.contains k = (m.held? k.digest).isSome := List.isSome_find?.symm

theorem digest_of_held? {m : IdMap V} {d : List UInt8} {e : Identifier × V}
    (h : m.held? d = some e) : e.1.digest = d := by
  have := List.find?_some h
  simpa using this

theorem held?_insert : (m.insert k v).held? d =
    if d = k.digest then some (((m.held? d).map Prod.fst).getD k, v) else m.held? d := by
  by_cases hk : m.contains k = true
  · let overwrite : Identifier × V → Identifier × V := fun e => if e.1 == k then (e.1, v) else e
    have hsame : ((fun e : Identifier × V => e.1.digest == d) ∘ overwrite) =
        fun e => e.1.digest == d := by
      funext e
      show ((if e.1 == k then (e.1, v) else e).1.digest == d) = (e.1.digest == d)
      split <;> rfl
    have hinsert : (m.insert k v).held? d = (m.held? d).map overwrite := by
      rw [insert, dif_pos hk, held?, List.find?_map, hsame]
      rfl
    rw [hinsert]
    split
    · next hd =>
      rw [contains_eq, ← hd] at hk
      obtain ⟨e, he⟩ := Option.isSome_iff_exists.1 hk
      have hek : (e.1 == k) = true := Identifier.beq_iff.2 ((digest_of_held? he).trans hd)
      simp only [he, Option.map_some, Option.getD_some, overwrite, hek, if_true]
    · next hd =>
      cases he : m.held? d with
      | none => rfl
      | some e =>
        have hek : ¬ (e.1 == k) = true := fun h =>
          hd ((digest_of_held? he).symm.trans (Identifier.beq_iff.1 h))
        simp only [Option.map_some, overwrite, if_neg hek]
  · have hinsert : (m.insert k v).held? d =
        if k.digest == d then some (k, v) else m.held? d := by
      rw [insert, dif_neg hk, held?, List.find?_cons]
      cases k.digest == d <;> rfl
    rw [contains_eq, Option.not_isSome_iff_eq_none] at hk
    rw [hinsert]
    by_cases hd : d = k.digest
    · subst hd
      simp [hk]
    · simp [hd, Ne.symm hd]

theorem held?_erase : (m.erase k).held? d = if d = k.digest then none else m.held? d := by
  rw [erase, held?, List.find?_filter]
  split
  · next hd =>
    rw [List.find?_eq_none]
    intro e _ he
    simp only [Bool.not_eq_true', decide_eq_true_eq, beq_iff_eq] at he
    have hek : (e.1 == k) = true := Identifier.beq_iff.2 (he.2.trans hd)
    rw [hek] at he
    exact absurd he.1 (by decide)
  · next hd =>
    rw [held?]
    congr 1
    funext e
    by_cases he : e.1.digest = d
    · have hek : ¬ (e.1 == k) = true := fun h => hd (he.symm.trans (Identifier.beq_iff.1 h))
      simp [he, hek]
    · simp [he]

theorem mem_digests_iff : d ∈ m.keys.map Identifier.digest ↔ m.held? d ≠ none := by
  rw [held?, ne_eq, List.find?_eq_none]
  simp [keys]

theorem mem_keys_iff : k ∈ m.keys ↔ (m.held? k.digest).map Prod.fst = some k := by
  rw [Option.map_eq_some_iff]
  constructor
  · intro hk
    obtain ⟨e, he, rfl⟩ := List.mem_map.1 hk
    cases hfound : m.held? e.1.digest with
    | none => exact absurd hfound ((mem_digests_iff m _).1 (List.mem_map_of_mem hk))
    | some e' =>
      have hmem : e' ∈ m.entries := List.mem_of_find?_eq_some hfound
      have hsame : e' = e :=
        List.inj_on_of_nodup_map m.nodup hmem he (digest_of_held? hfound)
      exact ⟨e', rfl, congrArg Prod.fst hsame⟩
  · rintro ⟨e, he, rfl⟩
    exact List.mem_map_of_mem (List.mem_of_find?_eq_some he)

end Entry

/-! ## From histories to entries -/

/-- The first key with the last value. -/
def entryOf (writes : List (Identifier × V)) : Option (Identifier × V) :=
  writes.head?.bind fun first => writes.getLast?.map fun last => (first.1, last.2)

section EntryOf

variable (writes : List (Identifier × V))

theorem entryOf_snoc (k : Identifier) (v : V) :
    entryOf (writes ++ [(k, v)]) = some (((entryOf writes).map Prod.fst).getD k, v) := by
  cases writes with
  | nil => rfl
  | cons first rest => simp [entryOf, List.getLast?_cons]

theorem snd_entryOf : (entryOf writes).map Prod.snd = writes.getLast?.map Prod.snd := by
  cases writes with
  | nil => rfl
  | cons first rest => simp [entryOf, List.getLast?_cons]

theorem fst_entryOf : (entryOf writes).map Prod.fst = writes.head?.map Prod.fst := by
  cases writes with
  | nil => rfl
  | cons first rest => simp [entryOf, List.getLast?_cons]

theorem entryOf_eq_none_iff : entryOf writes = none ↔ writes = [] := by
  cases writes with
  | nil => simp [entryOf]
  | cons first rest => simp [entryOf, List.getLast?_cons]

end EntryOf

theorem inserted_snoc (d : List UInt8) (history : List (Call V)) (call : Call V) :
    inserted d (history ++ [call]) =
      if call.forgets d then [] else inserted d history ++ (call.inserted? d).toList := by
  rw [inserted, List.rtakeWhile_concat]
  cases call.forgets d
  · cases h : call.inserted? d <;> simp [inserted, h]
  · simp

theorem held?_step (m : IdMap V) (call : Call V) (d : List UInt8) {writes : List (Identifier × V)}
    (h : m.held? d = entryOf writes) :
    (m.step call).2.held? d =
      entryOf (if call.forgets d then [] else writes ++ (call.inserted? d).toList) := by
  cases call with
  | insert k v =>
    simp only [step, put, held?_insert, Call.forgets, Call.inserted?]
    by_cases hd : d = k.digest
    · simp [hd, entryOf_snoc, ← h]
    · simp [hd, Ne.symm hd, h]
  | remove k =>
    simp only [step, remove, held?_erase, Call.forgets, Call.inserted?]
    by_cases hd : d = k.digest
    · simp [hd, entryOf]
    · simp [hd, Ne.symm hd, h]
  | clear => rfl
  | get k | contains k | size | isEmpty | keys => simpa [step, Call.forgets, Call.inserted?] using h

theorem run_snoc (m : IdMap V) (calls : List (Call V)) (call : Call V) :
    m.run (calls ++ [call]) = ((m.run calls).1 ++ [((m.run calls).2.step call).1],
      ((m.run calls).2.step call).2) := by
  induction calls generalizing m with
  | nil => rfl
  | cons first calls ih => simp only [List.cons_append, run, ih]

theorem length_run (m : IdMap V) (calls : List (Call V)) :
    (m.run calls).1.length = calls.length := by
  induction calls generalizing m with
  | nil => rfl
  | cons first calls ih => simp only [run, List.length_cons, ih]

theorem held?_run (history : List (Call V)) (d : List UInt8) :
    (empty.run history).2.held? d = entryOf (inserted d history) := by
  induction history using List.reverseRecOn with
  | nil => rfl
  | append_singleton history call ih =>
    rw [run_snoc, inserted_snoc]
    exact held?_step _ call d ih

/-! ## Answers -/

theorem answers_step (history : List (Call V)) (call : Call V) :
    Answers history call ((empty.run history).2.step call).1 := by
  have hentry := held?_run history
  generalize (empty.run history).2 = m at hentry
  have hvalue : ∀ k, m.get? k = (inserted k.digest history).getLast?.map Prod.snd := by
    intro k
    rw [get?_eq, hentry, snd_entryOf]
  have hdigests : ∀ d, d ∈ m.keys.map Identifier.digest ↔ inserted d history ≠ [] := by
    intro d
    rw [mem_digests_iff, hentry, ne_eq, entryOf_eq_none_iff]
  have hnodup : (m.keys.map Identifier.digest).Nodup := by
    rw [keys, List.map_map]
    exact m.nodup
  cases call with
  | insert k v => exact congrArg Answer.value (hvalue k)
  | remove k => exact congrArg Answer.value (hvalue k)
  | get k => exact congrArg Answer.value (hvalue k)
  | contains k =>
    refine ⟨m.contains k, rfl, ?_⟩
    rw [contains_eq, hentry, Option.isSome_iff_ne_none, ne_eq, entryOf_eq_none_iff]
  | size =>
    refine ⟨m.keys.map Identifier.digest, ?_, hnodup, hdigests⟩
    rw [List.length_map, keys, List.length_map]
    rfl
  | isEmpty =>
    refine ⟨m.isEmpty, rfl, ?_⟩
    rw [isEmpty, List.isEmpty_iff]
    constructor
    · intro hnil d
      by_contra hd
      have := (hdigests d).2 hd
      simp [keys, hnil] at this
    · intro hnone
      have hkeys : m.keys.map Identifier.digest = [] :=
        List.eq_nil_iff_forall_not_mem.2 fun d hd => (hdigests d).1 hd (hnone d)
      simpa [keys] using hkeys
  | clear => rfl
  | keys =>
    refine ⟨m.keys, rfl, hnodup, hdigests, ?_⟩
    intro k
    rw [mem_keys_iff, hentry, fst_entryOf]

theorem answer_run (history later : List (Call V)) (call : Call V) :
    (empty.run (history ++ call :: later)).1[history.length]? =
      some ((empty.run history).2.step call).1 := by
  induction later using List.reverseRecOn with
  | nil =>
    have hlen : (empty.run history).1.length = history.length := length_run _ _
    rw [run_snoc, ← hlen]
    exact List.getElem?_concat_length
  | append_singleton later last ih =>
    have hlt : history.length < (empty.run (history ++ call :: later)).1.length := by
      rw [length_run, List.length_append, List.length_cons]
      omega
    rw [← List.cons_append, ← List.append_assoc, run_snoc, List.getElem?_append_left hlt, ih]

/-- Every call of a run is answered as the calls before it say. -/
theorem run_as_history :
    (∀ x y : Identifier, (x == y) = true ↔ x.digest = y.digest) ∧
    (∀ x y : Identifier, (x == y) = true → x.hashCode = y.hashCode) ∧
    ∀ {V : Type} (history later : List (Call V)) (call : Call V),
      (empty.run (history ++ call :: later)).1.length = history.length + 1 + later.length ∧
      ∃ answer, (empty.run (history ++ call :: later)).1[history.length]? = some answer ∧
        Answers history call answer := by
  refine ⟨fun _ _ => Identifier.beq_iff, fun _ _ => Identifier.hashCode_eq_of_beq, ?_⟩
  intro V history later call
  constructor
  · rw [length_run, List.length_append, List.length_cons]
    omega
  · exact ⟨_, answer_run history later call, answers_step history call⟩

def firstKey : Identifier := ⟨[6, 5, 4, 3], true, by decide⟩

def longKey : Identifier := ⟨[6, 5, 4, 3, 2], false, by decide⟩

def overwritten : List (Call Nat) :=
  [.insert firstKey 1, .insert longKey 2, .insert firstKey.thawed 3]

theorem run_as_history_sharedCode :
    ((firstKey.thawed == firstKey) = true ∧ firstKey.thawed.hashCode = firstKey.hashCode) ∧
    (longKey.digest ≠ firstKey.digest ∧ longKey.hashCode = firstKey.hashCode ∧
      (empty.run (overwritten ++ .remove firstKey :: [])).1[3]? = some (.value (some 3)) ∧
      ∃ ks, (empty.run (overwritten ++ .keys :: [])).1[3]? = some (.identifiers ks) ∧
        firstKey ∈ ks ∧ firstKey.thawed ∉ ks ∧ longKey ∈ ks) := by
  obtain ⟨hbeq, hcode, hrun⟩ := run_as_history
  have hequal : (firstKey.thawed == firstKey) = true := (hbeq _ _).2 rfl
  refine ⟨⟨hequal, hcode _ _ hequal⟩, by decide, by decide, ?_, ?_⟩
  · obtain ⟨-, answer, hanswer, hremove⟩ := hrun overwritten [] (.remove firstKey)
    have hlast : (inserted firstKey.digest overwritten).getLast?.map Prod.snd = some 3 := rfl
    have hthree : answer = .value (some 3) := hremove.trans (congrArg Answer.value hlast)
    exact hanswer.trans (congrArg some hthree)
  · obtain ⟨-, answer, hanswer, ks, rfl, -, -, hks⟩ := hrun overwritten [] .keys
    refine ⟨ks, hanswer, (hks _).2 rfl, ?_, (hks _).2 rfl⟩
    intro hmem
    have hthawed := (hks _).1 hmem
    cases hthawed

end DigestFilter.IdMap
