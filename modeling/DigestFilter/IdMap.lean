import DigestFilter.Identifier.Basic

/-!
# Maps keyed by identifiers

A map has one entry for each digest. Inserting under a digest that is present replaces the value
and keeps the key that is stored, with its frozen flag.
-/

namespace DigestFilter

structure IdMap (V : Type) where
  entries : List (Identifier × V)
  nodup : (entries.map (·.1.digest)).Nodup

namespace IdMap

variable {V : Type}

def empty : IdMap V := ⟨[], by simp⟩

instance : Inhabited (IdMap V) := ⟨empty⟩

variable (m : IdMap V) (k : Identifier)

def get? : Option V := (m.entries.find? (·.1 == k)).map (·.2)

def contains : Bool := m.entries.any (·.1 == k)

def size : Nat := m.entries.length

def isEmpty : Bool := m.entries.isEmpty

def keys : List Identifier := m.entries.map (·.1)

theorem digest_not_mem (h : m.contains k = false) :
    k.digest ∉ m.entries.map (·.1.digest) := by
  intro hk
  obtain ⟨e, he, hd⟩ := List.mem_map.1 hk
  have := List.any_eq_false.1 h e he
  exact this (Identifier.beq_iff.2 hd)

def insert (v : V) : IdMap V :=
  if h : m.contains k = true then
    { entries := m.entries.map fun e => if e.1 == k then (e.1, v) else e
      nodup := by
        have hsame : (fun e : Identifier × V =>
            (if e.1 == k then (e.1, v) else e).1.digest) = fun e => e.1.digest := by
          funext e
          split <;> rfl
        rw [List.map_map]
        exact (congrArg (fun g => (m.entries.map g).Nodup) hsame).mpr m.nodup }
  else
    { entries := (k, v) :: m.entries
      nodup := List.nodup_cons.2 ⟨m.digest_not_mem k (by simpa using h), m.nodup⟩ }

def erase : IdMap V where
  entries := m.entries.filter fun e => !(e.1 == k)
  nodup := (List.filter_sublist.map _).nodup m.nodup

def put (v : V) : Option V × IdMap V := (m.get? k, m.insert k v)

def remove : Option V × IdMap V := (m.get? k, m.erase k)

end IdMap

end DigestFilter
