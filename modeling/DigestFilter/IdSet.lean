import DigestFilter.Filter.Basic
import DigestFilter.Identifier.Basic

/-!
# Sets of identifiers

A set has one member for each digest. Inserting a digest that is present changes nothing: the
member that is stored stays, with its frozen flag.
-/

namespace DigestFilter

structure IdSet where
  members : List Identifier
  nodup : (members.map Identifier.digest).Nodup

namespace IdSet

def empty : IdSet := ⟨[], by simp⟩

instance : Inhabited IdSet := ⟨empty⟩

variable (s : IdSet) (x : Identifier)

def contains : Bool := s.members.any (· == x)

def size : Nat := s.members.length

def isEmpty : Bool := s.members.isEmpty

theorem digest_not_mem (h : s.contains x = false) : x.digest ∉ s.members.map Identifier.digest := by
  intro hx
  obtain ⟨y, hy, hd⟩ := List.mem_map.1 hx
  have := List.any_eq_false.1 h y hy
  exact this (Identifier.beq_iff.2 hd)

def insert : IdSet :=
  if h : s.contains x = true then s
  else
    { members := x :: s.members
      nodup := List.nodup_cons.2 ⟨s.digest_not_mem x (by simpa using h), s.nodup⟩ }

def erase : IdSet where
  members := s.members.filter fun y => !(y == x)
  nodup := (List.filter_sublist.map _).nodup s.nodup

def add : Bool × IdSet := (!s.contains x, s.insert x)

def remove : Bool × IdSet := (s.contains x, s.erase x)

/-- Takes `old` out and puts `new` in, if there is one, whether or not `old` was a member. -/
def replace (old : Identifier) (new : Option Identifier) : IdSet :=
  match new with
  | none => s.erase old
  | some y => (s.erase old).insert y

def ofList (xs : List Identifier) : IdSet := xs.foldl insert empty

def toFilter (size : Option Nat) : Except Error Filter := Filter.ofElements s.members size

end IdSet

end DigestFilter
