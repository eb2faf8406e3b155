import Mathlib.Data.List.Induction
import DigestFilter.Proofs.Value.Change
import DigestFilter.Proofs.Value.Origin

/-!
# Runs over many values

Values are made, frozen and changed in any order, and a later call can use what earlier ones have
made. A call that is refused leaves everything as it was. Whatever happens, a value keeps its kind
and its length, and one that is frozen stays as it is; both go along any run because each call
keeps them.
-/

namespace DigestFilter

inductive Call : Type 1 where
  | make (origin : Origin)
  | freeze (i : Nat)
  | changeIdentifier (i : Nat) (c : Identifier.Change)
  | changeFilter (i : Nat) (c : Filter.Change)
  | mergeInto (i j : Nat) (entry : Filter.Entry) (inPlace : entry.makesNew = false) (op : MergeOp)

namespace Item

def freeze : Item → Item
  | .identifier x => .identifier x.freeze
  | .filter f => .filter f.freeze

def changeIdentifier (c : Identifier.Change) : Item → Except Refusal Item
  | .identifier x => Refusal.lift ((c.apply x).map .identifier)
  | .filter _ => .error .missing

def changeFilter (c : Filter.Change) : Item → Except Refusal Item
  | .identifier _ => .error .missing
  | .filter f => Refusal.lift ((c.apply f).map .filter)

/-- What no call can undo. -/
structure Becomes (before after : Item) : Prop where
  kind_eq : after.kind = before.kind
  length_eq : after.content.length = before.content.length
  eq_of_frozen : before.frozen = true → after = before

variable {a b c : Item}

theorem Becomes.refl (item : Item) : item.Becomes item := ⟨rfl, rfl, fun _ => rfl⟩

theorem Becomes.trans (hab : a.Becomes b) (hbc : b.Becomes c) : a.Becomes c where
  kind_eq := hbc.kind_eq.trans hab.kind_eq
  length_eq := hbc.length_eq.trans hab.length_eq
  eq_of_frozen h := by
    obtain rfl := hab.eq_of_frozen h
    exact hbc.eq_of_frozen h

theorem freeze_of_frozen (h : a.frozen = true) : a.freeze = a := by
  cases a with
  | identifier x => rcases x with ⟨digest, frozen, hd⟩; cases h; rfl
  | filter f => rcases f with ⟨bitmap, frozen, hb⟩; cases h; rfl

theorem becomes_freeze (item : Item) : item.Becomes item.freeze where
  kind_eq := by cases item <;> rfl
  length_eq := by cases item <;> rfl
  eq_of_frozen := freeze_of_frozen

theorem becomes_changeIdentifier {change : Identifier.Change}
    (h : a.changeIdentifier change = .ok b) : a.Becomes b := by
  cases a with
  | filter f => cases h
  | identifier x =>
    obtain ⟨y, hy, rfl⟩ := Except.of_map_eq_ok (Refusal.of_lift_eq_ok h)
    obtain ⟨hthawed, -, hsize⟩ := Identifier.Change.of_apply_eq_ok hy
    exact ⟨rfl, hsize, fun hfrozen => by simp [frozen, hthawed] at hfrozen⟩

theorem becomes_changeFilter {change : Filter.Change}
    (h : a.changeFilter change = .ok b) : a.Becomes b := by
  cases a with
  | identifier x => cases h
  | filter f =>
    obtain ⟨g, hg, rfl⟩ := Except.of_map_eq_ok (Refusal.of_lift_eq_ok h)
    obtain ⟨hthawed, -, hsize⟩ := Filter.Change.of_apply_eq_ok hg
    exact ⟨rfl, hsize, fun hfrozen => by simp [frozen, hthawed] at hfrozen⟩

end Item

namespace Heap

/-! ## Calls -/

def add (h : Heap) : Except Refusal Item → Except Refusal Unit × Heap
  | .ok item => (.ok (), h ++ [item])
  | .error refusal => (.error refusal, h)

def alter (h : Heap) (i : Nat) (change : Item → Except Refusal Item) : Except Refusal Unit × Heap :=
  match (h.item? i).bind change with
  | .ok item => (.ok (), h.set i item)
  | .error refusal => (.error refusal, h)

def step (h : Heap) : Call → Except Refusal Unit × Heap
  | .make origin => h.add (origin.make h)
  | .freeze i => h.alter i fun item => .ok item.freeze
  | .changeIdentifier i c => h.alter i (Item.changeIdentifier c)
  | .changeFilter i c => h.alter i (Item.changeFilter c)
  | .mergeInto i j entry inPlace op => h.alter i fun item =>
    (h.filter? j).bind fun right => item.changeFilter (.merge entry inPlace op right)

def run (h : Heap) (calls : List Call) : Heap := calls.foldl (fun h call => (h.step call).2) h

/-- Every value is still there and is what it could become. -/
def Becomes (before after : Heap) : Prop :=
  ∀ (i : Nat) (item : Item), before[i]? = some item →
    ∃ item' : Item, after[i]? = some item' ∧ item.Becomes item'

/-! ## What a call does -/

variable {h h' h'' : Heap} {i : Nat} {change : Item → Except Refusal Item}

theorem add_of_error {r : Except Refusal Item} {refusal : Refusal}
    (he : (h.add r).1 = .error refusal) : (h.add r).2 = h := by
  cases r with
  | error _ => rfl
  | ok item => cases he

theorem alter_of_error {refusal : Refusal} (he : (h.alter i change).1 = .error refusal) :
    (h.alter i change).2 = h := by
  unfold alter at he ⊢
  split at he
  · cases he
  · rfl

theorem step_of_error {call : Call} {refusal : Refusal} (he : (h.step call).1 = .error refusal) :
    (h.step call).2 = h := by
  cases call with
  | make origin => exact add_of_error he
  | _ => exact alter_of_error he

theorem Becomes.refl (h : Heap) : h.Becomes h := fun _ item hi => ⟨item, hi, .refl item⟩

theorem Becomes.trans (h₁ : h.Becomes h') (h₂ : h'.Becomes h'') : h.Becomes h'' := by
  intro i item hi
  obtain ⟨item', hi', hitem'⟩ := h₁ i item hi
  obtain ⟨item'', hi'', hitem''⟩ := h₂ i item' hi'
  exact ⟨item'', hi'', hitem'.trans hitem''⟩

theorem getElem?_append {item new : Item} (hi : h[i]? = some item) :
    (h ++ [new])[i]? = some item := by
  rw [List.getElem?_append_left (List.getElem?_eq_some_iff.1 hi).1, hi]

theorem becomes_add (r : Except Refusal Item) : h.Becomes (h.add r).2 := by
  cases r with
  | error _ => exact .refl h
  | ok new =>
    intro i item hi
    exact ⟨item, getElem?_append hi, .refl item⟩

theorem becomes_alter (i : Nat)
    (hchange : ∀ item item', change item = .ok item' → item.Becomes item') :
    h.Becomes (h.alter i change).2 := by
  unfold alter
  split
  · next item' hitem' =>
    obtain ⟨item, hitem, hitem'⟩ := Except.of_bind_eq_ok hitem'
    rw [item?_eq_ok_iff] at hitem
    intro j other hj
    by_cases hij : i = j
    · subst hij
      obtain rfl := Option.some.inj (hitem.symm.trans hj)
      exact ⟨item', List.getElem?_set_self (List.getElem?_eq_some_iff.1 hitem).1,
        hchange item item' hitem'⟩
    · exact ⟨other, by rw [List.getElem?_set_ne hij, hj], .refl other⟩
  · exact .refl h

theorem becomes_step (call : Call) : h.Becomes (h.step call).2 := by
  cases call with
  | make origin => exact becomes_add _
  | freeze i =>
    apply becomes_alter
    intro item item' hitem'
    cases hitem'
    exact item.becomes_freeze
  | changeIdentifier i c => exact becomes_alter i fun _ _ => Item.becomes_changeIdentifier
  | changeFilter i c => exact becomes_alter i fun _ _ => Item.becomes_changeFilter
  | mergeInto i j entry inPlace op =>
    apply becomes_alter
    intro item item' hitem'
    obtain ⟨right, -, hitem'⟩ := Except.of_bind_eq_ok hitem'
    exact Item.becomes_changeFilter hitem'

theorem becomes_run (h : Heap) (calls : List Call) : h.Becomes (h.run calls) := by
  induction calls generalizing h with
  | nil => exact .refl h
  | cons call calls ih => exact (becomes_step call).trans (ih (h.step call).2)

/-! ## Where values of a run come from -/

theorem length_alter (h : Heap) (i : Nat) (change : Item → Except Refusal Item) :
    (h.alter i change).2.length = h.length := by
  unfold alter
  split
  · exact List.length_set
  · rfl

theorem of_getElem?_step {call : Call} {item : Item} (hi : (h.step call).2[i]? = some item) :
    (∃ old : Item, h[i]? = some old ∧ old.Becomes item) ∨
      ∃ origin, call = .make origin ∧ origin.make h = .ok item := by
  cases hold : h[i]? with
  | some old =>
    obtain ⟨item', hi', hitem'⟩ := becomes_step call i old hold
    obtain rfl := Option.some.inj (hi'.symm.trans hi)
    exact .inl ⟨old, rfl, hitem'⟩
  | none =>
    have hlen : h.length ≤ i := List.getElem?_eq_none_iff.1 hold
    -- Changes make no new values.
    have habsurd : ∀ j change, (h.alter j change).2[i]? ≠ some item := by
      intro j change hset
      have hlt := (List.getElem?_eq_some_iff.1 hset).1
      rw [length_alter] at hlt
      omega
    cases call with
    | make origin =>
      right
      cases hmake : origin.make h with
      | error refusal =>
        rw [step, hmake, add, hold] at hi
        cases hi
      | ok new =>
        rw [step, hmake, add, List.getElem?_append_right hlen] at hi
        rw [List.mem_singleton.1 (List.mem_of_getElem? hi)]
        exact ⟨origin, rfl, hmake⟩
    | _ => exact absurd hi (habsurd _ _)

theorem run_append (h : Heap) (calls calls' : List Call) :
    h.run (calls ++ calls') = (h.run calls).run calls' := List.foldl_append

theorem exists_origin {calls : List Call} {item : Item}
    (hi : (run [] calls)[i]? = some item) :
    ∃ before origin, Call.make origin ∈ calls ∧
      origin.asked? before = some item.content.length := by
  -- The last call has made the value, or it has kept the length that the value had before.
  induction calls using List.reverseRecOn generalizing item with
  | nil => cases hi
  | append_singleton calls call ih =>
    rw [run_append] at hi
    rcases of_getElem?_step hi with ⟨old, hold, hitem⟩ | ⟨origin, rfl, hmake⟩
    · obtain ⟨before, origin, hmem, hasked⟩ := ih hold
      exact ⟨before, origin, List.mem_append_left _ hmem, by rw [hasked, hitem.length_eq]⟩
    · exact ⟨_, origin, by simp, Origin.asked_of_make hmake⟩

end Heap

end DigestFilter
