import DigestFilter.Proofs.Command.FilterFiles

/-!
# Flawed commands

One malformed identifier or one unreadable file among many, operands that cannot be loaded or that
differ in size, no bytes to make a filter of: a command that is given such a thing complains,
whatever else it is given, and leaves the world as it was.
-/

namespace DigestFilter

open Attempt

theorem Except.exists_mapM_eq_error {ε α β : Type} {f : α → Except ε β} {xs : List α} {x : α}
    {e : ε} (hx : x ∈ xs) (h : f x = .error e) : ∃ e', xs.mapM f = .error e' := by
  induction xs with
  | nil => cases hx
  | cons y ys ih =>
    rw [List.mapM_cons]
    cases hy : f y with
    | error e' => exact ⟨e', rfl⟩
    | ok z =>
      rcases List.mem_cons.1 hx with rfl | hx
      · rw [h] at hy
        cases hy
      · obtain ⟨e', he'⟩ := ih hx
        rw [he']
        exact ⟨e', rfl⟩

namespace FilterCommand

/-- Something that the command is given stands in its way. -/
inductive Flawed (w : World) : FilterCommand → Prop where
  | noBytes (path : String) : Flawed w (.create path (some 0))
  | malformed {path hex : String} {ids files : List String} {e : Error} :
    hex ∈ ids → Identifier.parse hex = .error e → Flawed w (.insert path ids files)
  | unreadable {path file : String} {ids files : List String} {fault : DeviceFault} :
    file ∈ files → w.files.read file = .error fault → Flawed w (.insert path ids files)
  | noLeft {a b output : String} {op : MergeOp} {e : Error} :
    (Filter.load a).runOn w = (.error e, w) → Flawed w (.merge a b op output)
  | noRight {a b output : String} {op : MergeOp} {e : Error} :
    (Filter.load b).runOn w = (.error e, w) → Flawed w (.merge a b op output)
  | unequal {a b output : String} {op : MergeOp} {left right : Filter} :
    (Filter.load a).runOn w = (.ok left, w) → (Filter.load b).runOn w = (.ok right, w) →
      left.size ≠ right.size → Flawed w (.merge a b op output)

variable {config : Config} {w : World}

theorem runOn_load_bind {α : Type} (path : String) (k : Filter → Act α) :
    (Act.attempt (Filter.load path) >>= k).runOn w = match ((Filter.load path).runOn w).1 with
      | .ok f => (k f).runOn w
      | .error e => (.error (.refused e), w) := by
  rw [(Act.looks_load path).runOn_bind, Filter.runOn_load]
  dsimp only
  cases ((w.files.read path).mapError Error.device).bind Filter.decode <;> rfl

theorem runInsert_of_malformed {path hex : String} {ids files : List String} {e : Error}
    (hmem : hex ∈ ids) (h : Identifier.parse hex = .error e) :
    ∃ complaint, (runInsert config path ids files).runOn w = (.error complaint, w) := by
  obtain ⟨complaint, hparsed⟩ : ∃ complaint, parsed ids = .error complaint :=
    Except.exists_mapM_eq_error hmem (by rw [h]; rfl)
  rw [runInsert, runOn_load_bind]
  cases ((Filter.load path).runOn w).1 with
  | error e => exact ⟨_, rfl⟩
  | ok f =>
    dsimp only
    rw [(looks_parsed ids).runOn_bind, hparsed]
    exact ⟨complaint, rfl⟩

theorem runInsert_of_unreadable {path file : String} {ids files : List String}
    {fault : DeviceFault} (hmem : file ∈ files) (h : w.files.read file = .error fault) :
    ∃ complaint, (runInsert config path ids files).runOn w = (.error complaint, w) := by
  obtain ⟨complaint, hnamed⟩ : ∃ complaint, named w files = .error complaint :=
    Except.exists_mapM_eq_error hmem (by rw [h]; rfl)
  rw [runInsert, runOn_load_bind]
  cases ((Filter.load path).runOn w).1 with
  | error e => exact ⟨_, rfl⟩
  | ok f =>
    dsimp only
    rw [(looks_parsed ids).runOn_bind]
    cases parsed ids with
    | error complaint' => exact ⟨complaint', rfl⟩
    | ok xs =>
      dsimp only
      rw [(looks_named files).runOn_bind, hnamed]
      exact ⟨complaint, rfl⟩

theorem runMerge_of_unequal {a b output : String} {op : MergeOp} {left right : Filter}
    (ha : (Filter.load a).runOn w = (.ok left, w)) (hb : (Filter.load b).runOn w = (.ok right, w))
    (h : left.size ≠ right.size) :
    ∃ complaint, (runMerge config a b op output).runOn w = (.error complaint, w) := by
  rw [runMerge, runOn_load_bind, ha]
  dsimp only
  rw [runOn_load_bind, hb]
  dsimp only
  rw [(Act.looks_ofExcept _).runOn_bind, Filter.merge_of_size_ne h]
  exact ⟨_, rfl⟩

theorem runOn_of_flawed {c : FilterCommand} (h : c.Flawed w) :
    ∃ complaint, (c.run config).runOn w = (.error complaint, w) := by
  cases h with
  | noBytes path => exact ⟨_, rfl⟩
  | malformed hmem hparse => exact runInsert_of_malformed hmem hparse
  | unreadable hmem hread => exact runInsert_of_unreadable hmem hread
  | noLeft ha =>
    rw [run, runMerge, runOn_load_bind, ha]
    exact ⟨_, rfl⟩
  | @noRight a b output op e hb =>
    rw [run, runMerge, runOn_load_bind]
    cases ((Filter.load a).runOn w).1 with
    | error e => exact ⟨_, rfl⟩
    | ok left =>
      dsimp only
      rw [runOn_load_bind, hb]
      exact ⟨_, rfl⟩
  | unequal ha hb hsize => exact runMerge_of_unequal ha hb hsize

end FilterCommand

end DigestFilter
