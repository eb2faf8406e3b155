import DigestFilter.Proofs.Command.FilterFiles
import DigestFilter.Proofs.Command.Printing

/-!
# Running a command line

A command line is run in a world that represents a store. The world that it leaves represents what
the store is after the command, whether or not the document can be printed then.
-/

namespace DigestFilter

/-- A command line about filters: its arguments, what they ask for, and the settings it finds. -/
structure Job where
  directory : Option String
  args : List String
  format : OutputFormat
  settings : Option String
  command : FilterCommand
  config : Config

/-- Where the filter paths lead, with nothing for all other paths. -/
abbrev Sites := String → Option Location

/-- Filter paths that are spelled differently lead to different files. -/
def Sites.Distinct (sites : Sites) : Prop :=
  ∀ path path' l, sites path = some l → sites path' = some l → path = path'

namespace Job

structure Fits (sites : Sites) (job : Job) (w : World) : Prop where
  asks : Request.ofArguments job.args =
    some (.run ⟨job.format, job.settings, .filter job.command⟩)
  settles : Config.found (Request.settingsPath job.directory job.settings) w = .ok job.config
  on_filters : ∀ path ∈ job.command.paths, (sites path).isSome
  syncs : ∀ path, job.command.target? = some path → w.sync path = .ok ()
  fits_memory : job.command.FitsMemory job.config

def execute (job : Job) (w : World) : Outcome × World :=
  (Request.execute job.directory job.args).runOn w

end Job

/-- Every filter path leads to what the store has under it. -/
def World.Represents (w : World) (sites : Sites) (store : Store) : Prop :=
  ∀ path l, sites path = some l → w.HasFilter path l (store path)

theorem World.Represents.put {sites : Sites} {w : World} {store : Store} {path : String}
    {l : Location} (hrep : w.Represents sites store) (hdistinct : sites.Distinct)
    (hl : sites path = some l) (f : Filter) (hsize : f.size < 2 ^ 63) (withHeader : Bool) :
    (w.put l (f.encode withHeader)).Represents sites
      (Function.update store path (some f.bitmap)) := by
  intro path' l' hl'
  by_cases hpath : path' = path
  · subst hpath
    obtain rfl := Option.some.inj (hl.symm.trans hl')
    rw [Function.update_self]
    exact hasFilter_put (hrep _ _ hl) f hsize withHeader
  · have hne : l' ≠ l := fun he => hpath (hdistinct path' path l (he ▸ hl') hl)
    rw [Function.update_of_ne hpath]
    exact hasFilter_put_of_ne (hrep _ _ hl) (hrep _ _ hl') hne

theorem World.Represents.of_files_eq {sites : Sites} {w w' : World} {store : Store}
    (hrep : w.Represents sites store) (h : w'.files = w.files) : w'.Represents sites store := by
  intro path l hl
  have hold := hrep path l hl
  unfold HasFilter at hold ⊢
  rwa [h]

namespace FilterCommand

variable {sites : Sites} {w : World} {store : Store} {config : Config} {c : FilterCommand}
  {path : String} {l : Location}

theorem mem_paths_of_target (h : c.target? = some path) : path ∈ c.paths := by
  cases c with
  | create path capacity | insert path ids files =>
    cases h
    exact List.mem_singleton_self path
  | merge a b op output =>
    cases h
    simp [paths]
  | check path ids | info path => cases h

theorem writes_of_target (hrep : w.Represents sites store)
    (hpaths : ∀ path ∈ c.paths, (sites path).isSome) (hmemory : c.FitsMemory config)
    (htarget : c.target? = some path) (hsync : w.sync path = .ok ()) (hl : sites path = some l) :
    Writes w l config.writeHeader ((c.run config).runOn w) (c.written? config w.inputs store) := by
  cases c with
  | create path capacity =>
    cases htarget
    exact writes_create (hrep _ l hl) hsync hmemory
  | insert path ids files =>
    cases htarget
    exact writes_insert (hrep _ l hl) hsync
  | merge a b op output =>
    cases htarget
    obtain ⟨la, ha⟩ := Option.isSome_iff_exists.1 (hpaths a (by simp [paths]))
    obtain ⟨lb, hb⟩ := Option.isSome_iff_exists.1 (hpaths b (by simp [paths]))
    exact writes_merge (hrep a la ha) (hrep b lb hb) (hrep _ l hl) hsync
  | check path ids => cases htarget
  | info path => cases htarget

end FilterCommand

namespace Job

variable {sites : Sites} {job : Job} {w : World} {store : Store} {path : String} {l : Location}

theorem runOn_command (h : job.Fits sites w) :
    Attempt.runOn (do
      let config ← Request.config job.directory job.settings
      (Command.filter job.command).run config) w = (job.command.run job.config).runOn w := by
  rw [(Request.looks_config _ _).runOn_bind, h.settles]
  rfl

theorem execute_eq (h : job.Fits sites w) : job.execute w =
    (Request.runInvocation job.directory
      ⟨job.format, job.settings, .filter job.command⟩).runOn w := by
  rw [execute, Request.execute, h.asks]

theorem execute_of_ok (h : job.Fits sites w) {reply : Reply} {w' : World}
    (hrun : (job.command.run job.config).runOn w = (.ok reply, w')) :
    w'.Reports reply.document reply.exit (job.execute w) := by
  rw [execute_eq h]
  exact Request.runOn_runInvocation_of_ok ((runOn_command h).trans hrun)

theorem execute_of_error (h : job.Fits sites w) {complaint : Complaint} {w' : World}
    (hrun : (job.command.run job.config).runOn w = (.error complaint, w')) :
    job.execute w = (.failed complaint, w') := by
  rw [execute_eq h]
  exact Request.runOn_runInvocation_of_error ((runOn_command h).trans hrun)

theorem Fits.exists_site (h : job.Fits sites w) (htarget : job.command.target? = some path) :
    ∃ l, sites path = some l :=
  Option.isSome_iff_exists.1 (h.on_filters path (FilterCommand.mem_paths_of_target htarget))

theorem Fits.exists_hasFilter (h : job.Fits sites w) (hrep : w.Represents sites store)
    (hpath : path ∈ job.command.paths) : ∃ l, w.HasFilter path l (store path) := by
  obtain ⟨l, hl⟩ := Option.isSome_iff_exists.1 (h.on_filters path hpath)
  exact ⟨l, hrep path l hl⟩

theorem execute_of_written (hrep : w.Represents sites store) (h : job.Fits sites w)
    (htarget : job.command.target? = some path) (hl : sites path = some l) {bs : List UInt8}
    (hwritten : job.command.written? job.config w.inputs store = some bs) :
    ∃ (f : Filter) (document : Json), f.bitmap = bs ∧ f.size < 2 ^ 63 ∧
      (w.put l (f.encode job.config.writeHeader)).Reports document 0 (job.execute w) := by
  have hwrites := FilterCommand.writes_of_target hrep h.on_filters h.fits_memory htarget
    (h.syncs path htarget) hl
  rw [hwritten] at hwrites
  obtain ⟨reply, f, hrun, hexit, hbitmap, hsize⟩ := hwrites
  have hreports := execute_of_ok h hrun
  rw [hexit] at hreports
  exact ⟨f, reply.document, hbitmap, hsize, hreports⟩

theorem execute_of_not_written (hrep : w.Represents sites store) (h : job.Fits sites w)
    (htarget : job.command.target? = some path)
    (hwritten : job.command.written? job.config w.inputs store = none) :
    ∃ complaint, job.execute w = (.failed complaint, w) := by
  obtain ⟨l, hl⟩ := h.exists_site htarget
  have hwrites := FilterCommand.writes_of_target hrep h.on_filters h.fits_memory htarget
    (h.syncs path htarget) hl
  rw [hwritten] at hwrites
  obtain ⟨complaint, hrun⟩ := hwrites
  exact ⟨complaint, execute_of_error h hrun⟩

theorem files_of_no_target (h : job.Fits sites w) (htarget : job.command.target? = none) :
    (job.execute w).2.files = w.files := by
  have hw := @FilterCommand.snd_runOn_of_no_target w job.config _ htarget
  rcases hrun : (job.command.run job.config).runOn w with ⟨complaint | reply, w'⟩
  · rw [hrun] at hw
    rw [execute_of_error h hrun]
    exact congrArg World.files hw
  · rw [hrun] at hw
    rw [(execute_of_ok h hrun).files_eq]
    exact congrArg World.files hw

theorem files_of_failed (hrep : w.Represents sites store) (h : job.Fits sites w) {before : String}
    (hstdout : w.stdout = .ok before) (hexit : (job.execute w).1.exit ≠ 0) :
    (job.execute w).2.files = w.files := by
  cases htarget : job.command.target? with
  | none => exact files_of_no_target h htarget
  | some path =>
    cases hwritten : job.command.written? job.config w.inputs store with
    | none =>
      obtain ⟨complaint, hexecute⟩ := execute_of_not_written hrep h htarget hwritten
      rw [hexecute]
    | some bs =>
      obtain ⟨l, hl⟩ := h.exists_site htarget
      obtain ⟨f, document, -, -, hreports⟩ := execute_of_written hrep h htarget hl hwritten
      obtain ⟨text, -, hexecute⟩ := hreports.of_stdout hstdout
      rw [hexecute] at hexit
      exact absurd rfl hexit

theorem represents_execute (hdistinct : sites.Distinct) (hrep : w.Represents sites store)
    (h : job.Fits sites w) :
    (job.execute w).2.Represents sites
      (job.command.storeAfter job.config w.inputs store) := by
  rw [FilterCommand.storeAfter]
  cases htarget : job.command.target? with
  | none => exact hrep.of_files_eq (files_of_no_target h htarget)
  | some path =>
    cases hwritten : job.command.written? job.config w.inputs store with
    | none =>
      obtain ⟨complaint, hexecute⟩ := execute_of_not_written hrep h htarget hwritten
      rw [hexecute]
      exact hrep
    | some bs =>
      obtain ⟨l, hl⟩ := h.exists_site htarget
      obtain ⟨f, document, rfl, hsize, hreports⟩ :=
        execute_of_written hrep h htarget hl hwritten
      exact (hrep.put hdistinct hl f hsize _).of_files_eq hreports.files_eq

theorem Fits.written_create (h : job.Fits sites w) (hcreate : job.command = .create path none) :
    job.command.written? job.config w.inputs store =
      some (List.replicate job.config.defaultCapacity.toNat 0) := by
  have hpos : job.config.defaultCapacity.toNat ≠ 0 := fun hzero =>
    Config.defaultCapacity_ne_zero h.settles (UInt64.toNat_inj.1 hzero)
  rw [hcreate]
  exact if_neg hpos

theorem Fits.hasAll_of_inserted (hrep : w.Represents sites store) (h : job.Fits sites w)
    {ids files : List String} (hinsert : job.command = .insert path ids files) {bs : List UInt8}
    (hwritten : job.command.written? job.config w.inputs store = some bs) {xs : List Identifier}
    (hxs : FilterCommand.inserted? w.inputs ids files = some xs) {x : Identifier} (hx : x ∈ xs) :
    Bitmap.hasAll bs (hashes x) = true := by
  have hpath : path ∈ job.command.paths := by simp [hinsert, FilterCommand.paths]
  obtain ⟨l, hfile⟩ := h.exists_hasFilter hrep hpath
  rw [hinsert, FilterCommand.written?, hxs] at hwritten
  cases hstore : store path with
  | none =>
    rw [hstore] at hwritten
    cases hwritten
  | some before =>
    rw [hstore] at hwritten hfile
    cases hwritten
    exact Bitmap.hasAll_mark hfile.ne_nil fun code hcode => mem_codes.2 ⟨x, hx, hcode⟩

end Job

end DigestFilter
