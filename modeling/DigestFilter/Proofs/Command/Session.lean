import DigestFilter.Proofs.Command.Job

/-!
# Sessions

A session is a row of command lines that work on the same filter files. Each comes with settings of
its own, and between two of them anything may happen to other files. The files go along with the
store of bitmaps: what stands under a filter path represents what the store has there, at the start
because nothing does, and after every command because it writes what the store would.
-/

namespace DigestFilter

/-- A command that has been run, and the world that it found. -/
structure Entry where
  job : Job
  found : World

namespace Entry

def outcome (e : Entry) : Outcome := (e.job.execute e.found).1

/-- The command has written a filter to this path, whether or not it could print its document. -/
def Wrote (e : Entry) (path : String) : Prop :=
  e.job.command.target? = some path ∧ (e.outcome.exit = 0 ∨ e.outcome.exit = 101)

end Entry

def Store.ofLog (log : List Entry) : Store :=
  log.foldl (fun store e => e.job.command.storeAfter e.job.config e.found.inputs store)
    fun _ => none

/-- What has been run, and the world that there is now. -/
inductive Session (sites : Sites) : List Entry → World → Prop
  | start {w : World}
      (vacant : ∀ path l, sites path = some l → w.files.locate path = .ok (.vacant l false)) :
      Session sites [] w
  | meanwhile {log : List Entry} {w w' : World} (session : Session sites log w)
      (same : ∀ path l, sites path = some l → w'.files.locate path = w.files.locate path) :
      Session sites log w'
  | run {log : List Entry} {w : World} {job : Job} (session : Session sites log w)
      (fits : job.Fits sites w) : Session sites (log ++ [⟨job, w⟩]) (job.execute w).2

theorem Entry.wrote_iff {sites : Sites} {job : Job} {w : World} {store : Store} {path : String}
    (hrep : w.Represents sites store) (h : job.Fits sites w) :
    (Entry.mk job w).Wrote path ↔
      job.command.target? = some path ∧
        (job.command.written? job.config w.inputs store).isSome := by
  rw [Wrote, and_congr_right_iff]
  intro htarget
  obtain ⟨l, hl⟩ := h.exists_site htarget
  cases hwritten : job.command.written? job.config w.inputs store with
  | none =>
    obtain ⟨complaint, hexecute⟩ := Job.execute_of_not_written hrep h htarget hwritten
    simp [outcome, hexecute, Outcome.failed]
  | some bs =>
    obtain ⟨f, document, -, -, hreports⟩ := Job.execute_of_written hrep h htarget hl hwritten
    simpa [outcome] using hreports.exit_eq

/-! ## A whole session -/

namespace Session

variable {sites : Sites} {log : List Entry} {w : World} {path : String}

theorem ofLog_append (log : List Entry) (e : Entry) :
    Store.ofLog (log ++ [e]) =
      e.job.command.storeAfter e.job.config e.found.inputs (Store.ofLog log) := by
  rw [Store.ofLog, List.foldl_append]
  rfl

theorem represents (hdistinct : sites.Distinct) (h : Session sites log w) :
    w.Represents sites (Store.ofLog log) := by
  induction h with
  | start vacant => exact vacant
  | meanwhile session same ih =>
    intro path l hl
    have hold := ih path l hl
    unfold World.HasFilter at hold ⊢
    rwa [same path l hl]
  | run session fits ih =>
    rw [ofLog_append]
    exact Job.represents_execute hdistinct ih fits

theorem isSome_ofLog (hdistinct : sites.Distinct) (h : Session sites log w) :
    (Store.ofLog log path).isSome ↔ ∃ e ∈ log, e.Wrote path := by
  induction h with
  | start vacant => simp [Store.ofLog]
  | meanwhile session same ih => exact ih
  | run session fits ih =>
    rw [ofLog_append, FilterCommand.isSome_storeAfter, ih,
      ← Entry.wrote_iff (represents hdistinct session) fits]
    simp only [List.mem_append, List.mem_singleton, or_and_right, exists_or, exists_eq_left]

theorem exists_read_iff (hrep : w.Represents sites (Store.ofLog log)) {l : Location}
    (hl : sites path = some l) :
    (∃ content, w.files.read path = .ok content) ↔ (Store.ofLog log path).isSome := by
  have h := hrep path l hl
  cases hstore : Store.ofLog log path with
  | none =>
    rw [hstore] at h
    simp [FileTree.read_of_vacant h]
  | some bs =>
    rw [hstore] at h
    obtain ⟨f, withHeader, -, -, hfile⟩ := h
    simp [FileTree.read_of_file hfile]

theorem load_eq (hrep : w.Represents sites (Store.ofLog log)) {l : Location}
    (hl : sites path = some l) :
    (Store.ofLog log path = none →
      (Filter.load path).runOn w = (.error (.device .notFound), w)) ∧
    ∀ bs, Store.ofLog log path = some bs →
      ∃ f : Filter, f.bitmap = bs ∧ f.frozen = false ∧ (Filter.load path).runOn w = (.ok f, w) := by
  have h := hrep path l hl
  constructor
  · intro hstore
    rw [hstore] at h
    exact World.load_of_none h
  · intro bs hstore
    rw [hstore] at h
    obtain ⟨f, hbitmap, hfrozen, -, hload⟩ := World.load_of_some h
    exact ⟨f, hbitmap, hfrozen, hload⟩

variable {job : Job}

theorem execute_of_check (hrep : w.Represents sites (Store.ofLog log)) (h : job.Fits sites w)
    {ids : List String} (hcheck : job.command = .check path ids) :
    (∀ bs, Store.ofLog log path = some bs →
      w.Reports (FilterCommand.checkAnswer bs ids).1 (FilterCommand.checkAnswer bs ids).2
        (job.execute w)) ∧
    (Store.ofLog log path = none →
      job.execute w = (.failed (.refused (.device .notFound)), w)) := by
  have hpath : path ∈ job.command.paths := by simp [hcheck, FilterCommand.paths]
  obtain ⟨l, hfile⟩ := h.exists_hasFilter hrep hpath
  constructor
  · intro bs hstore
    rw [hstore] at hfile
    have hrun := FilterCommand.runOn_check hfile ids
    exact Job.execute_of_ok h (by rw [hcheck]; exact hrun)
  · intro hstore
    rw [hstore] at hfile
    refine Job.execute_of_error h ?_
    rw [hcheck, FilterCommand.run, FilterCommand.runCheck, FilterCommand.runOn_load_of_none hfile]

theorem execute_of_info (hrep : w.Represents sites (Store.ofLog log)) (h : job.Fits sites w)
    (hinfo : job.command = .info path) :
    (∀ bs, Store.ofLog log path = some bs →
      w.Reports (FilterCommand.infoDocument path bs) 0 (job.execute w)) ∧
    (Store.ofLog log path = none →
      job.execute w = (.failed (.refused (.device .notFound)), w)) := by
  have hpath : path ∈ job.command.paths := by simp [hinfo, FilterCommand.paths]
  obtain ⟨l, hfile⟩ := h.exists_hasFilter hrep hpath
  constructor
  · intro bs hstore
    rw [hstore] at hfile
    have hrun := FilterCommand.runOn_info hfile
    exact Job.execute_of_ok h (by rw [hinfo]; exact hrun)
  · intro hstore
    rw [hstore] at hfile
    refine Job.execute_of_error h ?_
    rw [hinfo, FilterCommand.run, FilterCommand.runInfo, FilterCommand.runOn_load_of_none hfile]

/-- The files are what the store says, and what is printed is read as its answer. -/
theorem files_refine_store (hdistinct : sites.Distinct) (h : Session sites log w) :
    (∀ path l, sites path = some l →
      ((∃ content, w.files.read path = .ok content) ↔ ∃ e ∈ log, e.Wrote path) ∧
      (Store.ofLog log path = none →
        (Filter.load path).runOn w = (.error (.device .notFound), w)) ∧
      ∀ bs, Store.ofLog log path = some bs → ∃ f : Filter,
        f.bitmap = bs ∧ f.frozen = false ∧ (Filter.load path).runOn w = (.ok f, w)) ∧
    ∀ job : Job, job.Fits sites w →
      (∀ path l, job.command.target? = some path → sites path = some l →
        (∀ bs, job.command.written? job.config w.inputs (Store.ofLog log) = some bs →
          ∃ (f : Filter) (document : Json), f.bitmap = bs ∧
            (w.put l (f.encode job.config.writeHeader)).Reports document 0 (job.execute w)) ∧
        (job.command.written? job.config w.inputs (Store.ofLog log) = none →
          ∃ complaint, job.execute w = (.failed complaint, w))) ∧
      (∀ before, w.stdout = .ok before → (job.execute w).1.exit ≠ 0 →
        (job.execute w).2.files = w.files) ∧
      (∀ path, job.command = .create path none →
        job.command.written? job.config w.inputs (Store.ofLog log) =
          some (List.replicate job.config.defaultCapacity.toNat 0)) ∧
      (∀ path ids files, job.command = .insert path ids files →
        ∀ bs, job.command.written? job.config w.inputs (Store.ofLog log) = some bs →
        ∀ xs, FilterCommand.inserted? w.inputs ids files = some xs →
        ∀ x ∈ xs, Bitmap.hasAll bs (hashes x) = true) ∧
      (∀ path ids, job.command = .check path ids →
        (∀ bs, Store.ofLog log path = some bs →
          w.Reports (FilterCommand.checkAnswer bs ids).1 (FilterCommand.checkAnswer bs ids).2
            (job.execute w)) ∧
        (Store.ofLog log path = none →
          job.execute w = (.failed (.refused (.device .notFound)), w))) ∧
      ∀ path, job.command = .info path →
        (∀ bs, Store.ofLog log path = some bs →
          w.Reports (FilterCommand.infoDocument path bs) 0 (job.execute w)) ∧
        (Store.ofLog log path = none →
          job.execute w = (.failed (.refused (.device .notFound)), w)) := by
  have hrep := represents hdistinct h
  constructor
  · intro path l hl
    exact ⟨(exists_read_iff hrep hl).trans (isSome_ofLog hdistinct h), load_eq hrep hl⟩
  · intro job hfits
    refine ⟨?_, fun _ => Job.files_of_failed hrep hfits, fun _ => hfits.written_create, ?_,
      fun _ _ => execute_of_check hrep hfits, fun _ => execute_of_info hrep hfits⟩
    · intro path l htarget hl
      refine ⟨?_, Job.execute_of_not_written hrep hfits htarget⟩
      intro bs hwritten
      obtain ⟨f, document, hbitmap, -, hreports⟩ :=
        Job.execute_of_written hrep hfits htarget hl hwritten
      exact ⟨f, document, hbitmap, hreports⟩
    · intro path ids files hinsert bs hwritten xs hxs x hx
      exact hfits.hasAll_of_inserted hrep hinsert hwritten hxs hx

/-! ## One session -/

def twoSites : Sites := fun path =>
  if path = "a" then some ["home", "a"] else if path = "/b" then some ["b"] else none

theorem of_twoSites_eq_some {path : String} {l : Location} (h : twoSites path = some l) :
    path = "a" ∧ l = ["home", "a"] ∨ path = "/b" ∧ l = ["b"] := by
  unfold twoSites at h
  split at h
  · next hpath =>
    cases h
    exact .inl ⟨hpath, rfl⟩
  split at h
  · next hpath =>
    cases h
    exact .inr ⟨hpath, rfl⟩
  · cases h

theorem twoSites_distinct : twoSites.Distinct := by
  intro path path' l h h'
  rcases of_twoSites_eq_some h with ⟨rfl, rfl⟩ | ⟨rfl, rfl⟩ <;>
    rcases of_twoSites_eq_some h' with ⟨rfl, hl⟩ | ⟨rfl, hl⟩ <;> simp_all

def settingsOnly : World where
  files := {
    nodes := [(["home"], .directory), (["home", "c.json"], .file (Utf8.encode "[2, false]"))]
    workingDirectory := ["home"] }

def byDefault (args : List String) (command : FilterCommand) : Job :=
  { directory := none, args, format := .compact, settings := none, command, config := {} }

def plainNew : Job where
  directory := none
  args := ["--config", "c.json", "filter", "new", "/b"]
  format := .compact
  settings := some "c.json"
  command := .create "/b" none
  config := ⟨2, false⟩

def headedNew : Job := byDefault ["filter", "new", "a", "-c", "2"] (.create "a" (some 2))

def insertion : Job :=
  byDefault ["filter", "insert", "a", "09000000"] (.insert "a" ["09000000"] [])

def mergeBack : Job :=
  byDefault ["filter", "merge", "a", "/b", "-o", "/b"] (.merge "a" "/b" .or "/b")

def badInsertion : Job :=
  byDefault ["filter", "insert", "a", "0a000000", "xyz"] (.insert "a" ["0a000000", "xyz"] [])

def lookUp : Job :=
  byDefault ["filter", "check", "/b", "09000000", "0a000000"]
    (.check "/b" ["09000000", "0a000000"])

def Syncs (w : World) : Prop := ∀ path, w.sync path = .ok ()

theorem fits_byDefault {args : List String} {command : FilterCommand}
    (hasks : Request.ofArguments args = some (.run ⟨.compact, none, .filter command⟩))
    (hpaths : ∀ path ∈ command.paths, (twoSites path).isSome) (hmemory : command.FitsMemory {})
    (hsync : Syncs w) : (byDefault args command).Fits twoSites w :=
  ⟨hasks, rfl, hpaths, fun path _ => hsync path, hmemory⟩

theorem syncs_execute (job : Job) (h : Syncs w) : Syncs (job.execute w).2 := by
  intro path
  rw [Job.execute, Program.sync_runOn, h]

theorem with_stdout (h : Session twoSites log w) (stdout : Except DeviceFault String) :
    Session twoSites log { w with stdout } := h.meanwhile fun _ _ _ => rfl

/-- Nothing can be printed when the insertion runs, but it inserts. -/
theorem exists_session : ∃ log w, Session twoSites log w ∧ Syncs w ∧ w.stdout = .ok "" ∧
    Store.ofLog log "a" = some [0, 2] ∧ Store.ofLog log "/b" = some [0, 2] := by
  have hstart : Session twoSites [] settingsOnly := by
    apply Session.start
    intro path l hl
    rcases of_twoSites_eq_some hl with ⟨rfl, rfl⟩ | ⟨rfl, rfl⟩ <;> rfl
  have hsmall : 2 < 2 ^ 63 := by decide
  have hplain : plainNew.Fits twoSites settingsOnly :=
    ⟨rfl, by decide +kernel, by decide, fun _ _ => rfl, hsmall⟩
  have hheaded : ∀ w, Syncs w → headedNew.Fits twoSites w :=
    fun _ => fits_byDefault rfl (by decide) hsmall
  have hinsertion : ∀ w, Syncs w → insertion.Fits twoSites w :=
    fun _ => fits_byDefault rfl (by decide) trivial
  have hmerge : ∀ w, Syncs w → mergeBack.Fits twoSites w :=
    fun _ => fits_byDefault rfl (by decide) trivial
  have hsync₁ : Syncs (plainNew.execute settingsOnly).2 := syncs_execute plainNew fun _ => rfl
  have hsync₂ := syncs_execute headedNew hsync₁
  have hmade := ((hstart.run hplain).run (hheaded _ hsync₁)).with_stdout (.error .full)
  have hinserted := hmade.run (hinsertion _ hsync₂)
  have hmerged := hinserted.run (hmerge _ (syncs_execute insertion hsync₂))
  exact ⟨_, _, hmerged.with_stdout (.ok ""),
    syncs_execute mergeBack (syncs_execute insertion hsync₂), rfl, rfl, rfl⟩

theorem files_refine_store_mergeBack : ∃ log w,
    twoSites.Distinct ∧ Session twoSites log w ∧
    (twoSites "/b" = some ["b"] ∧ Store.ofLog log "/b" = some [0, 2] ∧ ∃ f : Filter,
      f.bitmap = [0, 2] ∧ f.frozen = false ∧ (Filter.load "/b").runOn w = (.ok f, w)) ∧
    (insertion.Fits twoSites w ∧ (insertion.execute w).1.exit = 0) ∧
    (badInsertion.Fits twoSites w ∧ ∃ complaint,
      badInsertion.execute w = (.failed complaint, w)) ∧
    lookUp.Fits twoSites w ∧ ∃ text, Json.parse? text = some (.object [
      (some "count", .ofNat 2),
      (some "results", .array [
        .object [(some "id", .ofText "09000000"), (some "present", .bool true)],
        .object [(some "id", .ofText "0a000000"), (some "present", .bool false)]])]) ∧
      lookUp.execute w = ({ exit := 1 }, { w with stdout := .ok ("" ++ text) }) := by
  obtain ⟨log, w, hsession, hsync, hstdout, ha, hb⟩ := exists_session
  obtain ⟨hfiles, hjobs⟩ := files_refine_store twoSites_distinct hsession
  have hgood : insertion.Fits twoSites w := fits_byDefault rfl (by decide) trivial hsync
  have hbad : badInsertion.Fits twoSites w := fits_byDefault rfl (by decide) trivial hsync
  have hlookUp : lookUp.Fits twoSites w := fits_byDefault rfl (by decide) trivial hsync
  have hwritten : insertion.command.written? {} w.inputs (Store.ofLog log) = some [0, 2] := by
    show (Store.ofLog log "a").bind _ = some [0, 2]
    rw [ha]
    rfl
  have hrefused : badInsertion.command.written? {} w.inputs (Store.ofLog log) = none := by
    show (Store.ofLog log "a").bind _ = none
    rw [ha]
    rfl
  obtain ⟨f, document, -, hinserted⟩ :=
    ((hjobs insertion hgood).1 "a" ["home", "a"] rfl rfl).1 _ hwritten
  obtain ⟨text, -, hinserted⟩ := hinserted.of_stdout hstdout
  have hfailed := ((hjobs badInsertion hbad).1 "a" ["home", "a"] rfl rfl).2 hrefused
  obtain ⟨-, -, -, -, hcheck, -⟩ := hjobs lookUp hlookUp
  obtain ⟨found, hfound, hanswer⟩ := ((hcheck "/b" _ rfl).1 _ hb).of_stdout hstdout
  exact ⟨log, w, twoSites_distinct, hsession, ⟨rfl, hb, (hfiles "/b" ["b"] rfl).2.2 _ hb⟩,
    ⟨hgood, congrArg (fun r => r.1.exit) hinserted⟩, ⟨hbad, hfailed⟩, hlookUp, found, hfound,
    hanswer⟩

end Session

end DigestFilter
