import DigestFilter.Proofs.Command.Flaw
import DigestFilter.Proofs.Command.Job
import DigestFilter.Proofs.Files.Trace

/-!
# What a command line does to the files

Every command looks at the settings and at what it needs before it writes, and it writes once. What
can still fail then is to sync the file and to print the document. So a command line that fails
before has changed nothing, and no command line changes more than the file that it was asked to
write.
-/

namespace DigestFilter

open Attempt

/-! ## Settings -/

theorem Config.onlyLooks_load (path : String) : (Config.load path).OnlyLooks := by
  apply (onlyLooks_probe path).bind
  intro present
  cases present with
  | true => exact (Attempt.onlyLooks_load _ path).bind fun bs => onlyLooks_ofExcept _
  | false => exact onlyLooks_pure _

theorem Request.onlyLooks_config (directory named : Option String) :
    (Request.config directory named).OnlyLooks := by
  match named, directory with
  | some path, _ => exact (Config.onlyLooks_load path).adapt _
  | none, some d => exact (Config.onlyLooks_load (configPath d)).adapt _
  | none, none => exact onlyLooks_pure _

/-! ## Commands -/

theorem Act.onlyLooks_ofExcept {α : Type} (r : Except Error α) : (Act.ofExcept r).OnlyLooks :=
  (Attempt.onlyLooks_ofExcept r).adapt _

theorem Act.onlyLooks_content (path : String) : (Act.content path).OnlyLooks :=
  Attempt.onlyLooks_load _ path

theorem Act.onlyLooks_load (path : String) : (Act.attempt (Filter.load path)).OnlyLooks :=
  ((Attempt.onlyLooks_load _ path).bind fun _ => Attempt.onlyLooks_ofExcept _).adapt _

theorem Act.savesLast_save (f : Filter) (path : String) (withHeader : Bool) :
    (Act.attempt (f.save path withHeader)).SavesLast path :=
  (Attempt.savesLast_save _ path _).adapt _

namespace FilterCommand

variable {config : Config} {c : FilterCommand} {path : String}

theorem savesLast_run (h : c.target? = some path) : (c.run config).SavesLast path := by
  cases c with
  | create path capacity =>
    cases h
    apply (Act.onlyLooks_ofExcept _).bind_savesLast
    intro f
    exact (Act.savesLast_save f path _).bind_pure _
  | insert path ids files =>
    cases h
    apply (Act.onlyLooks_load path).bind_savesLast
    intro f
    apply (OnlyLooks.mapM (fun hex => Act.onlyLooks_ofExcept _) ids).bind_savesLast
    intro parsed
    apply (OnlyLooks.mapM (fun file => (Act.onlyLooks_content file).bind fun _ =>
      onlyLooks_pure _) files).bind_savesLast
    intro named
    apply (Act.onlyLooks_ofExcept _).bind_savesLast
    intro g
    exact (Act.savesLast_save g path _).bind_pure _
  | merge a b op output =>
    cases h
    apply (Act.onlyLooks_load a).bind_savesLast
    intro left
    apply (Act.onlyLooks_load b).bind_savesLast
    intro right
    apply (Act.onlyLooks_ofExcept _).bind_savesLast
    intro merged
    exact (Act.savesLast_save merged path _).bind_pure _
  | check path ids | info path => cases h

theorem exit_run (h : c.target? = some path) : (c.run config).Gives (·.exit = 0) := by
  cases c with
  | create path capacity => exact gives_bind fun _ => gives_bind fun _ => gives_pure rfl
  | insert path ids files =>
    exact gives_bind fun _ => gives_bind fun _ => gives_bind fun _ => gives_bind fun _ =>
      gives_bind fun _ => gives_pure rfl
  | merge a b op output =>
    exact gives_bind fun _ => gives_bind fun _ => gives_bind fun _ => gives_bind fun _ =>
      gives_pure rfl
  | check path ids | info path => cases h

theorem onlyLooks_run (h : c.target? = none) : (c.run config).OnlyLooks := by
  cases c with
  | create path capacity | insert path ids files | merge a b op output => cases h
  | check path ids =>
    apply (Act.onlyLooks_load path).bind
    intro f
    cases ids.mapM Identifier.parse with
    | error e => exact onlyLooks_pure _
    | ok xs => exact onlyLooks_pure _
  | info path => exact (Act.onlyLooks_load path).bind fun f => onlyLooks_pure _

end FilterCommand

namespace Command

def target? : Command → Option String
  | .filter c => c.target?
  | .identify _ _ _ | .parse _ => none

variable {config : Config} {c : Command} {path : String}

theorem onlyLooks_runIdentify (files : List String) (stdin : Bool) (base : Option Nat) :
    (runIdentify files stdin base).OnlyLooks := by
  have hbase : (base.mapM fun b => Act.ofExcept (Alphabet.ofBase b)).OnlyLooks := by
    cases base with
    | none => exact onlyLooks_pure _
    | some b => exact (Act.onlyLooks_ofExcept _).bind fun _ => onlyLooks_pure _
  have hnamed : (files.mapM fun path => do return (path, ← Act.content path)).OnlyLooks :=
    OnlyLooks.mapM (fun path => (Act.onlyLooks_content path).bind fun _ => onlyLooks_pure _) files
  apply hbase.bind
  intro alphabet
  split
  · exact (onlyLooks_input _).bind fun _ => (onlyLooks_pure _).bind fun _ =>
      hnamed.bind fun _ => onlyLooks_pure _
  · exact (onlyLooks_pure _).bind fun _ => hnamed.bind fun _ => onlyLooks_pure _

theorem onlyLooks_run (h : c.target? = none) : (c.run config).OnlyLooks := by
  cases c with
  | identify files stdin base => exact onlyLooks_runIdentify files stdin base
  | parse hex => exact onlyLooks_pure _
  | filter c => exact FilterCommand.onlyLooks_run h

theorem savesLast_run (h : c.target? = some path) : (c.run config).SavesLast path := by
  cases c with
  | identify files stdin base | parse hex => cases h
  | filter c => exact FilterCommand.savesLast_run h

theorem exit_run (h : c.target? = some path) : (c.run config).Gives (·.exit = 0) := by
  cases c with
  | identify files stdin base | parse hex => cases h
  | filter c => exact FilterCommand.exit_run h

end Command

/-! ## Command lines -/

namespace Request

/-- The file that a command line is to write, if its command is one that does. -/
def target? (args : List String) : Option String :=
  match ofArguments args with
  | some (.run i) => i.command.target?
  | none | some .help | some .version => none

/-- What happens after a command has written its file, and the exit code that it ends with. -/
inductive Ending (path : String) : List Event → Nat → Prop where
  | unsynced (fault : DeviceFault) : Ending path [.synced path (.error fault)] 1
  | unprinted (text : String) (fault : DeviceFault) :
    Ending path [.synced path (.ok ()), .printed text (.error fault)] 101
  | done (text : String) : Ending path [.synced path (.ok ()), .printed text (.ok ())] 0

theorem Ending.isLook {path : String} {rest : List Event} {exit : Nat} (h : Ending path rest exit) :
    ∀ e ∈ rest, e.IsLook := by
  cases h <;> simp [Event.IsLook]

/-- Nothing was changed but the one file; where there is none, no change was asked for. -/
def WritesOnly (es : List Event) (exit : Nat) : Option String → Prop
  | none => ∀ e ∈ es, e.IsLook
  | some path => (exit = 1 ∧ ∀ e ∈ es, ¬ e.IsChange) ∨
    ∃ rest, Event.WriteOnce path rest es ∧ Ending path rest exit

variable {directory : Option String} {args : List String} {es : List Event} {o : Outcome}
  {w w' : World} {path : String}

theorem writesOnly_of_run_runInvocation {i : Invocation}
    (h : (runInvocation directory i).Run es o) : WritesOnly es o.exit i.command.target? := by
  obtain ⟨before, r, hrun, hend⟩ := of_run_runInvocation h
  have hconfig := onlyLooks_config directory i.config
  cases htarget : i.command.target? with
  | none =>
    have hlooks := hconfig.bind (fun c => Command.onlyLooks_run htarget) before r hrun
    cases r with
    | error complaint =>
      obtain ⟨rfl, -⟩ := hend
      exact hlooks
    | ok reply =>
      obtain ⟨answer, rfl, -⟩ := hend
      exact List.forall_mem_append.2 ⟨hlooks, by simp [Event.IsLook]⟩
  | some path =>
    have hsaved := hconfig.bind_savesLast (fun c => Command.savesLast_run htarget) before r hrun
    cases r with
    | error complaint =>
      obtain ⟨rfl, rfl⟩ := hend
      rcases hsaved with hsame | ⟨fault, honce⟩
      · exact .inl ⟨rfl, hsame⟩
      · exact .inr ⟨_, honce, .unsynced fault⟩
    | ok reply =>
      obtain ⟨answer, rfl, rfl⟩ := hend
      have hexit : reply.exit = 0 :=
        gives_bind (fun _ => Command.exit_run htarget) before reply hrun
      refine .inr ⟨_, Event.WriteOnce.append hsaved _, ?_⟩
      cases answer with
      | error fault => exact .unprinted _ fault
      | ok u =>
        rw [hexit]
        exact .done _

theorem writesOnly_of_run_execute (h : (execute directory args).Run es o) :
    WritesOnly es o.exit (target? args) := by
  rw [execute] at h
  rw [target?]
  rcases hargs : ofArguments args with _ | request
  · rw [hargs] at h
    cases h
    exact List.forall_mem_nil _
  rw [hargs] at h
  cases request with
  | run i => exact writesOnly_of_run_runInvocation h
  | help | version =>
    cases h with
    | print h =>
      cases h
      exact List.forall_mem_singleton.2 trivial

end Request

/-! ## On a file tree -/

namespace World

/-- The file at the path was written, and all others are as they were. -/
def Rewritten (w : World) (path : String) (w' : World) : Prop :=
  ∃ place l content, w.files.locate path = .ok place ∧ place.spot? = some (l, false) ∧
    w'.files.node? l = some (.file content) ∧ ∀ l', l' ≠ l → w'.files.node? l' = w.files.node? l'

/-- The file was written, but the disk did not confirm it or the document could not be printed. -/
def FailsLate (w : World) (path : String) (exit : Nat) : Prop :=
  (exit = 1 ∧ ∃ fault, w.sync path = .error fault) ∨ (exit = 101 ∧ ∃ fault, w.stdout = .error fault)

end World

namespace Request

variable {directory : Option String} {args : List String} {es : List Event} {o : Outcome}
  {w w' : World} {path : String}

theorem rewritten_of_steps {rest : List Event} {exit : Nat} (hsteps : w.Steps es w')
    (honce : Event.WriteOnce path rest es) (hend : Ending path rest exit) :
    w.Rewritten path w' ∧ (exit = 0 ∨ w.FailsLate path exit) := by
  obtain ⟨before, content, rfl, hbefore⟩ := honce
  obtain ⟨mid, hfirst, hlater⟩ := hsteps.of_append
  cases hlater with
  | cons hstored hrest =>
    -- Only the store changes a file, and nothing changes what is refused after it.
    have hmid := hfirst.files_of_not_isChange fun e he => (hbefore e he).not_isChange
    have hlast := hrest.files_of_not_isChange fun e he => (hend.isLook e he).not_isChange
    have hwrite := hstored.write_of_stored
    rw [hmid, ← hlast] at hwrite
    obtain ⟨place, l, hplace, hspot, hnode, hothers⟩ := FileTree.of_write_eq_ok hwrite
    refine ⟨⟨place, l, content, hplace, hspot, hnode, hothers⟩, ?_⟩
    cases hend with
    | unsynced fault =>
      cases hrest with
      | cons hsynced _ =>
        refine .inr (.inl ⟨rfl, fault, ?_⟩)
        rw [← hfirst.sync_eq, ← hstored.sync_eq, hsynced.sync_of_synced]
    | unprinted text fault =>
      cases hrest with
      | cons hsynced hrest =>
        cases hrest with
        | cons hprinted _ =>
          refine .inr (.inr ⟨rfl, fault, hfirst.stdout_of_error ?_⟩)
          exact hstored.stdout_of_error (hsynced.stdout_of_error hprinted.stdout_of_printed)
    | done text => exact .inl rfl

theorem of_runOn_execute (h : (execute directory args).runOn w = (o, w')) :
    match target? args with
    | none => w'.files = w.files
    | some path => (o.exit = 1 ∧ w'.files = w.files) ∨
      (w.Rewritten path w' ∧ (o.exit = 0 ∨ w.FailsLate path o.exit)) := by
  obtain ⟨es, hrun, hsteps⟩ := (execute directory args).exists_run w
  rw [h] at hrun hsteps
  have hwrites := writesOnly_of_run_execute hrun
  cases htarget : target? args with
  | none =>
    rw [htarget] at hwrites
    exact hsteps.files_of_not_isChange fun e he => (hwrites e he).not_isChange
  | some path =>
    rw [htarget] at hwrites
    rcases hwrites with ⟨hexit, hsame⟩ | ⟨rest, honce, hend⟩
    · exact .inl ⟨hexit, hsteps.files_of_not_isChange hsame⟩
    · exact .inr (rewritten_of_steps hsteps honce hend)

theorem runOn_execute_of_flawed (directory : Option String) {format : OutputFormat}
    {settings : Option String} {c : FilterCommand}
    (hargs : ofArguments args = some (.run ⟨format, settings, .filter c⟩))
    (h : c.Flawed w) :
    ∃ complaint, (execute directory args).runOn w = (.failed complaint, w) := by
  obtain ⟨complaint, hrun⟩ : ∃ complaint, Attempt.runOn (do
      (Command.filter c).run (← config directory settings)) w = (.error complaint, w) := by
    rw [(looks_config _ _).runOn_bind]
    cases (Config.found (settingsPath directory settings) w).mapError Complaint.refused with
    | error complaint => exact ⟨complaint, rfl⟩
    | ok found => exact FilterCommand.runOn_of_flawed h
  rw [execute, hargs]
  exact ⟨complaint, runOn_runInvocation_of_error hrun⟩

/-- A command line changes one file at most, and one that fails changes none or fails late. -/
theorem changes_only_target :
    (∀ (directory : Option String) (args : List String) (es : List Event) (o : Outcome),
      (execute directory args).Run es o → WritesOnly es o.exit (target? args)) ∧
    ∀ (directory : Option String) (args : List String) (w w' : World) (o : Outcome),
      (execute directory args).runOn w = (o, w') →
        (o.exit ≠ 0 → w'.files = w.files ∨
          ∃ path, target? args = some path ∧ w.Rewritten path w' ∧ w.FailsLate path o.exit) ∧
        (target? args = none → w'.files = w.files) ∧
        (∀ path, target? args = some path → o.exit = 0 → w.Rewritten path w') ∧
        ∀ format settings c, ofArguments args = some (.run ⟨format, settings, .filter c⟩) →
          c.Flawed w → o.exit = 1 ∧ w' = w := by
  refine ⟨fun _ _ _ _ => writesOnly_of_run_execute, ?_⟩
  intro directory args w w' o hrun
  have hends := of_runOn_execute hrun
  refine ⟨?_, ?_, ?_, ?_⟩
  · intro hexit
    cases htarget : target? args with
    | none =>
      rw [htarget] at hends
      exact .inl hends
    | some path =>
      rw [htarget] at hends
      obtain ⟨-, hsame⟩ | ⟨hwritten, hlate⟩ := hends
      · exact .inl hsame
      · exact .inr ⟨path, rfl, hwritten, hlate.resolve_left hexit⟩
  · intro htarget
    rwa [htarget] at hends
  · intro path htarget hexit
    rw [htarget] at hends
    obtain ⟨hfailed, -⟩ | ⟨hwritten, -⟩ := hends
    · omega
    · exact hwritten
  · intro format settings c hargs hflaw
    obtain ⟨complaint, hfailed⟩ := runOn_execute_of_flawed directory hargs hflaw
    cases hrun.symm.trans hfailed
    exact ⟨rfl, rfl⟩

def unequalFilters : World where
  files := { nodes := [(["a"], .file [1, 0, 0, 0, 0, 0, 0, 0, 4]),
    (["b"], .file [2, 0, 0, 0, 0, 0, 0, 0, 0, 0])] }

def secondMalformed : List String := ["filter", "insert", "a", "09000000", "xyz"]

def ontoInput : List String := ["filter", "merge", "a", "b", "-o", "a"]

def absent : List String := ["filter", "check", "a", "09000000"]

def renew : List String := ["filter", "new", "a", "-c", "3"]

theorem changes_only_target_unequalFilters :
    (∃ es o, (execute none renew).Run es o ∧ WritesOnly es o.exit (some "a")) ∧
    (FilterCommand.Flawed unequalFilters (.insert "a" ["09000000", "xyz"] []) ∧
      ((execute none secondMalformed).runOn unequalFilters).1.exit = 1 ∧
      ((execute none secondMalformed).runOn unequalFilters).2 = unequalFilters) ∧
    (FilterCommand.Flawed unequalFilters (.merge "a" "b" .or "a") ∧
      ((execute none ontoInput).runOn unequalFilters).1.exit = 1 ∧
      ((execute none ontoInput).runOn unequalFilters).2 = unequalFilters) ∧
    (target? absent = none ∧ ((execute none absent).runOn unequalFilters).1.exit = 1 ∧
      ((execute none absent).runOn unequalFilters).2.files = unequalFilters.files) ∧
    (target? renew = some "a" ∧ ((execute none renew).runOn unequalFilters).1.exit = 0 ∧
      ((execute none renew).runOn unequalFilters).2.files.node? ["b"] =
        unequalFilters.files.node? ["b"]) := by
  obtain ⟨hevents, hfiles⟩ := changes_only_target
  have hmalformed : FilterCommand.Flawed unequalFilters (.insert "a" ["09000000", "xyz"] []) :=
    .malformed (by decide : "xyz" ∈ ["09000000", "xyz"]) rfl
  have hunequal : FilterCommand.Flawed unequalFilters (.merge "a" "b" .or "a") := by
    have ha : (Filter.load "a").runOn unequalFilters =
        (.ok ⟨[4], false, by decide⟩, unequalFilters) := rfl
    have hb : (Filter.load "b").runOn unequalFilters =
        (.ok ⟨[0, 0], false, by decide⟩, unequalFilters) := rfl
    exact .unequal ha hb (by decide)
  have hrenew : ((execute none renew).runOn unequalFilters).1.exit = 0 := by decide +kernel
  obtain ⟨es, hrun, -⟩ := (execute none renew).exists_run unequalFilters
  obtain ⟨-, -, -, hinsert⟩ := hfiles none secondMalformed unequalFilters _ _ rfl
  obtain ⟨-, -, -, hmerge⟩ := hfiles none ontoInput unequalFilters _ _ rfl
  obtain ⟨-, hchecked, -⟩ := hfiles none absent unequalFilters _ _ rfl
  obtain ⟨-, -, hwritten, -⟩ := hfiles none renew unequalFilters _ _ rfl
  obtain ⟨place, l, content, hplace, hspot, -, hothers⟩ := hwritten "a" rfl hrenew
  have hl : ["b"] ≠ l := by
    have ha : unequalFilters.files.locate "a" =
        .ok (.file ["a"] [1, 0, 0, 0, 0, 0, 0, 0, 4] false) := rfl
    cases hplace.symm.trans ha
    cases hspot
    decide
  exact ⟨⟨es, _, hrun, hevents _ _ es _ hrun⟩, ⟨hmalformed, hinsert _ _ _ rfl hmalformed⟩,
    ⟨hunequal, hmerge _ _ _ rfl hunequal⟩, ⟨rfl, by decide +kernel, hchecked rfl⟩, rfl, hrenew,
    hothers ["b"] hl⟩

def unprintable : World := { unequalFilters with stdout := .error .full }

def unsynced : World := { unequalFilters with sync := fun _ => .error .full }

theorem failing_after_writing :
    (((execute none renew).runOn unprintable).1.exit = 101 ∧
      ((execute none renew).runOn unprintable).2.files.node? ["a"] ≠
        unprintable.files.node? ["a"]) ∧
    ((execute none renew).runOn unsynced).1.exit = 1 ∧
      ((execute none renew).runOn unsynced).2.files.node? ["a"] ≠ unsynced.files.node? ["a"] := by
  decide +kernel

end Request

end DigestFilter
