import DigestFilter.Proofs.Files.Program
import DigestFilter.Proofs.Files.Tree

/-!
# What a program does to the outside

A run of a program is a row of events: the requests that it has made, each with the answer that it
got. Any answer is possible, so what holds of all runs holds on all file systems, whatever they
permit and refuse. On a file tree the granted changes of a run, made in order, are all that happens
to the files.
-/

namespace DigestFilter

inductive Event where
  | probed (path : String) (present : Bool)
  | loaded (path : String) (answer : Except DeviceFault (List UInt8))
  | stored (path : String) (content : List UInt8) (answer : Except DeviceFault Unit)
  | synced (path : String) (answer : Except DeviceFault Unit)
  | madeParents (path : String) (answer : Except DeviceFault Unit)
  | input (answer : Except DeviceFault (List UInt8))
  | printed (text : String) (answer : Except DeviceFault Unit)

namespace Event

/-- No change of the files was asked for. -/
def IsLook : Event → Prop
  | .stored _ _ _ | .madeParents _ _ => False
  | .probed _ _ | .loaded _ _ | .synced _ _ | .input _ | .printed _ _ => True

/-- A change of the files was asked for and granted. -/
def IsChange : Event → Prop
  | .stored _ _ answer | .madeParents _ answer => answer = .ok ()
  | .probed _ _ | .loaded _ _ | .synced _ _ | .input _ | .printed _ _ => False

theorem IsLook.not_isChange {e : Event} (h : e.IsLook) : ¬ e.IsChange := by
  cases e with
  | stored path content answer | madeParents path answer => cases h
  | probed path present | loaded path answer | synced path answer | input answer
  | printed text answer => exact id

/-- One file was written, after nothing but looks; `rest` is what happened then. -/
def WriteOnce (path : String) (rest es : List Event) : Prop :=
  ∃ before content, es = before ++ .stored path content (.ok ()) :: rest ∧ ∀ e ∈ before, e.IsLook

theorem WriteOnce.append {path : String} {rest es : List Event} (h : WriteOnce path rest es)
    (after : List Event) : WriteOnce path (rest ++ after) (es ++ after) := by
  obtain ⟨before, content, rfl, hbefore⟩ := h
  exact ⟨before, content, List.append_assoc _ _ _, hbefore⟩

theorem WriteOnce.after_looks {path : String} {rest es₁ es₂ : List Event} (h₁ : ∀ e ∈ es₁, e.IsLook)
    (h₂ : WriteOnce path rest es₂) : WriteOnce path rest (es₁ ++ es₂) := by
  obtain ⟨before, content, rfl, hbefore⟩ := h₂
  exact ⟨es₁ ++ before, content, (List.append_assoc _ _ _).symm,
    List.forall_mem_append.2 ⟨h₁, hbefore⟩⟩

end Event

namespace Program

/-- The program can go through these events and end with this result. -/
inductive Run {α : Type} : Program α → List Event → α → Prop where
  | done (a : α) : Run (.done a) [] a
  | probe {path : String} {next : Bool → Program α} {present : Bool} {es : List Event} {a : α} :
    Run (next present) es a → Run (.probe path next) (.probed path present :: es) a
  | load {path : String} {next : Except DeviceFault (List UInt8) → Program α}
    {answer : Except DeviceFault (List UInt8)} {es : List Event} {a : α} :
    Run (next answer) es a → Run (.load path next) (.loaded path answer :: es) a
  | store {path : String} {content : List UInt8} {next : Except DeviceFault Unit → Program α}
    {answer : Except DeviceFault Unit} {es : List Event} {a : α} :
    Run (next answer) es a →
      Run (.store path content next) (.stored path content answer :: es) a
  | sync {path : String} {next : Except DeviceFault Unit → Program α}
    {answer : Except DeviceFault Unit} {es : List Event} {a : α} :
    Run (next answer) es a → Run (.sync path next) (.synced path answer :: es) a
  | makeParents {path : String} {next : Except DeviceFault Unit → Program α}
    {answer : Except DeviceFault Unit} {es : List Event} {a : α} :
    Run (next answer) es a → Run (.makeParents path next) (.madeParents path answer :: es) a
  | input {next : Except DeviceFault (List UInt8) → Program α}
    {answer : Except DeviceFault (List UInt8)} {es : List Event} {a : α} :
    Run (next answer) es a → Run (.input next) (.input answer :: es) a
  | print {text : String} {next : Except DeviceFault Unit → Program α}
    {answer : Except DeviceFault Unit} {es : List Event} {a : α} :
    Run (next answer) es a → Run (.print text next) (.printed text answer :: es) a

variable {α β : Type} {es : List Event}

theorem of_run_bind {p : Program α} {f : α → Program β} {b : β} (h : (p >>= f).Run es b) :
    ∃ es₁ es₂ a, es = es₁ ++ es₂ ∧ p.Run es₁ a ∧ (f a).Run es₂ b := by
  change (p.bind f).Run es b at h
  induction p generalizing es with
  | done a => exact ⟨[], es, a, rfl, .done a, h⟩
  | probe path next ih =>
    cases h with
    | probe h =>
      obtain ⟨es₁, es₂, a, rfl, hp, hf⟩ := ih _ h
      exact ⟨_ :: es₁, es₂, a, rfl, .probe hp, hf⟩
  | load path next ih =>
    cases h with
    | load h =>
      obtain ⟨es₁, es₂, a, rfl, hp, hf⟩ := ih _ h
      exact ⟨_ :: es₁, es₂, a, rfl, .load hp, hf⟩
  | store path content next ih =>
    cases h with
    | store h =>
      obtain ⟨es₁, es₂, a, rfl, hp, hf⟩ := ih _ h
      exact ⟨_ :: es₁, es₂, a, rfl, .store hp, hf⟩
  | sync path next ih =>
    cases h with
    | sync h =>
      obtain ⟨es₁, es₂, a, rfl, hp, hf⟩ := ih _ h
      exact ⟨_ :: es₁, es₂, a, rfl, .sync hp, hf⟩
  | makeParents path next ih =>
    cases h with
    | makeParents h =>
      obtain ⟨es₁, es₂, a, rfl, hp, hf⟩ := ih _ h
      exact ⟨_ :: es₁, es₂, a, rfl, .makeParents hp, hf⟩
  | input next ih =>
    cases h with
    | input h =>
      obtain ⟨es₁, es₂, a, rfl, hp, hf⟩ := ih _ h
      exact ⟨_ :: es₁, es₂, a, rfl, .input hp, hf⟩
  | print text next ih =>
    cases h with
    | print h =>
      obtain ⟨es₁, es₂, a, rfl, hp, hf⟩ := ih _ h
      exact ⟨_ :: es₁, es₂, a, rfl, .print hp, hf⟩

end Program

/-! ## On a world -/

namespace World

/-- The world answers a request so, and is this afterwards. -/
inductive Step : World → Event → World → Prop where
  | probed (w : World) (path : String) : Step w (.probed path (w.files.isPresent path)) w
  | loaded (w : World) (path : String) : Step w (.loaded path (w.files.read path)) w
  | stored (w : World) (path : String) (content : List UInt8) :
    Step w (.stored path content (w.change (w.files.write path content)).1)
      (w.change (w.files.write path content)).2
  | synced (w : World) (path : String) : Step w (.synced path (w.sync path)) w
  | madeParents (w : World) (path : String) :
    Step w (.madeParents path (w.change (w.files.makeParents path)).1)
      (w.change (w.files.makeParents path)).2
  | input (w : World) : Step w (.input w.stdin) { w with stdin := w.stdin.map fun _ => [] }
  | printed (w : World) (text : String) :
    Step w (.printed text (w.print text).1) (w.print text).2

inductive Steps : World → List Event → World → Prop where
  | nil (w : World) : Steps w [] w
  | cons {w w' w'' : World} {e : Event} {es : List Event} :
    Step w e w' → Steps w' es w'' → Steps w (e :: es) w''

variable {w w' : World} {e : Event} {es fs : List Event} {path : String}

theorem files_change_of_ne_ok {change : Except DeviceFault FileTree}
    (h : (w.change change).1 ≠ .ok ()) : (w.change change).2.files = w.files := by
  cases change with
  | ok t => exact absurd rfl h
  | error fault => rfl

theorem files_print (w : World) (text : String) : (w.print text).2.files = w.files := by
  unfold print
  split <;> rfl

theorem sync_print (w : World) (text : String) : (w.print text).2.sync = w.sync := by
  unfold print
  split <;> rfl

theorem sync_change (w : World) (change : Except DeviceFault FileTree) :
    (w.change change).2.sync = w.sync := by
  cases change <;> rfl

theorem Step.files_of_not_isChange (h : Step w e w') (he : ¬ e.IsChange) : w'.files = w.files := by
  cases h with
  | probed path | loaded path | synced path | input => rfl
  | stored path content => exact files_change_of_ne_ok he
  | madeParents path => exact files_change_of_ne_ok he
  | printed text => exact files_print w text

theorem Step.write_of_stored {content : List UInt8}
    (h : Step w (.stored path content (.ok ())) w') :
    w.files.write path content = .ok w'.files := by
  generalize hanswer : Except.ok () = answer at h
  cases h with
  | stored =>
    cases hwrite : w.files.write path content with
    | ok t => rfl
    | error fault =>
      rw [hwrite] at hanswer
      cases hanswer

theorem Step.sync_of_synced {answer : Except DeviceFault Unit}
    (h : Step w (.synced path answer) w') : w.sync path = answer := by
  cases h
  rfl

theorem Step.stdout_of_printed {text : String} {fault : DeviceFault}
    (h : Step w (.printed text (.error fault)) w') : w.stdout = .error fault := by
  generalize hanswer : Except.error fault = answer at h
  cases h with
  | printed =>
    unfold print at hanswer
    split at hanswer
    · cases hanswer
    · next hstdout =>
      cases hanswer
      exact hstdout

theorem Step.sync_eq (h : Step w e w') : w'.sync = w.sync := by
  cases h with
  | probed path | loaded path | synced path | input => rfl
  | stored path content => exact sync_change w _
  | madeParents path => exact sync_change w _
  | printed text => exact sync_print w text

theorem Step.stdout_of_error {fault : DeviceFault} (h : Step w e w')
    (hfault : w'.stdout = .error fault) : w.stdout = .error fault := by
  cases h with
  | probed path | loaded path | synced path | input => exact hfault
  | stored path content =>
    cases hwrite : w.files.write path content <;> (rw [hwrite] at hfault; exact hfault)
  | madeParents path =>
    cases hmake : w.files.makeParents path <;> (rw [hmake] at hfault; exact hfault)
  | printed text =>
    unfold print at hfault
    split at hfault
    · cases hfault
    · exact hfault

theorem Steps.files_of_not_isChange (h : Steps w es w') (hes : ∀ e ∈ es, ¬ e.IsChange) :
    w'.files = w.files := by
  induction h with
  | nil w => rfl
  | cons step steps ih =>
    obtain ⟨he, hes⟩ := List.forall_mem_cons.1 hes
    rw [ih hes, step.files_of_not_isChange he]

theorem Steps.sync_eq (h : Steps w es w') : w'.sync = w.sync := by
  induction h with
  | nil w => rfl
  | cons step steps ih => rw [ih, step.sync_eq]

theorem Steps.stdout_of_error {fault : DeviceFault} (h : Steps w es w')
    (hfault : w'.stdout = .error fault) : w.stdout = .error fault := by
  induction h with
  | nil w => exact hfault
  | cons step steps ih => exact step.stdout_of_error (ih hfault)

theorem Steps.of_append (h : Steps w (es ++ fs) w') : ∃ mid, Steps w es mid ∧ Steps mid fs w' := by
  induction es generalizing w with
  | nil => exact ⟨w, .nil w, h⟩
  | cons e es ih =>
    cases h with
    | cons step steps =>
      obtain ⟨mid, hes, hfs⟩ := ih steps
      exact ⟨mid, .cons step hes, hfs⟩

end World

/-- On a world a program goes through one of its runs, as the world answers. -/
theorem Program.exists_run {α : Type} (p : Program α) (w : World) :
    ∃ es, p.Run es (p.runOn w).1 ∧ w.Steps es (p.runOn w).2 := by
  induction p generalizing w with
  | done a => exact ⟨[], .done a, .nil w⟩
  | probe path next ih =>
    obtain ⟨es, hrun, hsteps⟩ := ih _ w
    exact ⟨_, .probe hrun, .cons (.probed w path) hsteps⟩
  | load path next ih =>
    obtain ⟨es, hrun, hsteps⟩ := ih _ w
    exact ⟨_, .load hrun, .cons (.loaded w path) hsteps⟩
  | store path content next ih =>
    obtain ⟨es, hrun, hsteps⟩ := ih _ _
    exact ⟨_, .store hrun, .cons (.stored w path content) hsteps⟩
  | sync path next ih =>
    obtain ⟨es, hrun, hsteps⟩ := ih _ w
    exact ⟨_, .sync hrun, .cons (.synced w path) hsteps⟩
  | makeParents path next ih =>
    obtain ⟨es, hrun, hsteps⟩ := ih _ _
    exact ⟨_, .makeParents hrun, .cons (.madeParents w path) hsteps⟩
  | input next ih =>
    obtain ⟨es, hrun, hsteps⟩ := ih _ _
    exact ⟨_, .input hrun, .cons (.input w) hsteps⟩
  | print text next ih =>
    obtain ⟨es, hrun, hsteps⟩ := ih _ _
    exact ⟨_, .print hrun, .cons (.printed w text) hsteps⟩

theorem Program.sync_runOn {α : Type} (p : Program α) (w : World) :
    (p.runOn w).2.sync = w.sync := by
  obtain ⟨es, -, hsteps⟩ := p.exists_run w
  exact hsteps.sync_eq

/-! ## Attempts -/

namespace Attempt

variable {ε ζ α β : Type} {a : Attempt ε α} {k : α → Attempt ε β} {es : List Event} {path : String}

abbrev Run (a : Attempt ε α) : List Event → Except ε α → Prop := Program.Run (ExceptT.run a)

theorem of_run_bind {r : Except ε β} (h : (a >>= k).Run es r) :
    (∃ e, r = .error e ∧ a.Run es (.error e)) ∨
      ∃ x es₁ es₂, es = es₁ ++ es₂ ∧ a.Run es₁ (.ok x) ∧ (k x).Run es₂ r := by
  rw [Run, ExceptT.run_bind] at h
  obtain ⟨es₁, es₂, result, rfl, ha, hk⟩ := Program.of_run_bind h
  cases result with
  | error e =>
    cases hk
    rw [List.append_nil]
    exact .inl ⟨e, rfl, ha⟩
  | ok x => exact .inr ⟨x, es₁, es₂, rfl, ha, hk⟩

theorem of_run_adapt {wrap : ε → ζ} {r : Except ζ α}
    (h : Run (ExceptT.adapt wrap a : Attempt ζ α) es r) :
    ∃ s, r = s.mapError wrap ∧ a.Run es s := by
  have h : ((ExceptT.run a) >>= fun s => (pure (s.mapError wrap) : Program _)).Run es r := h
  obtain ⟨es₁, es₂, s, rfl, ha, hs⟩ := Program.of_run_bind h
  cases hs
  rw [List.append_nil]
  exact ⟨s, rfl, ha⟩

theorem of_run_ofAnswer {φ : Type} {onFault : φ → ε} {q : Except φ α} {r : Except ε α}
    (h : (ofAnswer onFault q).Run es r) : es = [] ∧ r = q.mapError onFault := by
  cases q with
  | error fault =>
    cases h
    exact ⟨rfl, rfl⟩
  | ok x =>
    cases h
    exact ⟨rfl, rfl⟩

theorem of_run_request {φ : Type} {onFault : φ → ε} {request : Program (Except φ α)}
    {r : Except ε α} (h : Run (do ofAnswer onFault (← ExceptT.lift request)) es r) :
    ∃ answer, request.Run es answer ∧ r = answer.mapError onFault := by
  have h : (request >>= fun answer => ExceptT.run (ofAnswer onFault answer)).Run es r := by
    simpa only [Run, ExceptT.run_bind, ExceptT.run_lift, map_eq_pure_bind, bind_assoc,
      pure_bind] using h
  obtain ⟨es₁, es₂, answer, rfl, hrequest, hanswer⟩ := Program.of_run_bind h
  obtain ⟨rfl, hr⟩ := of_run_ofAnswer hanswer
  rw [List.append_nil]
  exact ⟨answer, hrequest, hr⟩

theorem of_run_load {onFault : DeviceFault → ε} {r : Except ε (List UInt8)}
    (h : (load onFault path).Run es r) : ∃ answer, es = [.loaded path answer] := by
  obtain ⟨answer, hrequest, -⟩ := of_run_request h
  cases hrequest with
  | load h =>
    cases h
    exact ⟨_, rfl⟩

theorem of_run_input {onFault : DeviceFault → ε} {r : Except ε (List UInt8)}
    (h : (input onFault).Run es r) : ∃ answer, es = [.input answer] := by
  obtain ⟨answer, hrequest, -⟩ := of_run_request h
  cases hrequest with
  | input h =>
    cases h
    exact ⟨_, rfl⟩

theorem of_run_store {onFault : DeviceFault → ε} {content : List UInt8} {r : Except ε Unit}
    (h : (store onFault path content).Run es r) :
    ∃ answer, es = [.stored path content answer] ∧ r = answer.mapError onFault := by
  obtain ⟨answer, hrequest, hr⟩ := of_run_request h
  cases hrequest with
  | store h =>
    cases h
    exact ⟨_, rfl, hr⟩

theorem of_run_sync {onFault : DeviceFault → ε} {r : Except ε Unit}
    (h : (sync onFault path).Run es r) :
    ∃ answer, es = [.synced path answer] ∧ r = answer.mapError onFault := by
  obtain ⟨answer, hrequest, hr⟩ := of_run_request h
  cases hrequest with
  | sync h =>
    cases h
    exact ⟨_, rfl, hr⟩

/-! ### What a success gives -/

def Gives (a : Attempt ε α) (q : α → Prop) : Prop := ∀ es x, a.Run es (.ok x) → q x

theorem gives_pure {q : α → Prop} {x : α} (h : q x) : (pure x : Attempt ε α).Gives q := by
  intro es y hrun
  cases hrun
  exact h

theorem gives_bind {q : β → Prop} (hk : ∀ x, (k x).Gives q) : (a >>= k).Gives q := by
  intro es y h
  obtain ⟨e, he, -⟩ | ⟨x, es₁, es₂, -, -, h₂⟩ := of_run_bind h
  · cases he
  · exact hk x _ y h₂

theorem Gives.of_runOn {q : α → Prop} {x : α} {w w' : World} (h : a.Gives q)
    (hrun : a.runOn w = (.ok x, w')) : q x := by
  obtain ⟨es, hes, -⟩ := (ExceptT.run a).exists_run w
  change a.Run es (a.runOn w).1 at hes
  rw [hrun] at hes
  exact h es x hes

/-! ### Attempts that ask for no change -/

def OnlyLooks (a : Attempt ε α) : Prop := ∀ es r, a.Run es r → ∀ e ∈ es, e.IsLook

theorem onlyLooks_pure (x : α) : (pure x : Attempt ε α).OnlyLooks := by
  intro es r h
  cases h
  exact List.forall_mem_nil _

theorem onlyLooks_ofExcept (r : Except ε α) : (ofExcept r).OnlyLooks := by
  intro es r' h
  obtain ⟨rfl, -⟩ := of_run_ofAnswer h
  exact List.forall_mem_nil _

theorem OnlyLooks.bind (ha : a.OnlyLooks) (hk : ∀ x, (k x).OnlyLooks) : (a >>= k).OnlyLooks := by
  intro es r h
  obtain ⟨e, -, h⟩ | ⟨x, es₁, es₂, rfl, h₁, h₂⟩ := of_run_bind h
  · exact ha _ _ h
  · exact List.forall_mem_append.2 ⟨ha _ _ h₁, hk x _ _ h₂⟩

theorem OnlyLooks.adapt (wrap : ε → ζ) (ha : a.OnlyLooks) :
    OnlyLooks (ExceptT.adapt wrap a : Attempt ζ α) := by
  intro es r h
  obtain ⟨s, -, h⟩ := of_run_adapt h
  exact ha _ _ h

theorem OnlyLooks.mapM {f : β → Attempt ε α} (h : ∀ x, (f x).OnlyLooks) (xs : List β) :
    (xs.mapM f).OnlyLooks := by
  induction xs with
  | nil => exact onlyLooks_pure []
  | cons x xs ih =>
    rw [List.mapM_cons]
    exact (h x).bind fun y => ih.bind fun ys => onlyLooks_pure (y :: ys)

theorem onlyLooks_probe (path : String) : (probe path : Attempt ε Bool).OnlyLooks := by
  intro es r h
  cases h with
  | probe h =>
    cases h
    simp [Event.IsLook]

theorem onlyLooks_load (onFault : DeviceFault → ε) (path : String) :
    (load onFault path).OnlyLooks := by
  intro es r h
  obtain ⟨answer, rfl⟩ := of_run_load h
  simp [Event.IsLook]

theorem onlyLooks_input (onFault : DeviceFault → ε) : (input onFault).OnlyLooks := by
  intro es r h
  obtain ⟨answer, rfl⟩ := of_run_input h
  simp [Event.IsLook]

/-! ### Attempts that save one file in the end -/

/-- A success wrote one file and synced it; a failure changed nothing or could not sync. -/
def Saved (path : String) (es : List Event) : Except ε α → Prop
  | .ok _ => Event.WriteOnce path [.synced path (.ok ())] es
  | .error _ => (∀ e ∈ es, ¬ e.IsChange) ∨
    ∃ fault, Event.WriteOnce path [.synced path (.error fault)] es

def SavesLast (path : String) (a : Attempt ε α) : Prop := ∀ es r, a.Run es r → Saved path es r

theorem Saved.after_looks {es₁ es₂ : List Event} {r : Except ε α} (h₁ : ∀ e ∈ es₁, e.IsLook)
    (h₂ : Saved path es₂ r) : Saved path (es₁ ++ es₂) r := by
  cases r with
  | ok x => exact Event.WriteOnce.after_looks h₁ h₂
  | error e =>
    rcases h₂ with h₂ | ⟨fault, h₂⟩
    · exact .inl (List.forall_mem_append.2 ⟨fun e he => (h₁ e he).not_isChange, h₂⟩)
    · exact .inr ⟨fault, h₂.after_looks h₁⟩

theorem savesLast_save (onFault : DeviceFault → ε) (path : String) (content : List UInt8) :
    SavesLast path (do store onFault path content; sync onFault path) := by
  intro es r h
  obtain ⟨e, rfl, h₁⟩ | ⟨x, es₁, es₂, rfl, h₁, h₂⟩ := of_run_bind h
  · obtain ⟨answer, rfl, hanswer⟩ := of_run_store h₁
    cases answer with
    | ok u => cases hanswer
    | error fault => exact .inl (by simp [Event.IsChange])
  · obtain ⟨stored, rfl, hstored⟩ := of_run_store h₁
    obtain ⟨synced, rfl, rfl⟩ := of_run_sync h₂
    cases stored with
    | error fault => cases hstored
    | ok u =>
      have honce : ∀ answer, Event.WriteOnce path [.synced path answer]
          ([.stored path content (.ok ())] ++ [.synced path answer]) :=
        fun answer => ⟨[], content, rfl, List.forall_mem_nil _⟩
      cases synced with
      | ok u => exact honce _
      | error fault => exact .inr ⟨fault, honce _⟩

theorem OnlyLooks.bind_savesLast (ha : a.OnlyLooks) (hk : ∀ x, (k x).SavesLast path) :
    (a >>= k).SavesLast path := by
  intro es r h
  obtain ⟨e, rfl, h₁⟩ | ⟨x, es₁, es₂, rfl, h₁, h₂⟩ := of_run_bind h
  · exact .inl fun event hevent => (ha _ _ h₁ event hevent).not_isChange
  · exact (hk x _ _ h₂).after_looks (ha _ _ h₁)

theorem SavesLast.bind_pure (ha : a.SavesLast path) (f : α → β) :
    (a >>= fun x => pure (f x)).SavesLast path := by
  intro es r h
  obtain ⟨e, rfl, h₁⟩ | ⟨x, es₁, es₂, rfl, h₁, h₂⟩ := of_run_bind h
  · exact ha _ _ h₁
  · cases h₂
    rw [List.append_nil]
    exact ha _ _ h₁

theorem SavesLast.adapt (wrap : ε → ζ) (ha : a.SavesLast path) :
    SavesLast path (ExceptT.adapt wrap a : Attempt ζ α) := by
  intro es r h
  obtain ⟨s, rfl, h₁⟩ := of_run_adapt h
  cases s with
  | error e => exact ha _ _ h₁
  | ok x => exact ha _ _ h₁

end Attempt

end DigestFilter
