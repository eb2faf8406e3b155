import DigestFilter.Command.Run

/-!
# Running attempts

An attempt on a world gives an answer or an error, and the world that it leaves. Most attempts only
look: they leave the world as it was, and what they answer is a function of it.
-/

namespace DigestFilter

namespace Program

variable {α β γ : Type}

theorem bind_done (p : Program α) : p.bind .done = p := by
  induction p with
  | done a => rfl
  | probe path next ih => exact congrArg (probe path) (funext ih)
  | load path next ih => exact congrArg (load path) (funext ih)
  | store path content next ih => exact congrArg (store path content) (funext ih)
  | sync path next ih => exact congrArg (sync path) (funext ih)
  | makeParents path next ih => exact congrArg (makeParents path) (funext ih)
  | input next ih => exact congrArg input (funext ih)
  | print text next ih => exact congrArg (print text) (funext ih)

theorem bind_assoc (p : Program α) (f : α → Program β) (g : β → Program γ) :
    (p.bind f).bind g = p.bind fun a => (f a).bind g := by
  induction p with
  | done a => rfl
  | probe path next ih => exact congrArg (probe path) (funext ih)
  | load path next ih => exact congrArg (load path) (funext ih)
  | store path content next ih => exact congrArg (store path content) (funext ih)
  | sync path next ih => exact congrArg (sync path) (funext ih)
  | makeParents path next ih => exact congrArg (makeParents path) (funext ih)
  | input next ih => exact congrArg input (funext ih)
  | print text next ih => exact congrArg (print text) (funext ih)

instance : LawfulMonad Program :=
  LawfulMonad.mk' Program bind_done (fun _ _ => rfl) bind_assoc

end Program

namespace Attempt

variable {ε ζ α β : Type} {a : Attempt ε α} {k : α → Attempt ε β} {w : World}

def runOn (a : Attempt ε α) (w : World) : Except ε α × World := (ExceptT.run a).runOn w

theorem runOn_bind (a : Attempt ε α) (k : α → Attempt ε β) (w : World) :
    (a >>= k).runOn w = match a.runOn w with
      | (.ok x, w') => (k x).runOn w'
      | (.error e, w') => (.error e, w') := by
  simp only [runOn, ExceptT.run_bind, Program.runOn_bind]
  rcases (ExceptT.run a).runOn w with ⟨_ | _, _⟩ <;> rfl

theorem runOn_ofAnswer {φ : Type} (onFault : φ → ε) (r : Except φ α) (w : World) :
    (ofAnswer onFault r).runOn w = (r.mapError onFault, w) := by
  cases r <;> rfl

theorem runOn_request {φ : Type} (onFault : φ → ε) (request : Program (Except φ α)) (w : World) :
    runOn (do ofAnswer onFault (← ExceptT.lift request)) w =
      ((request.runOn w).1.mapError onFault, (request.runOn w).2) := by
  have hlift : runOn (ExceptT.lift request : Attempt ε (Except φ α)) w =
      (.ok (request.runOn w).1, (request.runOn w).2) := by
    rw [runOn, ExceptT.run_lift, map_eq_pure_bind, Program.runOn_bind]
    rfl
  rw [runOn_bind, hlift]
  exact runOn_ofAnswer onFault _ _

theorem runOn_store (onFault : DeviceFault → ε) (path : String) (content : List UInt8)
    (w : World) :
    (store onFault path content).runOn w =
      ((w.change (w.files.write path content)).1.mapError onFault,
        (w.change (w.files.write path content)).2) := runOn_request onFault _ w

theorem runOn_sync (onFault : DeviceFault → ε) (path : String) (w : World) :
    (sync onFault path).runOn w = ((w.sync path).mapError onFault, w) := runOn_request onFault _ w

theorem runOn_makeParents (onFault : DeviceFault → ε) (path : String) (w : World) :
    (makeParents onFault path).runOn w =
      ((w.change (w.files.makeParents path)).1.mapError onFault,
        (w.change (w.files.makeParents path)).2) := runOn_request onFault _ w

/-! ## Attempts that only look -/

/-- The attempt changes nothing, and `answer` says what it gives. -/
def Looks (a : Attempt ε α) (answer : World → Except ε α) : Prop :=
  ∀ w, a.runOn w = (answer w, w)

theorem looks_pure (x : α) : (pure x : Attempt ε α).Looks fun _ => .ok x := fun _ => rfl

theorem looks_ofExcept (r : Except ε α) : (ofExcept r).Looks fun _ => r := by
  intro w
  cases r <;> rfl

theorem looks_probe (path : String) :
    (probe path : Attempt ε Bool).Looks fun w => .ok (w.files.isPresent path) := fun _ => rfl

theorem looks_load (onFault : DeviceFault → ε) (path : String) :
    (load onFault path).Looks fun w => (w.files.read path).mapError onFault :=
  runOn_request onFault _

theorem Looks.runOn_bind {f : World → Except ε α} (ha : a.Looks f) (k : α → Attempt ε β)
    (w : World) :
    (a >>= k).runOn w = match f w with
      | .ok x => (k x).runOn w
      | .error e => (.error e, w) := by
  rw [Attempt.runOn_bind, ha w]
  cases f w <;> rfl

theorem Looks.bind {f : World → Except ε α} {g : α → World → Except ε β} (ha : a.Looks f)
    (hk : ∀ x, (k x).Looks (g x)) : (a >>= k).Looks fun w => (f w).bind fun x => g x w := by
  intro w
  rw [ha.runOn_bind]
  dsimp only
  cases f w with
  | error e => rfl
  | ok x => exact hk x w

theorem Looks.mapM {f : α → Attempt ε β} {g : α → World → Except ε β}
    (h : ∀ x, (f x).Looks (g x)) (xs : List α) :
    (xs.mapM f).Looks fun w => xs.mapM fun x => g x w := by
  induction xs with
  | nil => exact looks_pure []
  | cons x xs ih =>
    simp only [List.mapM_cons]
    exact (h x).bind fun y => ih.bind fun ys => looks_pure (y :: ys)

theorem runOn_adapt (wrap : ε → ζ) (a : Attempt ε α) (w : World) :
    runOn (ExceptT.adapt wrap a : Attempt ζ α) w =
      ((a.runOn w).1.mapError wrap, (a.runOn w).2) := by
  have hrun : runOn (ExceptT.adapt wrap a : Attempt ζ α) w =
      ((ExceptT.run a) >>= fun r => (pure (r.mapError wrap) : Program _)).runOn w := rfl
  rw [hrun, Program.runOn_bind]
  rfl

theorem Looks.adapt {f : World → Except ε α} (wrap : ε → ζ) (ha : a.Looks f) :
    Looks (ExceptT.adapt wrap a : Attempt ζ α) fun w => (f w).mapError wrap := by
  intro w
  rw [runOn_adapt, ha w]

end Attempt

/-! ## Filters and settings in files -/

open Attempt

theorem Filter.looks_load (path : String) :
    (Filter.load path).Looks fun w => ((w.files.read path).mapError .device).bind decode :=
  (Attempt.looks_load Error.device path).bind fun bs => looks_ofExcept (decode bs)

theorem Filter.runOn_load (path : String) (w : World) :
    (Filter.load path).runOn w = (((w.files.read path).mapError .device).bind decode, w) :=
  Filter.looks_load path w

theorem Filter.runOn_save_of_write {f : Filter} {path : String} {withHeader : Bool} {w : World}
    {t : FileTree} (h : w.files.write path (f.encode withHeader) = .ok t) :
    (f.save path withHeader).runOn w =
      ((w.sync path).mapError .device, { w with files := t }) := by
  rw [save, runOn_bind, runOn_store, h]
  exact runOn_sync Error.device path _

def Config.found (path : Option String) (w : World) : Except Error Config :=
  match path with
  | none => .ok {}
  | some path =>
    if w.files.isPresent path then
      ((w.files.read path).mapError fun _ => .config .unreadable).bind decode
    else .ok {}

theorem Config.looks_load (path : String) : (Config.load path).Looks (found (some path)) := by
  intro w
  rw [Config.load, runOn_bind, looks_probe path w]
  simp only [found]
  split
  · exact ((Attempt.looks_load _ path).bind fun bs => looks_ofExcept (decode bs)) w
  · rfl

def Request.settingsPath (directory named : Option String) : Option String :=
  named <|> directory.map configPath

theorem Request.looks_config (directory named : Option String) :
    (Request.config directory named).Looks fun w =>
      (Config.found (settingsPath directory named) w).mapError .refused := by
  match named, directory with
  | some path, _ => exact (Config.looks_load path).adapt Complaint.refused
  | none, some d => exact (Config.looks_load (configPath d)).adapt Complaint.refused
  | none, none => exact looks_pure ({} : Config)

theorem Config.defaultCapacity_ne_zero {path : Option String} {w : World} {c : Config}
    (h : found path w = .ok c) : c.defaultCapacity ≠ 0 := by
  have hdefault : ({} : Config).defaultCapacity ≠ 0 := by decide
  have hcheck : ∀ {c' : Config}, c'.check = .ok c → c.defaultCapacity ≠ 0 := by
    intro c' hc
    unfold Config.check at hc
    split at hc
    · cases hc
    · next hne =>
      cases hc
      exact hne
  unfold found at h
  split at h
  · cases h
    exact hdefault
  split at h
  · cases hread : w.files.read _ with
    | error fault => rw [hread] at h; cases h
    | ok bs =>
      rw [hread] at h
      change decode bs = .ok c at h
      unfold decode parse at h
      split at h
      · cases h
      split at h
      · cases h
      · exact hcheck h
  · cases h
    exact hdefault

end DigestFilter
