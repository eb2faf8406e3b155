import DigestFilter.Proofs.Command.Store
import DigestFilter.Proofs.Files.Program
import DigestFilter.Proofs.Files.Tree
import DigestFilter.Proofs.Filter.Header
import DigestFilter.Proofs.Filter.Merge
import DigestFilter.Proofs.Json.Document

/-!
# Filter files

A world represents a store when every filter path leads to a file with the stored bitmap, in one
form or the other, or to a place that is still vacant. Commands that run on such a world read what
the store has and write what the store would, or complain and write nothing.
-/

namespace DigestFilter

theorem Except.toOption_mapError {ε ζ α : Type} (r : Except ε α) (f : ε → ζ) :
    (r.mapError f).toOption = r.toOption := by
  cases r <;> rfl

theorem Except.toOption_mapM {ε α β : Type} (f : α → Except ε β) (xs : List α) :
    (xs.mapM f).toOption = xs.mapM fun x => (f x).toOption := by
  induction xs with
  | nil => rfl
  | cons x xs ih =>
    rw [List.mapM_cons, List.mapM_cons, ← ih]
    cases f x with
    | error e => rfl
    | ok y => cases xs.mapM f <;> rfl

namespace World

variable {w : World} {path path' : String} {l l' : Location} {bs : List UInt8}

def inputs (w : World) (path : String) : Option (List UInt8) := (w.files.read path).toOption

def put (w : World) (l : Location) (content : List UInt8) : World :=
  { w with files := w.files.put l (.file content) }

/-- A filter file with a bitmap stands where the path leads, or nothing does. -/
def HasFilter (w : World) (path : String) (l : Location) : Option (List UInt8) → Prop
  | none => w.files.locate path = .ok (.vacant l false)
  | some bs => ∃ (f : Filter) (withHeader : Bool), f.bitmap = bs ∧ f.size < 2 ^ 63 ∧
    w.files.locate path = .ok (.file l (f.encode withHeader) false)

theorem HasFilter.ne_nil (h : w.HasFilter path l (some bs)) : bs ≠ [] := by
  obtain ⟨f, -, rfl, -, -⟩ := h
  exact f.bitmap_ne_nil

theorem HasFilter.spot {content : Option (List UInt8)} (h : w.HasFilter path l content) :
    ∃ place, w.files.locate path = .ok place ∧ place.spot? = some (l, false) := by
  cases content with
  | none => exact ⟨_, h, rfl⟩
  | some bs =>
    obtain ⟨f, withHeader, -, -, hfile⟩ := h
    exact ⟨_, hfile, rfl⟩

/-! ## Loading and saving -/

theorem load_of_none (h : w.HasFilter path l none) :
    (Filter.load path).runOn w = (.error (.device .notFound), w) := by
  rw [Filter.runOn_load, FileTree.read_of_vacant h]
  rfl

theorem load_of_some (h : w.HasFilter path l (some bs)) :
    ∃ f : Filter, f.bitmap = bs ∧ f.frozen = false ∧ f.size < 2 ^ 63 ∧
      (Filter.load path).runOn w = (.ok f, w) := by
  obtain ⟨f, withHeader, hbitmap, hsize, hfile⟩ := h
  refine ⟨f.thawed, hbitmap, rfl, hsize, ?_⟩
  rw [Filter.runOn_load, FileTree.read_of_file hfile]
  exact congrArg (·, w) (Filter.decode_encode hsize withHeader)

theorem save {content : Option (List UInt8)} (h : w.HasFilter path l content)
    (hsync : w.sync path = .ok ()) (f : Filter) (withHeader : Bool) :
    (f.save path withHeader).runOn w = (.ok (), w.put l (f.encode withHeader)) := by
  obtain ⟨place, hplace, hspot⟩ := h.spot
  rw [Filter.runOn_save_of_write (FileTree.write_of_spot hplace hspot), hsync]
  rfl

theorem hasFilter_put {content : Option (List UInt8)} (h : w.HasFilter path l content)
    (f : Filter) (hsize : f.size < 2 ^ 63) (withHeader : Bool) :
    (w.put l (f.encode withHeader)).HasFilter path l (some f.bitmap) := by
  obtain ⟨place, hplace, hspot⟩ := h.spot
  refine ⟨f, withHeader, rfl, hsize, ?_⟩
  rw [← Place.after_of_spot _ hspot]
  exact FileTree.locate_put hplace hspot hplace _

theorem hasFilter_put_of_ne {content content' : Option (List UInt8)} {bytes : List UInt8}
    (h : w.HasFilter path l content) (h' : w.HasFilter path' l' content') (hne : l' ≠ l) :
    (w.put l bytes).HasFilter path' l' content' := by
  obtain ⟨place, hplace, hspot⟩ := h.spot
  have hkeep : ∀ place', place'.spot? = some (l', false) → w.files.locate path' = .ok place' →
      (w.put l bytes).files.locate path' = .ok place' := by
    intro place' hspot' hplace'
    rw [← Place.after_of_ne bytes hspot' hne]
    exact FileTree.locate_put hplace hspot hplace' bytes
  cases content' with
  | none => exact hkeep _ rfl h'
  | some bs =>
    obtain ⟨f, withHeader, hbitmap, hsize, hfile⟩ := h'
    exact ⟨f, withHeader, hbitmap, hsize, hkeep _ rfl hfile⟩

end World

/-! ## Commands -/

open Attempt World

theorem Act.looks_ofExcept {α : Type} (r : Except Error α) :
    (Act.ofExcept r).Looks fun _ => r.mapError .refused :=
  (Attempt.looks_ofExcept r).adapt Complaint.refused

theorem Act.looks_load (path : String) :
    (Act.attempt (Filter.load path)).Looks fun w =>
      (((w.files.read path).mapError Error.device).bind Filter.decode).mapError .refused :=
  (Filter.looks_load path).adapt Complaint.refused

namespace FilterCommand

variable {w : World} {store : Store} {config : Config} {path : String} {l : Location}
  {bs : List UInt8}

/-- The filter is written where the path leads, or the command complains and changes nothing. -/
def Writes (w : World) (l : Location) (withHeader : Bool) (r : Except Complaint Reply × World) :
    Option (List UInt8) → Prop
  | none => ∃ complaint, r = (.error complaint, w)
  | some bs => ∃ (reply : Reply) (f : Filter), r = (.ok reply, w.put l (f.encode withHeader)) ∧
    reply.exit = 0 ∧ f.bitmap = bs ∧ f.size < 2 ^ 63

theorem runOn_load_of_none {β : Type} (h : w.HasFilter path l none) (k : Filter → Act β) :
    (Act.attempt (Filter.load path) >>= k).runOn w =
      (.error (.refused (.device .notFound)), w) := by
  rw [Attempt.runOn_bind, Act.attempt, runOn_adapt, load_of_none h]
  rfl

theorem runOn_load_of_some (h : w.HasFilter path l (some bs)) :
    ∃ f : Filter, f.bitmap = bs ∧ f.frozen = false ∧ f.size < 2 ^ 63 ∧
      ∀ {β : Type} (k : Filter → Act β),
        (Act.attempt (Filter.load path) >>= k).runOn w = (k f).runOn w := by
  obtain ⟨f, hbitmap, hfrozen, hsize, hload⟩ := load_of_some h
  refine ⟨f, hbitmap, hfrozen, hsize, ?_⟩
  intro β k
  rw [Attempt.runOn_bind, Act.attempt, runOn_adapt, hload]
  rfl

theorem runOn_save {β : Type} {content : Option (List UInt8)} (h : w.HasFilter path l content)
    (hsync : w.sync path = .ok ()) (f : Filter) (withHeader : Bool) (k : Unit → Act β) :
    (Act.attempt (f.save path withHeader) >>= k).runOn w =
      (k ()).runOn (w.put l (f.encode withHeader)) := by
  rw [Attempt.runOn_bind, Act.attempt, runOn_adapt, save h hsync]
  rfl

theorem writes_create {capacity : Option Nat} {content : Option (List UInt8)}
    (h : w.HasFilter path l content) (hsync : w.sync path = .ok ())
    (hsize : capacity.getD config.defaultCapacity.toNat < 2 ^ 63) :
    Writes w l config.writeHeader ((runCreate config path capacity).runOn w)
      ((create path capacity).written? config w.inputs store) := by
  rw [runCreate, (Act.looks_ofExcept _).runOn_bind, written?]
  by_cases hzero : capacity.getD config.defaultCapacity.toNat = 0
  · rw [if_pos hzero, hzero]
    exact ⟨_, rfl⟩
  · obtain ⟨f, hf, hlen, -, -⟩ := Filter.empty_of_pos (Nat.pos_of_ne_zero hzero)
    have hbitmap := (Filter.ofBytes_eq_ok_iff.1 hf).1
    rw [if_neg hzero, hf]
    refine ⟨_, f, runOn_save h hsync f _ _, rfl, hbitmap, ?_⟩
    rwa [hlen]

def parsed (ids : List String) : Except Complaint (List Identifier) :=
  ids.mapM fun hex => (Identifier.parse hex).mapError .refused

def named (w : World) (files : List String) : Except Complaint (List Identifier) :=
  files.mapM fun file => ((w.files.read file).mapError .unreadable).bind fun content =>
    .ok (Identifier.ofContent content)

theorem looks_parsed (ids : List String) :
    Looks (ids.mapM fun hex => Act.ofExcept (Identifier.parse hex)) fun _ => parsed ids :=
  Looks.mapM (fun hex => Act.looks_ofExcept (Identifier.parse hex)) ids

theorem looks_named (files : List String) :
    Looks (files.mapM fun file => do return Identifier.ofContent (← Act.content file)) fun w =>
      named w files :=
  Looks.mapM (fun file => (looks_load Complaint.unreadable file).bind fun _ => looks_pure _) files

theorem toOption_parsed (ids : List String) :
    (parsed ids).toOption = ids.mapM fun id => (Identifier.parse id).toOption := by
  rw [parsed, Except.toOption_mapM]
  simp only [Except.toOption_mapError]

theorem toOption_named (w : World) (files : List String) :
    (named w files).toOption = files.mapM fun file =>
      (w.inputs file).map Identifier.ofContent := by
  rw [named, Except.toOption_mapM]
  congr 1
  funext file
  rw [inputs]
  cases w.files.read file <;> rfl

theorem writes_insert {ids files : List String} (h : w.HasFilter path l (store path))
    (hsync : w.sync path = .ok ()) :
    Writes w l config.writeHeader ((runInsert config path ids files).runOn w)
      ((insert path ids files).written? config w.inputs store) := by
  rw [runInsert, written?, inserted?, ← toOption_parsed, ← toOption_named]
  cases hstore : store path with
  | none =>
    rw [hstore] at h
    exact ⟨_, runOn_load_of_none h _⟩
  | some bs =>
    rw [hstore] at h
    obtain ⟨f, rfl, hfrozen, hsize, hload⟩ := runOn_load_of_some h
    rw [hload, (looks_parsed ids).runOn_bind]
    cases parsed ids with
    | error complaint => exact ⟨complaint, rfl⟩
    | ok xs =>
      dsimp only
      rw [(looks_named files).runOn_bind]
      cases named w files with
      | error complaint => exact ⟨complaint, rfl⟩
      | ok ys =>
        dsimp only
        rw [(Act.looks_ofExcept _).runOn_bind, f.insertAll_of_thawed hfrozen]
        refine ⟨_, _, runOn_save h hsync _ _ _, rfl, rfl, ?_⟩
        rw [Filter.size_setBits]
        exact hsize

theorem writes_merge {a b output : String} {op : MergeOp} {la lb : Location}
    {content : Option (List UInt8)} (ha : w.HasFilter a la (store a))
    (hb : w.HasFilter b lb (store b)) (h : w.HasFilter output l content)
    (hsync : w.sync output = .ok ()) :
    Writes w l config.writeHeader ((runMerge config a b op output).runOn w)
      ((merge a b op output).written? config w.inputs store) := by
  rw [runMerge, written?]
  cases hleft : store a with
  | none =>
    rw [hleft] at ha
    exact ⟨_, runOn_load_of_none ha _⟩
  | some as =>
  rw [hleft] at ha
  obtain ⟨left, rfl, -, hsize, hload⟩ := runOn_load_of_some ha
  rw [hload]
  cases hright : store b with
  | none =>
    rw [hright] at hb
    exact ⟨_, runOn_load_of_none hb _⟩
  | some bs =>
  rw [hright] at hb
  obtain ⟨right, rfl, -, -, hload⟩ := runOn_load_of_some hb
  rw [hload, (Act.looks_ofExcept _).runOn_bind]
  by_cases hlen : left.bitmap.length = right.bitmap.length
  · obtain ⟨merged, hmerged⟩ := Filter.merge_of_size_eq hlen op
    have hwritten : (left.merge right op).mapError Complaint.refused = .ok merged := by
      rw [hmerged]
      rfl
    rw [hwritten]
    show Writes w l _ _ (if left.bitmap.length = right.bitmap.length then _ else _)
    rw [if_pos hlen]
    refine ⟨_, merged, runOn_save h hsync merged _ _, rfl, (Filter.of_merge_eq_ok hmerged).2.1, ?_⟩
    rw [Filter.size_merge hmerged]
    exact hsize
  · show Writes w l _ _ (if left.bitmap.length = right.bitmap.length then _ else _)
    rw [if_neg hlen, Filter.merge_of_size_ne hlen]
    exact ⟨_, rfl⟩

theorem snd_runOn_of_no_target {c : FilterCommand} (h : c.target? = none) :
    ((c.run config).runOn w).2 = w := by
  cases c with
  | create path capacity | insert path ids files | merge a b op output => cases h
  | check path ids =>
    rw [run, runCheck, (Act.looks_load path).runOn_bind]
    split
    · cases ids.mapM Identifier.parse <;> rfl
    · rfl
  | info path =>
    rw [run, runInfo, (Act.looks_load path).runOn_bind]
    split <;> rfl

theorem document_malformed (e : Error) (exit : Nat) : (Reply.malformed e exit).document =
    .object [(some "message", .ofText e.message), (some "status", .ofText "error")] := by
  simp [Reply.malformed, Json.record, List.mergeSort, List.MergeSort.Internal.splitInTwo]

theorem runOn_check (h : w.HasFilter path l (some bs)) (ids : List String) :
    (runCheck path ids).runOn w =
      (.ok { document := (checkAnswer bs ids).1, exit := (checkAnswer bs ids).2 }, w) := by
  obtain ⟨f, rfl, -, -, hload⟩ := runOn_load_of_some h
  rw [runCheck, hload, checkAnswer]
  cases ids.mapM Identifier.parse with
  | error e =>
    dsimp only
    rw [← document_malformed e 2]
    rfl
  | ok xs =>
    have hresult : ∀ x : Identifier,
        Json.record [("id", .ofText x.toHex), ("present", .bool (f.contains x))] =
          .object [(some "id", .ofText x.toHex), (some "present", .bool (f.contains x))] :=
      fun x => Json.record_of_sorted (by simp)
    have hdocument : ∀ (n : Nat) (results : List Json),
        Json.record [("count", .ofNat n), ("results", .array results)] =
          .object [(some "count", .ofNat n), (some "results", .array results)] :=
      fun n results => Json.record_of_sorted (by simp)
    dsimp only
    simp only [hdocument, hresult, List.length_map]
    rfl

theorem record_filterMembers (path : String) (f : Filter) :
    Json.record (Reply.filterMembers path f) = infoDocument path f.bitmap := by
  simp [Json.record, Reply.filterMembers, List.mergeSort, List.MergeSort.Internal.splitInTwo]
  rfl

theorem runOn_info (h : w.HasFilter path l (some bs)) :
    (runInfo path).runOn w = (.ok { document := infoDocument path bs }, w) := by
  obtain ⟨f, rfl, -, -, hload⟩ := runOn_load_of_some h
  rw [runInfo, hload, ← record_filterMembers]
  rfl

end FilterCommand

end DigestFilter
