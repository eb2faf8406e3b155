import DigestFilter.Command.Run
import DigestFilter.Proofs.Files.Trace
import DigestFilter.Proofs.Json.Document

/-!
# What is printed

A command that does not complain prints one document as its last request. In both formats the text
is read as the document, since no document has a part that its text would lose. Where nothing can be
printed the command ends with an exit code of its own.
-/

namespace DigestFilter

open Attempt

/-! ## Documents -/

namespace Reply

theorem plain_identifierMembers (x : Identifier) : ∀ m ∈ identifierMembers x, m.2.Plain := by
  have hhashes := Json.plain_array_map (fun code : UInt32 => Json.plain_ofNat code.toNat) (hashes x)
  simp only [identifierMembers, List.forall_mem_cons]
  exact ⟨Json.plain_ofText _, Json.plain_ofNat _, Json.plain_ofText _, hhashes,
    List.forall_mem_nil _⟩

theorem plain_contentMembers (a : Option Alphabet) (source : String) (content : List UInt8) :
    ∀ m ∈ contentMembers a source content, m.2.Plain := by
  simp only [contentMembers, List.forall_mem_append, List.forall_mem_cons]
  refine ⟨⟨plain_identifierMembers _, Json.plain_ofText _, Json.plain_ofNat _,
    List.forall_mem_nil _⟩, ?_⟩
  cases a with
  | none => exact List.forall_mem_nil _
  | some a => exact List.forall_mem_singleton.2 (Json.plain_ofText _)

theorem plain_filterMembers (path : String) (f : Filter) :
    ∀ m ∈ filterMembers path f, m.2.Plain := by
  simp only [filterMembers, List.forall_mem_cons]
  exact ⟨Json.plain_ofText _, Json.plain_ofNat _, Json.plain_ofNat _, Json.plain_ofFloat _,
    Json.plain_bool _, List.forall_mem_nil _⟩

theorem plain_malformed (e : Error) (exit : Nat) : (malformed e exit).document.Plain := by
  apply Json.plain_record
  simp only [List.forall_mem_cons]
  exact ⟨Json.plain_ofText _, Json.plain_ofText _, List.forall_mem_nil _⟩

end Reply

theorem FilterCommand.plain_run (config : Config) (c : FilterCommand) :
    (c.run config).Gives (·.document.Plain) := by
  cases c with
  | create path capacity =>
    refine gives_bind fun f => gives_bind fun _ => gives_pure (Json.plain_record ?_)
    simp only [List.forall_mem_cons]
    exact ⟨Json.plain_ofText _, Json.plain_ofText _, Json.plain_ofNat _, List.forall_mem_nil _⟩
  | insert path ids files =>
    refine gives_bind fun f => gives_bind fun parsed => gives_bind fun named => gives_bind fun g =>
      gives_bind fun _ => gives_pure (Json.plain_record ?_)
    have hinserted := Json.plain_array_map (fun x : Identifier => Json.plain_ofText x.toHex)
    simp only [List.forall_mem_cons]
    exact ⟨Json.plain_ofText _, hinserted _, Json.plain_ofFloat _, List.forall_mem_nil _⟩
  | check path ids =>
    apply gives_bind
    intro f
    cases ids.mapM Identifier.parse with
    | error e => exact gives_pure (Reply.plain_malformed e 2)
    | ok xs =>
      have hresult : ∀ x : Identifier,
          (Json.record [("id", .ofText x.toHex), ("present", .bool (f.contains x))]).Plain := by
        intro x
        apply Json.plain_record
        simp only [List.forall_mem_cons]
        exact ⟨Json.plain_ofText _, Json.plain_bool _, List.forall_mem_nil _⟩
      refine gives_pure (Json.plain_record ?_)
      simp only [List.forall_mem_cons]
      exact ⟨Json.plain_ofNat _, Json.plain_array_map hresult xs, List.forall_mem_nil _⟩
  | info path =>
    exact gives_bind fun f => gives_pure (Json.plain_record (Reply.plain_filterMembers path f))
  | merge a b op output =>
    refine gives_bind fun left => gives_bind fun right => gives_bind fun merged =>
      gives_bind fun _ => gives_pure (Json.plain_record ?_)
    exact List.forall_mem_append.2 ⟨Reply.plain_filterMembers output merged,
      List.forall_mem_singleton.2 (Json.plain_ofText _)⟩

theorem Command.plain_runIdentify (files : List String) (stdin : Bool) (base : Option Nat) :
    (runIdentify files stdin base).Gives (·.document.Plain) := by
  have hdocument : ∀ (a : Option Alphabet) (contents : List (String × List UInt8)) (n : Nat),
      (Json.record [("count", .ofNat n), ("ids", .array (contents.map fun c =>
        .record (Reply.contentMembers a c.1 c.2)))]).Plain := by
    intro a contents n
    have hitem := fun c : String × List UInt8 =>
      Json.plain_record (Reply.plain_contentMembers a c.1 c.2)
    apply Json.plain_record
    simp only [List.forall_mem_cons]
    exact ⟨Json.plain_ofNat _, Json.plain_array_map hitem contents, List.forall_mem_nil _⟩
  apply gives_bind
  intro a
  split
  · exact gives_bind fun _ => gives_bind fun _ => gives_bind fun _ => gives_pure (hdocument _ _ _)
  · exact gives_bind fun _ => gives_bind fun _ => gives_pure (hdocument _ _ _)

/-- No document of a command has a part that its text would lose. -/
theorem Command.plain_run (config : Config) (c : Command) :
    (c.run config).Gives (·.document.Plain) := by
  cases c with
  | identify files stdin base => exact plain_runIdentify files stdin base
  | parse hex =>
    refine gives_pure ?_
    unfold runParse
    split
    · exact Json.plain_record (Reply.plain_identifierMembers _)
    · exact Reply.plain_malformed _ 1
  | filter c => exact c.plain_run config

/-! ## Texts -/

namespace Request

theorem parse?_render (format : OutputFormat) {document : Json} (h : document.Plain) :
    Json.parse? (render format document) = some document := by
  have hnewline : Json.Spells [] ['\n'] := Json.spells_newline 0 Json.spells_nil
  apply Json.parse?_of_spells
  rw [← List.append_nil document.toTokens]
  cases format with
  | compact =>
    have htext : (render .compact document).toList = document.compactChars ++ ['\n'] := by
      simp [render, Json.compact]
    rw [htext]
    exact (document.spells_compactChars h).append hnewline
  | pretty =>
    have htext : (render .pretty document).toList = document.prettyChars 0 ++ ['\n'] := by
      simp [render, Json.pretty]
    rw [htext]
    exact (document.spells_prettyChars 0 h).append hnewline

end Request

/-! ## Runs -/

/-- The run has come to its document: it ends with a text that is read so, or cannot print it. -/
def World.Reports (w : World) (document : Json) (exit : Nat) (r : Outcome × World) : Prop :=
  ∃ text, Json.parse? text = some document ∧ match w.stdout with
    | .ok before => r = ({ exit }, { w with stdout := .ok (before ++ text) })
    | .error fault => r = (.unprinted fault, w)

namespace World.Reports

variable {w : World} {document : Json} {exit : Nat} {r : Outcome × World}

theorem of_stdout {before : String} (h : w.Reports document exit r) (hw : w.stdout = .ok before) :
    ∃ text, Json.parse? text = some document ∧
      r = ({ exit }, { w with stdout := .ok (before ++ text) }) := by
  obtain ⟨text, htext, hr⟩ := h
  rw [hw] at hr
  exact ⟨text, htext, hr⟩

theorem of_no_stdout {fault : DeviceFault} (h : w.Reports document exit r)
    (hw : w.stdout = .error fault) : r = (.unprinted fault, w) := by
  obtain ⟨text, -, hr⟩ := h
  rwa [hw] at hr

theorem files_eq (h : w.Reports document exit r) : r.2.files = w.files := by
  cases hw : w.stdout with
  | ok before =>
    obtain ⟨text, -, rfl⟩ := h.of_stdout hw
    rfl
  | error fault => rw [h.of_no_stdout hw]

theorem exit_eq (h : w.Reports document exit r) : r.1.exit = exit ∨ r.1.exit = 101 := by
  cases hw : w.stdout with
  | ok before =>
    obtain ⟨text, -, rfl⟩ := h.of_stdout hw
    exact .inl rfl
  | error fault =>
    rw [h.of_no_stdout hw]
    exact .inr rfl

end World.Reports

namespace Request

variable {directory : Option String} {i : Invocation} {es : List Event} {o : Outcome} {w w' : World}

theorem reports_of_plain (format : OutputFormat) {reply : Reply} (h : reply.document.Plain) :
    w.Reports reply.document reply.exit ((report format reply).runOn w) := by
  refine ⟨render format reply.document, parse?_render format h, ?_⟩
  rw [report, Program.runOn, World.print]
  cases w.stdout <;> rfl

theorem of_run_runInvocation (h : (runInvocation directory i).Run es o) :
    ∃ before r, Attempt.Run (do i.command.run (← config directory i.config)) before r ∧
      match r with
      | .error complaint => es = before ∧ o = .failed complaint
      | .ok reply => ∃ answer, es = before ++ [.printed (render i.format reply.document) answer] ∧
        o = .ending reply.exit answer := by
  obtain ⟨before, after, r, rfl, hrun, hend⟩ := Program.of_run_bind h
  refine ⟨before, r, hrun, ?_⟩
  cases r with
  | error complaint =>
    cases hend
    exact ⟨List.append_nil _, rfl⟩
  | ok reply =>
    cases hend with
    | print hend =>
      cases hend
      exact ⟨_, rfl, rfl⟩

theorem runOn_runInvocation_of_error {complaint : Complaint}
    (h : Attempt.runOn (do i.command.run (← config directory i.config)) w =
      (.error complaint, w')) : (runInvocation directory i).runOn w = (.failed complaint, w') := by
  rw [Attempt.runOn] at h
  rw [runInvocation, Program.runOn_bind, h]
  rfl

theorem runOn_runInvocation_of_ok {reply : Reply}
    (h : Attempt.runOn (do i.command.run (← config directory i.config)) w = (.ok reply, w')) :
    w'.Reports reply.document reply.exit ((runInvocation directory i).runOn w) := by
  have hplain := (gives_bind fun c => Command.plain_run c i.command).of_runOn h
  rw [Attempt.runOn] at h
  rw [runInvocation, Program.runOn_bind, h]
  exact reports_of_plain i.format hplain

end Request

end DigestFilter
