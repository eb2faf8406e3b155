import DigestFilter.Proofs.Files.Program
import DigestFilter.Proofs.Files.Tree
import DigestFilter.Proofs.Json.Document

/-!
# Settings in files

Settings are read from the values of two fields, wherever they stand among the members of an object.
So the order of the members, other members, and how the document is written make no difference.
-/

namespace DigestFilter.Config

variable {c : Config} {path text : String} {w w' : World}

/-! ## Fields -/

/-- The members that give some of the settings. -/
def given (capacity : Option UInt64) (header : Option Bool) : List Json.Member :=
  (capacity.map fun n => (some "default_capacity", Json.ofNat n.toNat)).toList ++
    (header.map fun b => (some "write_header", Json.bool b)).toList

/-- The member has a text for its name, and the name is no setting. -/
def IsOther (m : Json.Member) : Prop :=
  m.1.isSome ∧ m.1 ≠ some "default_capacity" ∧ m.1 ≠ some "write_header"

theorem word?_ofNat (n : UInt64) : word? (Json.ofNat n.toNat) = some n := by
  have hlt : n.toNat < UInt64.size := n.toNat_lt
  simp [word?, Json.ofNat, Decimal.Literal.ofNat, Json.word?, hlt]

theorem flag?_bool (b : Bool) : flag? (.bool b) = some b := rfl

theorem valuesOf_of_perm {name : String} {others members ms : List Json.Member}
    (hothers : ∀ m ∈ others, m.1 ≠ some name) (hperm : members.Perm (ms ++ others)) :
    (valuesOf name members).Perm (valuesOf name ms) := by
  have hnone : valuesOf name others = [] := by
    simp only [valuesOf, List.filterMap_eq_nil_iff]
    intro m hm
    rw [if_neg (hothers m hm)]
  have hvalues := hperm.filterMap fun m => if m.1 = some name then some m.2 else none
  rw [List.filterMap_append] at hvalues
  change (valuesOf name members).Perm (valuesOf name ms ++ valuesOf name others) at hvalues
  rwa [hnone, List.append_nil] at hvalues

theorem capacities_given (capacity : Option UInt64) (header : Option Bool) :
    valuesOf "default_capacity" (given capacity header) =
      (capacity.map fun n => Json.ofNat n.toNat).toList := by
  cases capacity <;> cases header <;> rfl

theorem headers_given (capacity : Option UInt64) (header : Option Bool) :
    valuesOf "write_header" (given capacity header) = (header.map Json.bool).toList := by
  cases capacity <;> cases header <;> rfl

theorem field?_of_perm {α : Type} {read : Json → Option α} {write : α → Json}
    (hread : ∀ x, read (write x) = some x) (fallback : α) {x : Option α} {vs : List Json}
    (h : vs.Perm (x.map write).toList) : field? read fallback vs = some (x.getD fallback) := by
  cases x with
  | none =>
    rw [List.perm_nil.1 h]
    rfl
  | some x =>
    rw [List.perm_singleton.1 h]
    exact hread x

theorem ofJson?_of_perm {capacity : Option UInt64} {header : Option Bool}
    {others members : List Json.Member} (hothers : ∀ m ∈ others, IsOther m)
    (hperm : members.Perm (given capacity header ++ others)) :
    ofJson? (.object members) = some ⟨capacity.getD 4096, header.getD true⟩ := by
  have hnamed : members.all (·.1.isSome) = true := by
    rw [hperm.all_eq, List.all_append, Bool.and_eq_true]
    refine ⟨?_, List.all_eq_true.2 fun m hm => (hothers m hm).1⟩
    cases capacity <;> cases header <;> rfl
  have hcapacity := valuesOf_of_perm (fun m hm => (hothers m hm).2.1) hperm
  have hheader := valuesOf_of_perm (fun m hm => (hothers m hm).2.2) hperm
  rw [capacities_given] at hcapacity
  rw [headers_given] at hheader
  rw [ofJson?, if_pos hnamed, ofFields?, field?_of_perm word?_ofNat _ hcapacity,
    field?_of_perm flag?_bool _ hheader]
  rfl

/-! ## Documents -/

theorem toJson_eq (c : Config) :
    c.toJson = .object (given (some c.defaultCapacity) (some c.writeHeader)) :=
  Json.record_of_sorted (by simp)

theorem plain_toJson (c : Config) : c.toJson.Plain :=
  Json.plain_record (by simp [Json.plain_ofNat, Json.plain_bool])

theorem decode_of_ofJson? {v : Json} (hv : Json.parse? text = some v) (hc : ofJson? v = some c) :
    decode (Utf8.encode text) = c.check := by
  rw [decode, Utf8.decode?_encode]
  dsimp only
  rw [parse, hv, Option.bind_some, hc]

theorem decode_encode (c : Config) : decode c.encode = c.check := by
  have hothers : ∀ m ∈ ([] : List Json.Member), IsOther m := by simp
  have hperm : (given (some c.defaultCapacity) (some c.writeHeader)).Perm
      (given (some c.defaultCapacity) (some c.writeHeader) ++ []) := by
    rw [List.append_nil]
  refine decode_of_ofJson? (Json.parse?_pretty c.plain_toJson) ?_
  rw [toJson_eq]
  exact ofJson?_of_perm hothers hperm

theorem check_eq (c : Config) : c.check =
    if c.defaultCapacity = 0 then .error (.config .zeroCapacity) else .ok c := rfl

/-! ## Files -/

theorem load_of_read {bs : List UInt8} (h : w.files.read path = .ok bs) :
    (load path).runOn w = (decode bs, w) := by
  rw [looks_load path w, found, FileTree.isPresent_of_read h, if_pos rfl, h]
  rfl

theorem runOn_save_of_accepts {t : FileTree} {place : Place} {l : Location}
    (hmake : w.files.makeParents path = .ok t) (hplace : t.locate path = .ok place)
    (hspot : place.spot? = some (l, false)) (c : Config) :
    (c.save path).runOn w = (.ok (), { w with files := t.put l (.file c.encode) }) := by
  rw [save, Attempt.runOn_bind, Attempt.runOn_makeParents, hmake]
  change (Attempt.store Error.device path c.encode).runOn { w with files := t } = _
  rw [Attempt.runOn_store, FileTree.write_of_spot hplace hspot]
  rfl

theorem of_runOn_save (h : (c.save path).runOn w = (.ok (), w')) : w.files.Accepts path := by
  rw [save, Attempt.runOn_bind, Attempt.runOn_makeParents] at h
  cases hmake : w.files.makeParents path with
  | error fault =>
    rw [hmake] at h
    cases h
  | ok t =>
    rw [hmake] at h
    change (Attempt.store Error.device path c.encode).runOn { w with files := t } = _ at h
    rw [Attempt.runOn_store] at h
    cases hwrite : t.write path c.encode with
    | error fault =>
      rw [hwrite] at h
      cases h
    | ok t' =>
      obtain ⟨place, l, hplace, hspot, -, -⟩ := FileTree.of_write_eq_ok hwrite
      exact ⟨t, place, l, hmake, hplace, hspot⟩

/-- Settings that were saved are loaded again, and so are those that a document gives in part. -/
theorem settings_survive_files :
    (∀ (c : Config) (path : String) (w : World),
      ((∃ w', (c.save path).runOn w = (.ok (), w')) ↔ w.files.Accepts path) ∧
      ∀ w', (c.save path).runOn w = (.ok (), w') → w'.files.read path = .ok c.encode ∧
        (load path).runOn w' =
          (if c.defaultCapacity = 0 then .error (.config .zeroCapacity) else .ok c, w')) ∧
    (∀ (capacity : Option UInt64) (header : Option Bool) (others members : List Json.Member)
        (text path : String) (w : World),
      (∀ m ∈ others, IsOther m) → members.Perm (given capacity header ++ others) →
      Json.Spells (Json.object members).toTokens text.toList →
      w.files.read path = .ok (Utf8.encode text) →
      (load path).runOn w =
        (if capacity = some 0 then .error (.config .zeroCapacity)
          else .ok ⟨capacity.getD 4096, header.getD true⟩, w)) ∧
    (Error.config .zeroCapacity).message = "Config error: default_capacity must be positive" := by
  refine ⟨?_, ?_, rfl⟩
  · intro c path w
    refine ⟨⟨fun ⟨w', h⟩ => of_runOn_save h, ?_⟩, ?_⟩
    · rintro ⟨t, place, l, hmake, hplace, hspot⟩
      exact ⟨_, runOn_save_of_accepts hmake hplace hspot c⟩
    · intro w' h
      obtain ⟨t, place, l, hmake, hplace, hspot⟩ := of_runOn_save h
      rw [runOn_save_of_accepts hmake hplace hspot c, Prod.mk.injEq] at h
      obtain ⟨-, rfl⟩ := h
      have hfile := FileTree.locate_put hplace hspot hplace c.encode
      rw [Place.after_of_spot c.encode hspot] at hfile
      have hread := FileTree.read_of_file hfile
      refine ⟨hread, ?_⟩
      rw [load_of_read hread, decode_encode, check_eq]
  · intro capacity header others members text path w hothers hperm hspells hread
    have hparse := Json.parse?_of_spells hspells
    rw [load_of_read hread, decode_of_ofJson? hparse (ofJson?_of_perm hothers hperm), check_eq]
    cases capacity with
    | none => rfl
    | some n => simp

def notedMembers : List Json.Member := [(some "note", .null), (some "default_capacity", .ofNat 64)]

def notedText : String := "\x7b\x22note\x22: null,\t\x22default_capacity\x22:64 \x7d"

def notedWorld : World where
  files := {
    nodes := [(["home"], .directory), (["home", "config.json"], .file (Utf8.encode notedText))]
    workingDirectory := ["home"] }

theorem spells_notedText : Json.Spells (Json.object notedMembers).toTokens notedText.toList := by
  have hspace : ∀ c ∈ [' '], Json.isBlank c := by simp [Json.isBlank]
  have htab : ∀ c ∈ ['\t'], Json.isBlank c := by simp [Json.isBlank]
  have hnumber : (Json.Token.number (.ofNat 64)).Lexeme ['6', '4'] :=
    Json.lexeme_number fun d hd => absurd hd List.not_mem_nil
  have hclose := Json.Token.Lexeme.closeObject.spells.blanks hspace
  have hnamed : (some "default_capacity").isSome := rfl
  have hcapacity := Json.spells_tight hnamed (hnumber.cons hclose)
  have hcomma := Json.Token.Lexeme.comma.cons (hcapacity.blanks htab)
  have hnoted : (some "note").isSome := rfl
  have hnote := Json.spells_spaced hnoted (Json.Token.Lexeme.null.cons hcomma)
  exact Json.Token.Lexeme.openObject.cons hnote

theorem accepts_nested : ({} : FileTree).Accepts "/nested/config.json" := by
  have hroute : ({} : FileTree).route "/nested/config.json" =
      [""] ++ (["nested"] ++ ["config.json"]) := rfl
  refine FileTree.accepts_of_plain hroute ?_ ?_ ?_ ?_
  · simp
  · simp [FileTree.IsPlain]
  · intro l content _ hne
    simp [FileTree.node?, hne]
  · simp [FileTree.node?]

theorem settings_survive_files_nested :
    (∃ w, (Config.save ⟨1024, false⟩ "/nested/config.json").runOn { files := {} } = (.ok (), w) ∧
      (load "/nested/config.json").runOn w = (.ok ⟨1024, false⟩, w)) ∧
    (∃ w, (Config.save ⟨0, true⟩ "/nested/config.json").runOn { files := {} } = (.ok (), w) ∧
      (load "/nested/config.json").runOn w = (.error (.config .zeroCapacity), w)) ∧
    (∀ m ∈ [((some "note", .null) : Json.Member)], IsOther m) ∧
    notedMembers.Perm (given (some 64) none ++ [(some "note", .null)]) ∧
    Json.Spells (Json.object notedMembers).toTokens notedText.toList ∧
    notedWorld.files.read "config.json" = .ok (Utf8.encode notedText) ∧
    (load "config.json").runOn notedWorld = (.ok ⟨64, true⟩, notedWorld) := by
  obtain ⟨hsaved, hgiven, -⟩ := settings_survive_files
  obtain ⟨w, hw⟩ := (hsaved ⟨1024, false⟩ "/nested/config.json" { files := {} }).1.2 accepts_nested
  obtain ⟨w', hw'⟩ := (hsaved ⟨0, true⟩ "/nested/config.json" { files := {} }).1.2 accepts_nested
  have hothers : ∀ m ∈ [((some "note", .null) : Json.Member)], IsOther m := by
    simp [IsOther]
  have hperm : notedMembers.Perm (given (some 64) none ++ [(some "note", .null)]) :=
    .swap _ _ _
  have hplace : notedWorld.files.locate "config.json" =
      .ok (.file ["home", "config.json"] (Utf8.encode notedText) false) := rfl
  have hread := FileTree.read_of_file hplace
  have hloaded := hgiven (some 64) none _ _ _ _ _ hothers hperm spells_notedText hread
  exact ⟨⟨w, hw, ((hsaved _ _ _).2 w hw).2⟩, ⟨w', hw', ((hsaved _ _ _).2 w' hw').2⟩, hothers,
    hperm, spells_notedText, hread, hloaded⟩

end DigestFilter.Config
