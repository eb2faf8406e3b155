import DigestFilter.Files.Tree

/-!
# Writing one file

To write a file changes what stands at its own place. Paths are followed through directories, and a
file is never put where a directory is, so every path that led somewhere else leads there still. The
directories above a file can be made first, where no file is in their way.
-/

namespace DigestFilter

namespace Place

/-- Where a file is or can be put. -/
def spot? : Place → Option (Location × Bool)
  | .file l _ slash | .vacant l slash => some (l, slash)
  | .directory _ => none

def after (l : Location) (content : List UInt8) : Place → Place
  | .file l' content' slash => .file l' (if l' = l then content else content') slash
  | .vacant l' slash => if l' = l then .file l' content slash else .vacant l' slash
  | .directory l' => .directory l'

variable {l l' : Location} {slash : Bool} {place : Place} (content : List UInt8)

theorem after_of_spot (h : place.spot? = some (l, slash)) :
    place.after l content = .file l content slash := by
  cases place with
  | file l' content' slash' =>
    cases h
    simp [after]
  | vacant l' slash' =>
    cases h
    simp [after]
  | directory l' => cases h

theorem after_of_ne (h : place.spot? = some (l', slash)) (hne : l' ≠ l) :
    place.after l content = place := by
  cases place with
  | file l' content' slash' =>
    cases h
    simp [after, hne]
  | vacant l' slash' =>
    cases h
    simp [after, hne]
  | directory l' => cases h

end Place

namespace FileTree

variable {t : FileTree} {l here : Location} {n : Node} {names : List String} {place : Place}
  {slash : Bool} {path : String}

theorem node?_put (hl : l ≠ []) (l' : Location) :
    (t.put l n).node? l' = if l' = l then some n else t.node? l' := by
  by_cases hll : l' = l
  · subst hll
    simp [node?, put, hl]
  · have hfilter : (t.nodes.filter (·.1 != l)).find? (·.1 == l') = t.nodes.find? (·.1 == l') := by
      rw [List.find?_filter]
      congr 1
      funext node
      by_cases hnode : node.1 = l'
      · simp [hnode, hll]
      · simp [hnode]
    rw [if_neg hll]
    simp [node?, put, Ne.symm hll, hfilter]

/-! ## Following paths -/

theorem node?_of_follow (h : t.follow here names = .ok place)
    (hspot : place.spot? = some (l, slash)) : l ≠ [] ∧ t.node? l ≠ some .directory := by
  fun_induction follow t here names with
  | case1 here =>
    cases h
    cases hspot
  | case2 here name rest hdot ih => exact ih h
  | case3 here rest hdot ih => exact ih h
  | case4 here name rest hdot hup hnode ih => exact ih h
  | case5 here name rest hdot hup content hnode hrest =>
    cases h
    cases hspot
    exact ⟨by simp, by simp [hnode]⟩
  | case6 here name rest hdot hup content hnode hrest => cases h
  | case7 here name rest hdot hup hnode hrest =>
    cases h
    cases hspot
    exact ⟨by simp, by simp [hnode]⟩
  | case8 here name rest hdot hup hnode hrest => cases h

/-- Every path leads on as before, only what it finds at the written place is the file. -/
theorem follow_put (hl : l ≠ []) (hdir : t.node? l ≠ some .directory)
    (h : t.follow here names = .ok place) (content : List UInt8) :
    (t.put l (.file content)).follow here names = .ok (place.after l content) := by
  fun_induction follow t here names with
  | case1 here =>
    cases h
    rfl
  | case2 here name rest hdot ih =>
    rw [follow, if_pos hdot]
    exact ih h
  | case3 here rest hdot ih =>
    rw [follow, if_neg hdot, if_pos rfl]
    exact ih h
  | case4 here name rest hdot hup hnode ih =>
    -- A directory on the way is not where the file is put.
    have hne : here ++ [name] ≠ l := by
      intro he
      rw [he] at hnode
      exact hdir hnode
    rw [follow, if_neg hdot, if_neg hup, node?_put hl, if_neg hne, hnode]
    exact ih h
  | case5 here name rest hdot hup content' hnode hrest =>
    cases h
    rw [follow, if_neg hdot, if_neg hup, node?_put hl, hnode]
    by_cases hhere : here ++ [name] = l
    · simp [hhere, hrest, Place.after]
    · simp [hhere, hrest, Place.after]
  | case6 here name rest hdot hup content' hnode hrest => cases h
  | case7 here name rest hdot hup hnode hrest =>
    cases h
    rw [follow, if_neg hdot, if_neg hup, node?_put hl, hnode]
    by_cases hhere : here ++ [name] = l
    · simp [hhere, hrest, Place.after]
    · simp [hhere, hrest, Place.after]
  | case8 here name rest hdot hup hnode hrest => cases h

theorem locate_put {path' : String} {place' : Place} (h : t.locate path = .ok place)
    (hspot : place.spot? = some (l, slash)) (h' : t.locate path' = .ok place')
    (content : List UInt8) :
    (t.put l (.file content)).locate path' = .ok (place'.after l content) := by
  obtain ⟨hl, hdir⟩ := node?_of_follow h hspot
  exact follow_put hl hdir h' content

/-! ## Reading and writing -/

variable {content : List UInt8}

theorem read_of_file (h : t.locate path = .ok (.file l content false)) :
    t.read path = .ok content := by
  simp only [read, h]
  rfl

theorem isPresent_of_read (h : t.read path = .ok content) : t.isPresent path = true := by
  unfold read at h
  unfold isPresent
  cases hplace : t.locate path with
  | error fault =>
    rw [hplace] at h
    cases h
  | ok place =>
    rw [hplace] at h
    match place, h with
    | .file _ _ false, _ => rfl

theorem read_of_vacant (h : t.locate path = .ok (.vacant l slash)) :
    t.read path = .error .notFound := by
  simp only [read, h]
  rfl

theorem write_of_spot (h : t.locate path = .ok place) (hspot : place.spot? = some (l, false)) :
    t.write path content = .ok (t.put l (.file content)) := by
  simp only [write, h]
  cases place with
  | file l' content' slash =>
    cases hspot
    rfl
  | vacant l' slash =>
    cases hspot
    rfl
  | directory l' => cases hspot

/-- A file that was written stands where the path led, and nothing else has changed. -/
theorem of_write_eq_ok {t' : FileTree} (h : t.write path content = .ok t') :
    ∃ place l, t.locate path = .ok place ∧ place.spot? = some (l, false) ∧
      t'.node? l = some (.file content) ∧ ∀ l', l' ≠ l → t'.node? l' = t.node? l' := by
  cases hplace : t.locate path with
  | error fault =>
    simp only [write, hplace] at h
    cases h
  | ok place =>
    obtain ⟨l, hspot⟩ : ∃ l, place.spot? = some (l, false) := by
      simp only [write, hplace] at h
      match place, h with
      | .file l _ false, _ => exact ⟨l, rfl⟩
      | .vacant l false, _ => exact ⟨l, rfl⟩
    rw [write_of_spot hplace hspot] at h
    cases h
    obtain ⟨hl, -⟩ := node?_of_follow hplace hspot
    refine ⟨place, l, rfl, hspot, ?_, ?_⟩
    · rw [node?_put hl, if_pos rfl]
    · intro l' hne
      rw [node?_put hl, if_neg hne]

/-! ## Making directories -/

/-- The name leads down, to what has this name. -/
def IsPlain (name : String) : Prop := name ≠ "" ∧ name ≠ "." ∧ name ≠ ".."

/-- A file can be put where the path leads, once the directories above it are made. -/
def Accepts (t : FileTree) (path : String) : Prop :=
  ∃ t' place l, t.makeParents path = .ok t' ∧ t'.locate path = .ok place ∧
    place.spot? = some (l, false)

theorem follow_cons {name : String} (hplain : IsPlain name)
    (hdir : t.node? (here ++ [name]) = some .directory) (rest : List String) :
    t.follow here (name :: rest) = t.follow (here ++ [name]) rest := by
  rw [follow, if_neg (not_or.2 ⟨hplain.1, hplain.2.1⟩), if_neg hplain.2.2, hdir]

theorem exists_makeDirectories_cons {name : String} (hplain : IsPlain name)
    (hfree : ∀ content, t.node? (here ++ [name]) ≠ some (.file content)) :
    ∃ t' : FileTree, (∀ rest, t.makeDirectories here (name :: rest) =
        t'.makeDirectories (here ++ [name]) rest) ∧
      t'.node? (here ++ [name]) = some .directory ∧
      ∀ l, l ≠ here ++ [name] → t'.node? l = t.node? l := by
  have hskip : ¬ (name = "" ∨ name = ".") := not_or.2 ⟨hplain.1, hplain.2.1⟩
  cases hnode : t.node? (here ++ [name]) with
  | none =>
    have hne : here ++ [name] ≠ [] := by simp
    refine ⟨t.put (here ++ [name]) .directory, ?_, ?_, ?_⟩
    · intro rest
      rw [makeDirectories, if_neg hskip, if_neg hplain.2.2, hnode]
    · rw [node?_put hne, if_pos rfl]
    · intro l hl
      rw [node?_put hne, if_neg hl]
  | some n =>
    cases n with
    | file content => exact absurd hnode (hfree content)
    | directory =>
      refine ⟨t, ?_, hnode, fun l _ => rfl⟩
      intro rest
      rw [makeDirectories, if_neg hskip, if_neg hplain.2.2, hnode]

/-- Directories are made down to the last name where no file is in the way. -/
theorem exists_makeDirectories (here : Location) (hplain : ∀ name ∈ names, IsPlain name)
    (hfree : ∀ l content, l <+: names → l ≠ [] → t.node? (here ++ l) ≠ some (.file content)) :
    ∃ t', t.makeDirectories here names = .ok t' ∧
      (∀ rest, t'.follow here (names ++ rest) = t'.follow (here ++ names) rest) ∧
      (∀ l, t.node? l = some .directory → t'.node? l = some .directory) ∧
      ∀ l, ¬ l <+: here ++ names → t'.node? l = t.node? l := by
  induction names generalizing t here with
  | nil =>
    rw [List.append_nil]
    exact ⟨t, rfl, fun _ => rfl, fun _ h => h, fun _ _ => rfl⟩
  | cons name names ih =>
    rw [List.forall_mem_cons] at hplain
    have hname : ∀ content, t.node? (here ++ [name]) ≠ some (.file content) :=
      fun content => hfree [name] content (by simp) (by simp)
    obtain ⟨t₁, hstep, hdir, hsame⟩ := exists_makeDirectories_cons hplain.1 hname
    -- A new directory puts no file in the way of the names behind it.
    have hfree₁ : ∀ l content, l <+: names → l ≠ [] →
        t₁.node? (here ++ [name] ++ l) ≠ some (.file content) := by
      intro l content hl hne
      rw [hsame _ (by simpa using hne), List.append_assoc]
      exact hfree (name :: l) content (by simpa using hl) (by simp)
    obtain ⟨t', hmake, hfollow, hkept, hunder⟩ := ih (here ++ [name]) hplain.2 hfree₁
    have hassoc : here ++ [name] ++ names = here ++ name :: names := List.append_cons .. |>.symm
    rw [hassoc] at hfollow hunder
    refine ⟨t', (hstep names).trans hmake, ?_, ?_, ?_⟩
    · intro rest
      rw [List.cons_append, follow_cons hplain.1 (hkept _ hdir), hfollow]
    · intro l hl
      apply hkept
      by_cases heq : l = here ++ [name]
      · rw [heq, hdir]
      · rw [hsame l heq, hl]
    · intro l hl
      rw [hunder l hl]
      apply hsame
      rintro rfl
      exact hl ⟨names, hassoc⟩

theorem workingDirectory_makeDirectories {t' : FileTree}
    (h : t.makeDirectories here names = .ok t') : t'.workingDirectory = t.workingDirectory := by
  fun_induction makeDirectories t here names with
  | case1 t here =>
    cases h
    rfl
  | case2 t here name rest hdot ih => exact ih h
  | case3 t here rest hdot ih => exact ih h
  | case4 t here name rest hdot hup hnode ih => exact ih h
  | case5 t here name rest hdot hup content hnode => cases h
  | case6 t here name rest hdot hup hnode ih => exact ih h

theorem follow_empty {start : List String} (hstart : ∀ name ∈ start, name = "")
    (names : List String) : t.follow here (start ++ names) = t.follow here names := by
  induction start with
  | nil => rfl
  | cons name start ih =>
    obtain ⟨hname, hrest⟩ := List.forall_mem_cons.1 hstart
    rw [List.cons_append, follow, if_pos (.inl hname), ih hrest]

/-- A route of plain names accepts a file where no file or directory is in the way. -/
theorem accepts_of_plain {start parents : List String} {name : String}
    (hroute : t.route path = start ++ (parents ++ [name])) (hstart : ∀ name' ∈ start, name' = "")
    (hplain : ∀ name' ∈ parents ++ [name], IsPlain name')
    (hfree : ∀ l content, l <+: parents → l ≠ [] → t.node? l ≠ some (.file content))
    (hdir : t.node? (parents ++ [name]) ≠ some .directory) : t.Accepts path := by
  have hkeep : (t.route path).filter (fun n => n != "" && n != ".") = parents ++ [name] := by
    have hnone : start.filter (fun n => n != "" && n != ".") = [] := by
      rw [List.filter_eq_nil_iff]
      intro n hn
      simp [hstart n hn]
    rw [hroute, List.filter_append, hnone, List.nil_append, List.filter_eq_self]
    intro n hn
    simp [(hplain n hn).1, (hplain n hn).2.1]
  rw [List.forall_mem_append, List.forall_mem_singleton] at hplain
  obtain ⟨hparents, hempty, hdot, hup⟩ := hplain
  obtain ⟨t', hmake, hfollow, -, hunder⟩ := exists_makeDirectories [] hparents hfree
  have hnode : t'.node? (parents ++ [name]) = t.node? (parents ++ [name]) := by
    apply hunder
    intro hprefix
    exact absurd hprefix.length_le (by simp)
  have hsame : t'.route path = t.route path := by
    rw [route, route, workingDirectory_makeDirectories hmake]
  have hlocate : t'.locate path = t'.follow parents [name] := by
    rw [locate, hsame, hroute, follow_empty hstart, hfollow, List.nil_append]
  rw [follow, if_neg (not_or.2 ⟨hempty, hdot⟩), if_neg hup, hnode] at hlocate
  have hmakeParents : t.makeParents path = .ok t' := by
    rw [makeParents, hkeep, List.dropLast_concat, hmake]
  cases hlast : t.node? (parents ++ [name]) with
  | none =>
    rw [hlast] at hlocate
    exact ⟨t', _, _, hmakeParents, hlocate, rfl⟩
  | some n =>
    cases n with
    | directory => exact absurd hlast hdir
    | file content =>
      rw [hlast] at hlocate
      exact ⟨t', _, _, hmakeParents, hlocate, rfl⟩

end FileTree

end DigestFilter
