import DigestFilter.Proofs.Json.Document

/-!
# Documents that are strings

A document is a string exactly when its only token is one, so it says a text in one of two ways: as
`compact` and `pretty` write it, or with other escapes and blanks around it.
-/

namespace DigestFilter.Json

/-- What has begun with a bracket or a brace will not be a string. -/
def Reading.Compound : Reading → Prop
  | .value stack => stack ≠ []
  | .done v stack => stack ≠ [] ∨ ∀ text, v ≠ .string text
  | _ => True

theorem Reading.Compound.step {r r' : Reading} {t : Token} (h : r.Compound)
    (hstep : r.step t = some r') : r'.Compound := by
  unfold Reading.step Reading.startValue at hstep
  grind [Reading.Compound]

theorem Reading.Compound.foldlM {r r' : Reading} {ts : List Token} (h : r.Compound)
    (hfold : ts.foldlM Reading.step r = some r') : r'.Compound := by
  induction ts generalizing r with
  | nil => simp_all
  | cons t ts ih =>
    rw [List.foldlM_cons] at hfold
    obtain ⟨s, hs, hfold⟩ := Option.bind_eq_some_iff.1 hfold
    exact ih (h.step hs) hfold

theorem Reading.startValue_nil {r : Reading} {t : Token} (h : startValue [] t = some r) :
    r.Compound ∨ ∃ text, t = .string text ∧ r = .done (.string text) [] := by
  unfold startValue at h
  grind [Compound]

theorem Reading.step_done_nil (v : Json) (t : Token) : step (.done v []) t = none := by
  cases t <;> rfl

theorem ofTokens?_eq_string_iff {ts : List Token} {text : Option String} :
    ofTokens? ts = some (.string text) ↔ ts = [.string text] := by
  constructor
  · intro h
    have hfold : ts.foldlM Reading.step (.value []) = some (.done (.string text) []) := by
      unfold ofTokens? at h
      split at h
      · next v hv => rw [hv, Option.some.inj h]
      · contradiction
    rcases ts with _ | ⟨t, ts⟩
    · simp at hfold
    rw [List.foldlM_cons] at hfold
    obtain ⟨r, hr, hrest⟩ := Option.bind_eq_some_iff.1 hfold
    rcases Reading.startValue_nil hr with hcompound | ⟨text', rfl, rfl⟩
    · rcases hcompound.foldlM hrest with hne | hne
      · exact absurd rfl hne
      · exact absurd rfl (hne text)
    · rcases ts with _ | ⟨t, ts⟩
      · simp_all
      · rw [List.foldlM_cons, Reading.step_done_nil] at hrest
        contradiction
  · rintro rfl
    rfl

theorem tokens?_eq_nil_iff {cs : List Char} : tokens? cs = some [] ↔ skipBlanks cs = [] := by
  rw [tokens?]
  split
  · simp_all
  · split <;> simp_all

theorem tokens?_eq_singleton_iff {cs : List Char} {t : Token} :
    tokens? cs = some [t] ↔
      ∃ rest, Token.next? (skipBlanks cs) = some (t, rest) ∧ skipBlanks rest = [] := by
  rw [tokens?]
  split
  · next h => simp [h, Token.next?]
  · split
    · next h => simp [h]
    · next u rest h =>
      simp only [h, Option.map_eq_some_iff, List.cons.injEq, ← tokens?_eq_nil_iff]
      grind

/-- A document is a string exactly when its first token is one and only blanks follow. -/
theorem parse?_eq_string_iff {document : String} {text : Option String} :
    parse? document = some (.string text) ↔
      ∃ rest, Token.next? (skipBlanks document.toList) = some (.string text, rest) ∧
        skipBlanks rest = [] := by
  rw [← tokens?_eq_singleton_iff, parse?, Option.bind_eq_some_iff]
  simp only [ofTokens?_eq_string_iff, exists_eq_right]

theorem parse?_compact_ofText (text : String) :
    parse? (ofText text).compact = some (ofText text) :=
  parse?_compact (plain_ofText text)

theorem parse?_pretty_ofText (text : String) :
    parse? (ofText text).pretty = some (ofText text) :=
  parse?_pretty (plain_ofText text)

end DigestFilter.Json
