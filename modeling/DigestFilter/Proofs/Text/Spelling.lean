import DigestFilter.Identifier.Json
import DigestFilter.Proofs.Json.Quote
import DigestFilter.Proofs.Text.Hex

/-!
# Spellings of an identifier

`toHex` writes one spelling of an identifier, and two readers accept others: `parse` any
hexadecimal text of at least four bytes, and `ofHex`, which reads JSON strings, any hexadecimal text
but the empty one. Both read the pairs of digits, so they agree on what both accept, and they differ
on the texts of two, four and six digits only.
-/

namespace DigestFilter.Identifier

open Hex (IsHex IsDigit)

variable {text : String} {x : Identifier}

/-! ## Sizes -/

theorem ne_empty_iff : text ≠ "" ↔ 0 < text.length := by
  rw [← String.length_toList, List.length_pos_iff, ne_eq, ne_eq, String.toList_eq_nil_iff]

theorem utf8ByteSize_of_isHex (h : IsHex text.toList) : text.utf8ByteSize = text.length := by
  rw [← Utf8.length_encode, Hex.length_encode_of_isHex h]

theorem two_mul_length_pairs (h : IsHex text.toList) :
    2 * (Hex.pairs text.toList).length = text.length := by
  have heven := h.1
  rw [Hex.length_pairs, ← String.length_toList]
  omega

/-! ## Reading a JSON string -/

theorem mapError_eq_ok_iff {r : Except Error Identifier} {f : Error → JsonFault} :
    r.mapError f = .ok x ↔ r = .ok x := by
  cases r <;> constructor <;> rintro ⟨⟩ <;> rfl

theorem ofHex_ne_ok (h : ¬ IsHex text.toList) : ofHex text ≠ .ok x := by
  unfold ofHex
  by_cases heven : text.utf8ByteSize % 2 = 0
  · obtain ⟨before, b, -, -, -, -, hdecode⟩ := Hex.decode_of_not_isHex h heven
    rw [hdecode]
    simp
  · have hodd : (Utf8.encode text).length % 2 = 1 := by
      rw [Utf8.length_encode]
      omega
    rw [Hex.decode, if_pos hodd]
    simp

theorem ofHex_eq_ok_iff : ofHex text = .ok x ↔
    text ≠ "" ∧ IsHex text.toList ∧ x.digest = Hex.pairs text.toList ∧ x.frozen = false := by
  by_cases h : IsHex text.toList
  · have hlen := two_mul_length_pairs h
    rw [ofHex, Hex.decode_of_isHex h, ne_empty_iff]
    simp only [mapError_eq_ok_iff, ofBytes_eq_ok_iff, h, true_and]
    constructor
    · rintro ⟨hx, hf⟩
      have hpos := x.size_pos
      rw [size, hx] at hpos
      exact ⟨by omega, hx, hf⟩
    · rintro ⟨-, hx⟩
      exact hx
  · simp [h, ofHex_ne_ok h]

theorem exists_ofHex_eq_ok_iff : (∃ x, ofHex text = .ok x) ↔ text ≠ "" ∧ IsHex text.toList := by
  simp only [ofHex_eq_ok_iff]
  constructor
  · rintro ⟨x, hne, hhex, -⟩
    exact ⟨hne, hhex⟩
  · rintro ⟨hne, hhex⟩
    have hlen := two_mul_length_pairs hhex
    rw [ne_empty_iff] at hne
    have hpairs : Hex.pairs text.toList ≠ [] := by
      rw [← List.length_pos_iff]
      omega
    exact ⟨⟨Hex.pairs text.toList, false, hpairs⟩, ne_empty_iff.2 hne, hhex, rfl, rfl⟩

theorem ofJson_of_parse? {document : String}
    (h : Json.parse? document = some (.ofText text)) : ofJson document = ofHex text := by
  obtain ⟨rest, hnext, hblank⟩ := Json.parse?_eq_string_iff.1 h
  unfold ofJson
  rw [hnext]
  simp only [hblank, if_true]
  cases ofHex text <;> rfl

theorem parse?_of_ofJson {document : String} (h : ofJson document = .ok x) :
    ∃ text, Json.parse? document = some (.ofText text) ∧ ofHex text = .ok x := by
  unfold ofJson at h
  split at h
  · next text rest hnext =>
    by_cases hblank : Json.skipBlanks rest = []
    · simp only [hblank, if_true] at h
      refine ⟨text, Json.parse?_eq_string_iff.2 ⟨rest, hnext, hblank⟩, ?_⟩
      rw [← h]
      cases ofHex text <;> rfl
    · simp only [hblank, if_false] at h
      cases hx : ofHex text <;> simp [hx, bind, Except.bind] at h
  · split at h <;> contradiction
  · contradiction

/-! ## Parsing -/

/-- When `parse` gives a fault for a text. -/
def Refuses (text : String) : FormatFault → Prop
  | .emptyIdentifier => text = ""
  | .oddIdentifier culprit => culprit = text ∧ text.utf8ByteSize % 2 = 1
  | .notHex (.foreign b position) culprit => culprit = text ∧ text.utf8ByteSize % 2 = 0 ∧
      (∃ c ∈ text.toList, ¬ IsDigit c) ∧
      ∃ before after, Utf8.encode text = before ++ b :: after ∧ before.length = position ∧
        (∀ a ∈ before, (Hex.digitValue? a).isSome) ∧ Hex.digitValue? b = none
  | .shortIdentifier size culprit => culprit = text ∧ IsHex text.toList ∧
      2 * size = text.length ∧ 0 < size ∧ size < 4
  | _ => False

theorem parse_of_isHex (hhex : IsHex text.toList) (hlong : 8 ≤ text.length) :
    parse text = ofBytes (Hex.pairs text.toList) := by
  have hne : text ≠ "" := ne_empty_iff.2 (by omega)
  have hlen := two_mul_length_pairs hhex
  have hsize := utf8ByteSize_of_isHex hhex
  have heven : ¬ text.utf8ByteSize % 2 ≠ 0 := by omega
  have hroom : ¬ (Hex.pairs text.toList).length < minParsedSize := by
    rw [minParsedSize]
    omega
  rw [parse, if_neg hne, if_neg heven, Hex.decode_of_isHex hhex]
  exact if_neg hroom

theorem parse_of_refused (h : ¬ (IsHex text.toList ∧ 8 ≤ text.length)) :
    ∃ fault, parse text = .error (.format fault) ∧ Refuses text fault := by
  unfold parse
  by_cases hempty : text = ""
  · rw [if_pos hempty]
    exact ⟨_, rfl, hempty⟩
  rw [if_neg hempty]
  by_cases hodd : text.utf8ByteSize % 2 ≠ 0
  · rw [if_pos hodd]
    exact ⟨_, rfl, rfl, by omega⟩
  rw [if_neg hodd]
  by_cases hhex : IsHex text.toList
  · have hlen := two_mul_length_pairs hhex
    have hpos := ne_empty_iff.1 hempty
    have hshort : text.length < 8 := Nat.lt_of_not_le fun hle => h ⟨hhex, hle⟩
    have hfew : (Hex.pairs text.toList).length < minParsedSize := by
      rw [minParsedSize]
      omega
    rw [Hex.decode_of_isHex hhex]
    exact ⟨_, if_pos hfew, rfl, hhex, hlen, by omega, hfew⟩
  · have heven : text.utf8ByteSize % 2 = 0 := by omega
    obtain ⟨before, b, after, hsplit, hbefore, hb, hdecode⟩ := Hex.decode_of_not_isHex hhex heven
    have hmem : b ∈ Utf8.encode text := by simp [hsplit]
    have hforeign := Hex.exists_not_isDigit hmem hb
    rw [hdecode]
    exact ⟨_, rfl, rfl, heven, hforeign, before, after, hsplit, rfl, hbefore, hb⟩

theorem parse_eq_ok_iff : parse text = .ok x ↔
    (IsHex text.toList ∧ 8 ≤ text.length) ∧ x.digest = Hex.pairs text.toList ∧
      x.frozen = false := by
  by_cases h : IsHex text.toList ∧ 8 ≤ text.length
  · rw [parse_of_isHex h.1 h.2, ofBytes_eq_ok_iff]
    simp only [h, and_self, true_and]
  · obtain ⟨fault, hparse, -⟩ := parse_of_refused h
    simp [hparse, h]

/-! ## Writing -/

theorem toList_toHex : x.toHex.toList = Hex.encode x.digest := String.toList_ofList

theorem length_toHex : x.toHex.length = 2 * x.size := by
  rw [← String.length_toList, toList_toHex, Hex.length_encode]
  rfl

theorem toHex_of_digest (hhex : IsHex text.toList) (hx : x.digest = Hex.pairs text.toList) :
    x.toHex = text.toLower := by
  have hlower : text.toLower.toList = text.toList.map Char.toLower := String.toList_map
  apply String.toList_inj.1
  rw [toList_toHex, hx, Hex.encode_pairs hhex, hlower]

theorem parse_toHex (h : 4 ≤ x.size) : parse x.toHex = .ok x.thawed := by
  rw [parse_eq_ok_iff, toList_toHex, length_toHex, Hex.pairs_encode]
  exact ⟨⟨Hex.isHex_encode _, by omega⟩, rfl, rfl⟩

theorem ofHex_toHex (x : Identifier) : ofHex x.toHex = .ok x.thawed := by
  have hpos := x.size_pos
  rw [ofHex_eq_ok_iff, ne_empty_iff, toList_toHex, length_toHex, Hex.pairs_encode]
  exact ⟨by omega, Hex.isHex_encode _, rfl, rfl⟩

theorem exists_parse_eq_ok (hhex : IsHex text.toList) (hlong : 8 ≤ text.length) :
    ∃ x, parse text = .ok x ∧ x.digest = Hex.pairs text.toList ∧ 2 * x.size = text.length ∧
      x.frozen = false ∧ x.toHex = text.toLower := by
  obtain ⟨x, hread⟩ := exists_ofHex_eq_ok_iff.2 ⟨ne_empty_iff.2 (by omega), hhex⟩
  obtain ⟨-, -, hx, hf⟩ := ofHex_eq_ok_iff.1 hread
  have hsize : 2 * x.size = text.length := by
    rw [size, hx]
    exact two_mul_length_pairs hhex
  exact ⟨x, parse_eq_ok_iff.2 ⟨⟨hhex, hlong⟩, hx, hf⟩, hx, hsize, hf, toHex_of_digest hhex hx⟩

/-! ## What each spelling says -/

theorem read_from_json_alone :
    ((∃ x, ofHex text = .ok x) ∧ ∀ x, parse text ≠ .ok x) ↔
      IsHex text.toList ∧ text.length ∈ [2, 4, 6] := by
  rw [exists_ofHex_eq_ok_iff, ne_empty_iff]
  constructor
  · rintro ⟨⟨hpos, hhex⟩, hparse⟩
    have heven : text.length % 2 = 0 := by
      rw [← String.length_toList]
      exact hhex.1
    have hshort : text.length < 8 := by
      apply Nat.lt_of_not_le
      intro hlong
      obtain ⟨x, hx, -⟩ := exists_parse_eq_ok hhex hlong
      exact hparse x hx
    refine ⟨hhex, ?_⟩
    simp only [List.mem_cons, List.not_mem_nil, or_false]
    omega
  · rintro ⟨hhex, hlen⟩
    simp only [List.mem_cons, List.not_mem_nil, or_false] at hlen
    refine ⟨⟨by omega, hhex⟩, ?_⟩
    intro x hx
    obtain ⟨⟨-, hlong⟩, -⟩ := parse_eq_ok_iff.1 hx
    omega

/-- Which texts `parse` and JSON read as identifiers, and what is written for them. -/
theorem spellings_of_identifiers :
    (∀ text : String, IsHex text.toList ∧ 8 ≤ text.length →
      ∃ x, parse text = .ok x ∧ x.digest = Hex.pairs text.toList ∧ 2 * x.size = text.length ∧
        x.frozen = false ∧ x.toHex = text.toLower) ∧
    (∀ text : String, ¬ (IsHex text.toList ∧ 8 ≤ text.length) →
      ∃ fault, parse text = .error (.format fault) ∧ Refuses text fault) ∧
    (∀ x : Identifier, 4 ≤ x.size → parse x.toHex = .ok x.thawed) ∧
    (∀ x : Identifier, ofHex x.toHex = .ok x.thawed ∧ ofJson x.toJson.compact = .ok x.thawed ∧
      ofJson x.toJson.pretty = .ok x.thawed) ∧
    (∀ (document : String) (x : Identifier), ofJson document = .ok x ↔
      ∃ text, Json.parse? document = some (.ofText text) ∧ ofHex text = .ok x) ∧
    (∀ text : String, ofJson (Json.ofText text).compact = ofHex text ∧
      ((∃ x, ofHex text = .ok x) ↔ text ≠ "" ∧ IsHex text.toList)) ∧
    (∀ (text : String) (x : Identifier), parse text = .ok x → ofHex text = .ok x) ∧
    (∀ text : String, ((∃ x, ofHex text = .ok x) ∧ ∀ x, parse text ≠ .ok x) ↔
      IsHex text.toList ∧ text.length ∈ [2, 4, 6]) := by
  refine ⟨?_, ?_, ?_, ?_, ?_, ?_, ?_, ?_⟩
  · rintro text ⟨hhex, hlong⟩
    exact exists_parse_eq_ok hhex hlong
  · intro text
    exact parse_of_refused
  · intro x
    exact parse_toHex
  · intro x
    have hcompact := ofJson_of_parse? (Json.parse?_compact_ofText x.toHex)
    have hpretty := ofJson_of_parse? (Json.parse?_pretty_ofText x.toHex)
    rw [ofHex_toHex] at hcompact hpretty
    exact ⟨ofHex_toHex x, hcompact, hpretty⟩
  · intro document x
    constructor
    · exact parse?_of_ofJson
    · rintro ⟨text, hparse, hx⟩
      rw [ofJson_of_parse? hparse, hx]
  · intro text
    exact ⟨ofJson_of_parse? (Json.parse?_compact_ofText text), exists_ofHex_eq_ok_iff⟩
  · intro text x h
    obtain ⟨⟨hhex, hlong⟩, hx⟩ := parse_eq_ok_iff.1 h
    exact ofHex_eq_ok_iff.2 ⟨ne_empty_iff.2 (by omega), hhex, hx⟩
  · intro text
    exact read_from_json_alone

theorem spellings_of_identifiers_assorted :
    (∃ x, parse "DeadBEEF" = .ok x ∧ ofHex "DeadBEEF" = .ok x ∧
      x.digest = [0xDE, 0xAD, 0xBE, 0xEF] ∧ x.toHex = "deadbeef") ∧
    parse (String.ofList ['0', '0', 'f', 'f', '0', '1', 'a', 'b']) =
      .ok ⟨[0x00, 0xFF, 0x01, 0xAB], false, by decide⟩ ∧
    ((∃ x, ofHex "aB" = .ok x) ∧ ∀ x, parse "aB" ≠ .ok x) ∧
    ∃ fault, parse "ééabcdef" = .error (.format fault) ∧ Refuses "ééabcdef" fault := by
  obtain ⟨hread, hrefused, hwritten, -, -, -, hagree, hjson⟩ := spellings_of_identifiers
  refine ⟨?_, ?_, ?_, ?_⟩
  · obtain ⟨x, hx, hdigest, -, -, hhex⟩ := hread "DeadBEEF" (by decide)
    refine ⟨x, hx, hagree _ _ hx, ?_, ?_⟩
    · rw [hdigest]
      decide
    · have hlower : "DeadBEEF".toLower.toList = "DeadBEEF".toList.map Char.toLower :=
        String.toList_map
      apply String.toList_inj.1
      rw [hhex, hlower]
      decide
  · exact hwritten ⟨[0x00, 0xFF, 0x01, 0xAB], true, by decide⟩ (by decide)
  · exact (hjson "aB").2 (by decide)
  · exact hrefused "ééabcdef" (by decide)

end DigestFilter.Identifier
