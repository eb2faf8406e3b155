import DigestFilter.Json.Number
import DigestFilter.Proofs.Json.Lexeme

/-!
# How documents are written

The tokens of a value are in the order of its parts. A text that spells them is read as the value,
and `compact` and `pretty` write such texts.
-/

namespace DigestFilter.Json

mutual

/-- The tokens of a value, in the order in which they are read and written. -/
def toTokens : Json → List Token
  | .null => [.null]
  | .bool b => [.bool b]
  | .number n => [.number n]
  | .string text => [.string text]
  | .array [] => [.openArray, .closeArray]
  | .array (v :: vs) => .openArray :: (toTokens v ++ (itemTokens vs ++ [.closeArray]))
  | .object [] => [.openObject, .closeObject]
  | .object ((name, v) :: ms) =>
    .openObject :: .string name :: .colon :: (toTokens v ++ (memberTokens ms ++ [.closeObject]))

def itemTokens : List Json → List Token
  | [] => []
  | v :: vs => .comma :: (toTokens v ++ itemTokens vs)

def memberTokens : List (Option String × Json) → List Token
  | [] => []
  | (name, v) :: ms => .comma :: .string name :: .colon :: (toTokens v ++ memberTokens ms)

end

/-! ## Numbers stand apart -/

/-- What can stand behind a number. -/
def Apart (ts : List Token) : Prop := Separated ts ∧ ∀ t ∈ ts.head?, ¬ t.IsNumber

theorem apart_nil : Apart [] := ⟨.nil, by simp⟩

theorem Apart.separated {ts : List Token} (h : Apart ts) (t : Token) : Separated (t :: ts) :=
  List.isChain_cons.2 ⟨fun u hu hnumbers => h.2 u hu hnumbers.2, h.1⟩

theorem Separated.apart {ts : List Token} (h : Separated ts) (t : Token) (ht : ¬ t.IsNumber) :
    Apart (t :: ts) := by
  refine ⟨List.isChain_cons.2 ⟨fun u _ hnumbers => ht hnumbers.1, h⟩, ?_⟩
  simpa using ht

theorem Separated.named {ts : List Token} (h : Separated ts) (name : Option String) :
    Separated (.string name :: .colon :: ts) :=
  (h.apart .colon not_false).separated (.string name)

mutual

theorem separated_toTokens (v : Json) {rest : List Token} (h : Apart rest) :
    Separated (v.toTokens ++ rest) := by
  match v with
  | .null | .bool _ | .number _ | .string _ => exact h.separated _
  | .array [] =>
    have hclose : Apart (.closeArray :: rest) := h.1.apart .closeArray not_false
    exact hclose.separated .openArray
  | .object [] =>
    have hclose : Apart (.closeObject :: rest) := h.1.apart .closeObject not_false
    exact hclose.separated .openObject
  | .array (v :: vs) =>
    rw [toTokens, List.cons_append, List.append_assoc, List.append_assoc]
    have hclose : Apart ([.closeArray] ++ rest) := h.1.apart .closeArray not_false
    have hv := separated_toTokens v (apart_itemTokens vs hclose)
    exact (hv.apart .openArray not_false).1
  | .object ((name, v) :: ms) =>
    rw [toTokens, List.cons_append, List.cons_append, List.cons_append, List.append_assoc,
      List.append_assoc]
    have hclose : Apart ([.closeObject] ++ rest) := h.1.apart .closeObject not_false
    have hv := separated_toTokens v (apart_memberTokens ms hclose)
    exact ((hv.named name).apart .openObject not_false).1

theorem apart_itemTokens (vs : List Json) {rest : List Token} (h : Apart rest) :
    Apart (itemTokens vs ++ rest) := by
  match vs with
  | [] => exact h
  | v :: vs =>
    rw [itemTokens, List.cons_append, List.append_assoc]
    exact (separated_toTokens v (apart_itemTokens vs h)).apart .comma not_false

theorem apart_memberTokens (ms : List Member) {rest : List Token} (h : Apart rest) :
    Apart (memberTokens ms ++ rest) := by
  match ms with
  | [] => exact h
  | (name, v) :: ms =>
    rw [memberTokens, List.cons_append, List.cons_append, List.cons_append, List.append_assoc]
    have hv := separated_toTokens v (apart_memberTokens ms h)
    exact (hv.named name).apart .comma not_false

end

/-! ## Reading back -/

namespace Reading

theorem foldlM_firstItem (v : Json) (stack : List Open) (ts : List Token) :
    (v.toTokens ++ ts).foldlM step (.firstItem stack) =
      (v.toTokens ++ ts).foldlM step (.value (.array [] :: stack)) := by
  match v with
  | .null | .bool _ | .number _ | .string _ => rfl
  | .array [] | .array (_ :: _) | .object [] | .object (_ :: _) => rfl

-- The items in front of the ones in `vs` have been read: `v` just now, the others are on the stack.
mutual

theorem foldlM_toTokens (v : Json) (stack : List Open) (ts : List Token) :
    (v.toTokens ++ ts).foldlM step (.value stack) = ts.foldlM step (.done v stack) := by
  match v with
  | .null | .bool _ | .number _ | .string _ | .array [] | .object [] => rfl
  | .array (v :: vs) =>
    have hitems := foldlM_itemTokens vs v [] stack ts
    rw [toTokens, List.cons_append, List.append_assoc, List.append_assoc]
    change (v.toTokens ++ _).foldlM step (.firstItem stack) = _
    rw [foldlM_firstItem, foldlM_toTokens v]
    exact hitems
  | .object ((key, v) :: ms) =>
    have hmembers := foldlM_memberTokens ms v [] key stack ts
    rw [toTokens, List.cons_append, List.cons_append, List.cons_append, List.append_assoc,
      List.append_assoc]
    change (v.toTokens ++ _).foldlM step (.value (.object [] key :: stack)) = _
    rw [foldlM_toTokens v]
    exact hmembers

theorem foldlM_itemTokens (vs : List Json) (v : Json) (before : List Json) (stack : List Open)
    (ts : List Token) :
    (itemTokens vs ++ .closeArray :: ts).foldlM step (.done v (.array before :: stack)) =
      ts.foldlM step (.done (.array (before.reverse ++ v :: vs)) stack) := by
  match vs with
  | [] =>
    change ts.foldlM step (.done (.array (v :: before).reverse) stack) = _
    rw [List.reverse_cons]
  | w :: vs =>
    have hitems := foldlM_itemTokens vs w (v :: before) stack ts
    rw [itemTokens, List.cons_append, List.append_assoc]
    change (w.toTokens ++ _).foldlM step (.value (.array (v :: before) :: stack)) = _
    rw [foldlM_toTokens w, hitems]
    simp

theorem foldlM_memberTokens (ms : List Member) (v : Json) (before : List Member)
    (key : Option String) (stack : List Open) (ts : List Token) :
    (memberTokens ms ++ .closeObject :: ts).foldlM step (.done v (.object before key :: stack)) =
      ts.foldlM step (.done (.object (before.reverse ++ (key, v) :: ms)) stack) := by
  match ms with
  | [] =>
    change ts.foldlM step (.done (.object ((key, v) :: before).reverse) stack) = _
    rw [List.reverse_cons]
  | (key', w) :: ms =>
    have hmembers := foldlM_memberTokens ms w ((key, v) :: before) key' stack ts
    rw [memberTokens, List.cons_append, List.cons_append, List.cons_append, List.append_assoc]
    change (w.toTokens ++ _).foldlM step (.value (.object ((key, v) :: before) key' :: stack)) = _
    rw [foldlM_toTokens w, hmembers]
    simp

end

end Reading

theorem parse?_of_spells {v : Json} {text : String} (h : Spells v.toTokens text.toList) :
    parse? text = some v := by
  have hsep := separated_toTokens v apart_nil
  have hfold := Reading.foldlM_toTokens v [] []
  rw [List.append_nil] at hsep hfold
  rw [parse?, tokens?_of_spells h hsep, Option.bind_some, ofTokens?, hfold]
  rfl

/-! ## Written tokens -/

/-- The characters with an escape of two characters. -/
def lettered : List Char := ['\x22', '\\', '\x08', '\x0c', '\n', '\r', '\t']

/-- What a written character is read as: a unit, if it was written in hexadecimal. -/
def pieceOf (c : Char) : Piece :=
  if c.toNat < 32 ∧ c ∉ lettered then .unit c.toNat else .char c

theorem hexUnit?_of_lt {n : Nat} (h : n < 32) :
    hexUnit? '0' '0' (Hex.digit (n / 16)) (Hex.digit (n % 16)) = some n := by
  revert n
  decide

theorem pieceForm_escapeChar (c : Char) : PieceForm (pieceOf c) (escapeChar c) := by
  by_cases hletter : c ∈ lettered
  · simp only [lettered, List.mem_cons, List.not_mem_nil, or_false] at hletter
    rcases hletter with rfl | rfl | rfl | rfl | rfl | rfl | rfl <;> exact .short rfl
  · have hne := hletter
    simp only [lettered, List.mem_cons, List.not_mem_nil, or_false, not_or] at hne
    obtain ⟨hquote, hslash, hb, hf, hn, hr, ht⟩ := hne
    by_cases hlow : c.toNat < 32
    · have hpiece : pieceOf c = .unit c.toNat := if_pos ⟨hlow, hletter⟩
      simp only [escapeChar, if_neg hquote, if_neg hslash, if_neg hb, if_neg hf, if_neg hn,
        if_neg hr, if_neg ht, if_pos hlow, hpiece]
      exact .unit (hexUnit?_of_lt hlow)
    · have hpiece : pieceOf c = .char c := if_neg fun h => hlow h.1
      simp only [escapeChar, if_neg hquote, if_neg hslash, if_neg hb, if_neg hf, if_neg hn,
        if_neg hr, if_neg ht, if_neg hlow, hpiece]
      exact .plain (by simp [hquote, hslash]) (Nat.not_lt.1 hlow)

theorem piecesForm_flatMap (cs : List Char) :
    PiecesForm (cs.map pieceOf) (cs.flatMap escapeChar) := by
  induction cs with
  | nil => exact .nil
  | cons c cs ih => exact .cons (pieceForm_escapeChar c) ih

theorem textOfPieces?_map (cs : List Char) : textOfPieces? (cs.map pieceOf) = some cs := by
  induction cs with
  | nil => rfl
  | cons c cs ih =>
    rw [List.map_cons]
    by_cases hunit : c.toNat < 32 ∧ c ∉ lettered
    · have hpiece : pieceOf c = .unit c.toNat := if_pos hunit
      have hlow : c.toNat < 0xD800 ∨ 0xE000 ≤ c.toNat := by omega
      rw [hpiece]
      unfold textOfPieces?
      rw [if_pos hlow, ih, Char.ofNat_toNat, Option.map_some]
    · have hpiece : pieceOf c = .char c := if_neg hunit
      simp only [hpiece, textOfPieces?, ih, Option.map_some]

theorem lexeme_quote (text : String) : (Token.string (some text)).Lexeme (quote (some text)) := by
  have hlexeme := Token.Lexeme.string (piecesForm_flatMap text.toList)
  rwa [textOfPieces?_map, Option.map_some, String.ofList_toList] at hlexeme

theorem toList_text (n : Nat) : (Numeral.text 10 n).toList = digitText (Numeral.digits 10 n) :=
  String.toList_ofList

theorem exponentForm_exponentText (e : Option Int) :
    ExponentForm e (Decimal.Literal.exponentText e) := by
  cases e with
  | none => exact .absent
  | some e =>
    have hform := ExponentForm.signed (decide (e < 0)) (by simp : 'e' ∈ ['e', 'E'])
      (Numeral.digits_ne_nil 10 e.natAbs) (Numeral.lt_of_mem_digits (by decide) e.natAbs)
    have hvalue : (if e < 0 then -(e.natAbs : Int) else e.natAbs) = e := by omega
    rw [Numeral.value_digits (by decide)] at hform
    simp only [decide_eq_true_eq, hvalue] at hform
    rwa [Decimal.Literal.exponentText, toList_text]

theorem lexeme_number {n : Decimal.Literal} (h : ∀ d ∈ n.fraction, d < 10) :
    (Token.number n).Lexeme n.text := by
  have hform := NumberForm.intro h (exponentForm_exponentText n.exponent)
  have htext : n.text = signText n.negative ++ (digitText (Numeral.digits 10 n.whole) ++
      (fractionText n.fraction ++ Decimal.Literal.exponentText n.exponent)) := by
    rw [Decimal.Literal.text, toList_text, List.append_assoc, List.append_assoc]
    rfl
  rw [htext]
  exact .number hform

/-! ## Written documents -/

/-- A token that the writer can write so that nothing is lost. -/
def Token.Plain : Token → Prop
  | .number n => ∀ d ∈ n.fraction, d < 10
  | .string text => text.isSome
  | _ => True

def Plain (v : Json) : Prop := ∀ t ∈ v.toTokens, t.Plain

theorem lexeme_of_isSome {text : Option String} (h : text.isSome) :
    (Token.string text).Lexeme (quote text) := by
  obtain ⟨text, rfl⟩ := Option.isSome_iff_exists.1 h
  exact lexeme_quote text

theorem spells_newline (depth : Nat) {ts : List Token} {cs : List Char} (h : Spells ts cs) :
    Spells ts (newline depth ++ cs) := by
  refine h.blanks ?_
  simp [newline, isBlank]

theorem spells_tight {name : Option String} (hname : name.isSome) {ts : List Token}
    {cs : List Char} (h : Spells ts cs) :
    Spells (.string name :: .colon :: ts) (quote name ++ ([':'] ++ cs)) :=
  (lexeme_of_isSome hname).cons (Token.Lexeme.colon.cons h)

theorem spells_spaced {name : Option String} (hname : name.isSome) {ts : List Token}
    {cs : List Char} (h : Spells ts cs) :
    Spells (.string name :: .colon :: ts) (quote name ++ ([':', ' '] ++ cs)) := by
  have hblanks : ∀ c ∈ [' '], isBlank c := by simp [isBlank]
  exact spells_tight hname (h.blanks hblanks)

mutual

theorem spells_prettyChars (v : Json) (depth : Nat) (h : ∀ t ∈ v.toTokens, t.Plain) :
    Spells v.toTokens (prettyChars depth v) := by
  match v with
  | .null => exact Token.Lexeme.null.spells
  | .bool b => exact (Token.Lexeme.bool b).spells
  | .number n => exact (lexeme_number (h _ List.mem_cons_self)).spells
  | .string text => exact (lexeme_of_isSome (h _ List.mem_cons_self)).spells
  | .array [] => exact Token.Lexeme.openArray.cons Token.Lexeme.closeArray.spells
  | .object [] => exact Token.Lexeme.openObject.cons Token.Lexeme.closeObject.spells
  | .array (v :: vs) =>
    simp only [toTokens, List.forall_mem_cons, List.forall_mem_append] at h
    have hv := spells_prettyChars v (depth + 1) h.2.1
    have hvs := spells_prettyItems vs (depth + 1) h.2.2.1
    have hclose := spells_newline depth Token.Lexeme.closeArray.spells
    have hitems := spells_newline (depth + 1) (hv.append (hvs.append hclose))
    simpa only [prettyChars, toTokens, List.append_assoc] using
      Token.Lexeme.openArray.cons hitems
  | .object ((name, v) :: ms) =>
    simp only [toTokens, List.forall_mem_cons, List.forall_mem_append] at h
    have hv := spells_prettyChars v (depth + 1) h.2.2.2.1
    have hms := spells_prettyMembers ms (depth + 1) h.2.2.2.2.1
    have hclose := spells_newline depth Token.Lexeme.closeObject.spells
    have hnamed := spells_spaced h.2.1 (hv.append (hms.append hclose))
    simpa only [prettyChars, toTokens, List.append_assoc] using
      Token.Lexeme.openObject.cons (spells_newline (depth + 1) hnamed)

theorem spells_prettyItems (vs : List Json) (depth : Nat) (h : ∀ t ∈ itemTokens vs, t.Plain) :
    Spells (itemTokens vs) (prettyItems depth vs) := by
  match vs with
  | [] => exact spells_nil
  | v :: vs =>
    simp only [itemTokens, List.forall_mem_cons, List.forall_mem_append] at h
    have hv := spells_prettyChars v depth h.2.1
    have hvs := spells_prettyItems vs depth h.2.2
    simpa only [prettyItems, itemTokens, List.append_assoc] using
      Token.Lexeme.comma.cons (spells_newline depth (hv.append hvs))

theorem spells_prettyMembers (ms : List Member) (depth : Nat)
    (h : ∀ t ∈ memberTokens ms, t.Plain) : Spells (memberTokens ms) (prettyMembers depth ms) := by
  match ms with
  | [] => exact spells_nil
  | (name, v) :: ms =>
    simp only [memberTokens, List.forall_mem_cons, List.forall_mem_append] at h
    have hv := spells_prettyChars v depth h.2.2.2.1
    have hms := spells_prettyMembers ms depth h.2.2.2.2
    have hnamed := spells_spaced h.2.1 (hv.append hms)
    simpa only [prettyMembers, memberTokens, List.append_assoc] using
      Token.Lexeme.comma.cons (spells_newline depth hnamed)

end

mutual

theorem spells_compactChars (v : Json) (h : ∀ t ∈ v.toTokens, t.Plain) :
    Spells v.toTokens (compactChars v) := by
  match v with
  | .null => exact Token.Lexeme.null.spells
  | .bool b => exact (Token.Lexeme.bool b).spells
  | .number n => exact (lexeme_number (h _ List.mem_cons_self)).spells
  | .string text => exact (lexeme_of_isSome (h _ List.mem_cons_self)).spells
  | .array [] => exact Token.Lexeme.openArray.cons Token.Lexeme.closeArray.spells
  | .object [] => exact Token.Lexeme.openObject.cons Token.Lexeme.closeObject.spells
  | .array (v :: vs) =>
    simp only [toTokens, List.forall_mem_cons, List.forall_mem_append] at h
    have hv := spells_compactChars v h.2.1
    have hvs := spells_compactItems vs h.2.2.1
    simpa only [compactChars, toTokens, List.append_assoc] using
      Token.Lexeme.openArray.cons (hv.append (hvs.append Token.Lexeme.closeArray.spells))
  | .object ((name, v) :: ms) =>
    simp only [toTokens, List.forall_mem_cons, List.forall_mem_append] at h
    have hv := spells_compactChars v h.2.2.2.1
    have hms := spells_compactMembers ms h.2.2.2.2.1
    have hnamed := spells_tight h.2.1 (hv.append (hms.append Token.Lexeme.closeObject.spells))
    simpa only [compactChars, toTokens, List.append_assoc] using
      Token.Lexeme.openObject.cons hnamed

theorem spells_compactItems (vs : List Json) (h : ∀ t ∈ itemTokens vs, t.Plain) :
    Spells (itemTokens vs) (compactItems vs) := by
  match vs with
  | [] => exact spells_nil
  | v :: vs =>
    simp only [itemTokens, List.forall_mem_cons, List.forall_mem_append] at h
    have hv := spells_compactChars v h.2.1
    have hvs := spells_compactItems vs h.2.2
    simpa only [compactItems, itemTokens, List.append_assoc] using
      Token.Lexeme.comma.cons (hv.append hvs)

theorem spells_compactMembers (ms : List Member) (h : ∀ t ∈ memberTokens ms, t.Plain) :
    Spells (memberTokens ms) (compactMembers ms) := by
  match ms with
  | [] => exact spells_nil
  | (name, v) :: ms =>
    simp only [memberTokens, List.forall_mem_cons, List.forall_mem_append] at h
    have hv := spells_compactChars v h.2.2.2.1
    have hms := spells_compactMembers ms h.2.2.2.2
    have hnamed := spells_tight h.2.1 (hv.append hms)
    simpa only [compactMembers, memberTokens, List.append_assoc] using
      Token.Lexeme.comma.cons hnamed

end

theorem parse?_pretty {v : Json} (h : v.Plain) : parse? v.pretty = some v := by
  refine parse?_of_spells ?_
  rw [pretty, String.toList_ofList]
  exact spells_prettyChars v 0 h

theorem parse?_compact {v : Json} (h : v.Plain) : parse? v.compact = some v := by
  refine parse?_of_spells ?_
  rw [compact, String.toList_ofList]
  exact spells_compactChars v h

/-! ## Documents that lose nothing -/

theorem plain_ofText (text : String) : (ofText text).Plain := List.forall_mem_singleton.2 rfl

theorem plain_bool (b : Bool) : (bool b).Plain := List.forall_mem_singleton.2 trivial

theorem plain_number {n : Decimal.Literal} (h : ∀ d ∈ n.fraction, d < 10) : (number n).Plain :=
  List.forall_mem_singleton.2 h

theorem plain_ofNat (n : Nat) : (ofNat n).Plain := plain_number (List.forall_mem_nil _)

theorem plain_itemTokens {vs : List Json} (h : ∀ v ∈ vs, v.Plain) :
    ∀ t ∈ itemTokens vs, t.Plain := by
  induction vs with
  | nil => exact List.forall_mem_nil _
  | cons v vs ih =>
    obtain ⟨hv, hvs⟩ := List.forall_mem_cons.1 h
    rw [itemTokens]
    exact List.forall_mem_cons.2 ⟨trivial, List.forall_mem_append.2 ⟨hv, ih hvs⟩⟩

theorem plain_memberTokens {ms : List Member} (h : ∀ m ∈ ms, m.1.isSome ∧ m.2.Plain) :
    ∀ t ∈ memberTokens ms, t.Plain := by
  induction ms with
  | nil => exact List.forall_mem_nil _
  | cons m ms ih =>
    obtain ⟨⟨hname, hv⟩, hms⟩ := List.forall_mem_cons.1 h
    simp only [memberTokens, List.forall_mem_cons, List.forall_mem_append]
    exact ⟨trivial, hname, trivial, hv, ih hms⟩

theorem plain_array {vs : List Json} (h : ∀ v ∈ vs, v.Plain) : (array vs).Plain := by
  unfold Plain
  cases vs with
  | nil => simp [toTokens, Token.Plain]
  | cons v vs =>
    obtain ⟨hv, hvs⟩ := List.forall_mem_cons.1 h
    simp only [toTokens, List.forall_mem_cons, List.forall_mem_append]
    exact ⟨trivial, hv, plain_itemTokens hvs, trivial, List.forall_mem_nil _⟩

theorem plain_array_map {α : Type} {f : α → Json} (h : ∀ x, (f x).Plain) (xs : List α) :
    (array (xs.map f)).Plain := by
  apply plain_array
  intro v hv
  obtain ⟨x, -, rfl⟩ := List.mem_map.1 hv
  exact h x

theorem plain_object {ms : List Member} (h : ∀ m ∈ ms, m.1.isSome ∧ m.2.Plain) :
    (object ms).Plain := by
  unfold Plain
  cases ms with
  | nil => simp [toTokens, Token.Plain]
  | cons m ms =>
    obtain ⟨⟨hname, hv⟩, hms⟩ := List.forall_mem_cons.1 h
    simp only [toTokens, List.forall_mem_cons, List.forall_mem_append]
    exact ⟨trivial, hname, trivial, hv, plain_memberTokens hms, trivial, List.forall_mem_nil _⟩

theorem record_of_sorted {ms : List (String × Json)} (h : ms.Pairwise fun a b => a.1 ≤ b.1) :
    record ms = .object (ms.map fun m => (some m.1, m.2)) := by
  rw [record, List.mergeSort_of_pairwise]
  simpa using h

theorem plain_record {ms : List (String × Json)} (h : ∀ m ∈ ms, m.2.Plain) :
    (record ms).Plain := by
  apply plain_object
  intro m hm
  obtain ⟨m', hm', rfl⟩ := List.mem_map.1 hm
  exact ⟨rfl, h m' (List.mem_mergeSort.1 hm')⟩

theorem lt_of_mem_shortest {tie : Decimal.Tie} {x : Decimal.Binary} {d : Nat}
    (h : d ∈ (Decimal.shortest tie x).digits) : d < 10 := by
  have hreversed := (List.dropWhile_sublist _).subset (List.mem_reverse.1 h)
  exact Numeral.lt_of_mem_digits (by decide) _ d (List.mem_reverse.1 hreversed)

theorem lt_of_mem_fraction {style : Decimal.Style} {x : Float} {d : Nat}
    (h : d ∈ (Decimal.Literal.ofDouble style x).fraction) : d < 10 := by
  have hzeros : ∀ k, d ∈ List.replicate k 0 → d < 10 := by
    intro k hd
    rw [List.eq_of_mem_replicate hd]
    decide
  unfold Decimal.Literal.ofDouble at h
  dsimp only at h
  split at h
  · exact hzeros 1 h
  split at h
  -- Without an exponent there may be zeros on either side of the digits.
  · split at h
    · exact hzeros 1 h
    rcases List.mem_append.1 h with h | h
    · exact hzeros _ h
    rcases List.mem_append.1 (List.mem_of_mem_drop h) with h | h
    · exact lt_of_mem_shortest h
    · exact hzeros _ h
  · exact lt_of_mem_shortest (List.mem_of_mem_tail h)

theorem plain_ofFloat (x : Float) : (ofFloat x).Plain := plain_number fun _ => lt_of_mem_fraction

end DigestFilter.Json
