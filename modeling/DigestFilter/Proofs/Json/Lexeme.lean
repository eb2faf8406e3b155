import DigestFilter.Json.Reader
import DigestFilter.Json.Writer
import DigestFilter.Proofs.Text.Numeral

/-!
# How tokens are written

A token can be written in several ways: a string with more or fewer escapes, an exponent with other
signs and zeros. `Token.Lexeme` gives them all, and a text is tokens with blanks between them
(`Spells`). The reader finds the tokens again. Only a number can go on in what stands behind it, so
no two numbers may be neighbours.
-/

namespace DigestFilter.Json

/-! ## Digits -/

def digitText (ds : List Nat) : List Char := ds.map Numeral.decimalDigit

/-- No digit is at the front. -/
def NoDigit (cs : List Char) : Prop := ∀ c ∈ cs.head?, Numeral.decimalDigit? c = none

theorem decimalDigit?_decimalDigit {d : Nat} (h : d < 10) :
    Numeral.decimalDigit? (Numeral.decimalDigit d) = some d := by
  revert d
  decide

theorem exists_digitText_eq_cons {ds : List Nat} (hne : ds ≠ []) (hds : ∀ d ∈ ds, d < 10) :
    ∃ c cs, digitText ds = c :: cs ∧ (Numeral.decimalDigit? c).isSome := by
  cases ds with
  | nil => contradiction
  | cons d ds =>
    refine ⟨_, _, rfl, ?_⟩
    rw [decimalDigit?_decimalDigit (hds d List.mem_cons_self)]
    rfl

theorem spanDigits_of_noDigit {rest : List Char} (h : NoDigit rest) :
    spanDigits rest = ([], rest) := by
  unfold spanDigits
  cases rest with
  | nil => rfl
  | cons c rest =>
    have hc : Numeral.decimalDigit? c = none := h c rfl
    simp [hc]

theorem spanDigits_digitText {ds : List Nat} {rest : List Char} (hds : ∀ d ∈ ds, d < 10)
    (h : NoDigit rest) : spanDigits (digitText ds ++ rest) = (ds, rest) := by
  induction ds with
  | nil => exact spanDigits_of_noDigit h
  | cons d ds ih =>
    rw [List.forall_mem_cons] at hds
    have hd := decimalDigit?_decimalDigit hds.1
    have htail := ih hds.2
    unfold spanDigits digitText at htail ⊢
    rw [Prod.mk.injEq] at htail
    simp [hd, htail]

/-! ## Numbers -/

def signText (negative : Bool) : List Char := if negative then ['-'] else []

def fractionText (ds : List Nat) : List Char := if ds = [] then [] else '.' :: digitText ds

/-- An exponent has either mark, may have a plus, and may start with zeros. -/
inductive ExponentForm : Option Int → List Char → Prop
  | absent : ExponentForm none []
  | unsigned {mark : Char} {ds : List Nat} : mark ∈ ['e', 'E'] → ds ≠ [] → (∀ d ∈ ds, d < 10) →
    ExponentForm (some (Numeral.value 10 ds)) (mark :: digitText ds)
  | signed {mark : Char} {ds : List Nat} (negative : Bool) : mark ∈ ['e', 'E'] → ds ≠ [] →
    (∀ d ∈ ds, d < 10) →
    ExponentForm (some (if negative then -(Numeral.value 10 ds : Int) else Numeral.value 10 ds))
      (mark :: (if negative then '-' else '+') :: digitText ds)

/-- The ways to write a number. Only its exponent leaves a choice. -/
inductive NumberForm : Decimal.Literal → List Char → Prop
  | intro {n : Decimal.Literal} {exponent : List Char} : (∀ d ∈ n.fraction, d < 10) →
    ExponentForm n.exponent exponent →
    NumberForm n (signText n.negative ++ (digitText (Numeral.digits 10 n.whole) ++
      (fractionText n.fraction ++ exponent)))

def EndsNumber (cs : List Char) : Prop :=
  ∀ c ∈ cs.head?, Numeral.decimalDigit? c = none ∧ c ∉ ['.', 'e', 'E']

theorem EndsNumber.noDigit {rest : List Char} (h : EndsNumber rest) : NoDigit rest :=
  fun c hc => (h c hc).1

theorem exponentDigits?_digitText {ds : List Nat} {rest : List Char} (negative : Bool)
    (hne : ds ≠ []) (hds : ∀ d ∈ ds, d < 10) (h : NoDigit rest) :
    exponentDigits? negative (digitText ds ++ rest) =
      some (some (if negative then -(Numeral.value 10 ds : Int) else Numeral.value 10 ds),
        rest) := by
  unfold exponentDigits?
  rw [spanDigits_digitText hds h]
  cases ds with
  | nil => contradiction
  | cons d ds => rfl

theorem exponentPart?_of_form {e : Option Int} {cs rest : List Char} (h : ExponentForm e cs)
    (hrest : EndsNumber rest) : exponentPart? (cs ++ rest) = some (e, rest) := by
  cases h with
  | absent =>
    cases rest with
    | nil => rfl
    | cons c rest =>
      have hc := (hrest c rfl).2
      simp only [List.mem_cons, List.not_mem_nil, or_false, not_or] at hc
      simp [exponentPart?, hc]
  | unsigned hmark hne hds =>
    have hdigits := exponentDigits?_digitText false hne hds hrest.noDigit
    obtain ⟨c, cs, hcons, hc⟩ := exists_digitText_eq_cons hne hds
    simp only [List.mem_cons, List.not_mem_nil, or_false] at hmark
    rw [List.cons_append, exponentPart?, if_pos hmark, hdigits]
    · rfl
    -- The first digit is not a sign.
    all_goals
      intro cs' heq
      rw [hcons, List.cons_append, List.cons.injEq] at heq
      rw [heq.1] at hc
      contradiction
  | signed negative hmark hne hds =>
    have hdigits := exponentDigits?_digitText negative hne hds hrest.noDigit
    simp only [List.mem_cons, List.not_mem_nil, or_false] at hmark
    unfold exponentPart?
    rw [List.cons_append]
    dsimp only
    rw [if_pos hmark]
    cases negative
    · exact hdigits
    · exact hdigits

theorem ExponentForm.head {e : Option Int} {cs rest : List Char} (h : ExponentForm e cs)
    (hrest : EndsNumber rest) :
    ∀ c ∈ (cs ++ rest).head?, Numeral.decimalDigit? c = none ∧ c ≠ '.' := by
  cases h with
  | absent =>
    intro c hc
    have := hrest c hc
    simp_all
  | unsigned hmark _ _ | signed _ hmark _ _ =>
    simp only [List.mem_cons, List.not_mem_nil, or_false] at hmark
    rcases hmark with rfl | rfl <;> simp [Numeral.decimalDigit?]

theorem fractionPart?_fractionText {ds : List Nat} {rest : List Char} (hds : ∀ d ∈ ds, d < 10)
    (hrest : ∀ c ∈ rest.head?, Numeral.decimalDigit? c = none ∧ c ≠ '.') :
    fractionPart? (fractionText ds ++ rest) = some (ds, rest) := by
  unfold fractionText
  split
  · next h =>
    subst h
    rw [List.nil_append]
    unfold fractionPart?
    split
    · exact absurd rfl (hrest _ rfl).2
    · rfl
  · next h =>
    rw [List.cons_append, fractionPart?, spanDigits_digitText hds fun c hc => (hrest c hc).1]
    cases ds with
    | nil => contradiction
    | cons d ds => rfl

theorem wholePart?_digits (n : Nat) {rest : List Char} (h : NoDigit rest) :
    wholePart? (digitText (Numeral.digits 10 n) ++ rest) = some (n, rest) := by
  have hvalue := Numeral.value_digits (by decide : 2 ≤ 10) n
  unfold wholePart?
  rw [spanDigits_digitText (Numeral.lt_of_mem_digits (by decide) n) h]
  split
  · next heq =>
    rw [Prod.mk.injEq] at heq
    exact absurd heq.1 (Numeral.digits_ne_nil 10 n)
  · next d ds _ heq =>
    -- Only zero starts with a zero, and it has no second digit.
    rw [Prod.mk.injEq] at heq
    by_cases hn : n = 0
    · rw [hn, Numeral.digits_zero] at heq
      simp at heq
    · have hhead := Numeral.head?_digits_ne_zero (by decide : 2 ≤ 10) hn
      rw [heq.1] at hhead
      contradiction
  · next heq =>
    rw [Prod.mk.injEq] at heq
    rw [← heq.1, ← heq.2, hvalue]

theorem literal?_of_form {n : Decimal.Literal} {exponent rest : List Char}
    (hfraction : ∀ d ∈ n.fraction, d < 10) (hexponent : ExponentForm n.exponent exponent)
    (hrest : EndsNumber rest) :
    literal? n.negative (digitText (Numeral.digits 10 n.whole) ++
      (fractionText n.fraction ++ (exponent ++ rest))) = some (n, rest) := by
  have hhead := hexponent.head hrest
  have hnodigit : NoDigit (fractionText n.fraction ++ (exponent ++ rest)) := by
    unfold fractionText
    split
    · exact fun c hc => (hhead c hc).1
    · intro c hc
      cases hc
      rfl
  simp only [literal?, wholePart?_digits n.whole hnodigit,
    fractionPart?_fractionText hfraction hhead, exponentPart?_of_form hexponent hrest,
    Option.bind_eq_bind, Option.bind_some, Option.pure_def]

namespace Token

theorem next?_of_digit {c : Char} {cs : List Char} (h : (Numeral.decimalDigit? c).isSome) :
    next? (c :: cs) = number? false (c :: cs) := by
  unfold next?
  dsimp only
  split
  case h_12 => rfl
  all_goals exact absurd h (by decide)

theorem next?_number {n : Decimal.Literal} {cs rest : List Char} (h : NumberForm n cs)
    (hrest : EndsNumber rest) : next? (cs ++ rest) = some (.number n, rest) := by
  obtain ⟨hfraction, hexponent⟩ := h
  have hliteral := literal?_of_form hfraction hexponent hrest
  simp only [List.append_assoc]
  cases hsign : n.negative with
  | true =>
    rw [hsign] at hliteral
    simp [signText, next?, number?, hliteral]
  | false =>
    rw [hsign] at hliteral
    obtain ⟨c, cs, hcons, hc⟩ := exists_digitText_eq_cons (Numeral.digits_ne_nil 10 n.whole)
      (Numeral.lt_of_mem_digits (by decide) n.whole)
    rw [hcons] at hliteral ⊢
    simp only [signText, Bool.false_eq_true, if_false, List.nil_append, List.cons_append]
      at hliteral ⊢
    rw [next?_of_digit hc, number?, hliteral]
    rfl

end Token

/-! ## Strings -/

/-- The ways to write a piece of a string: as it is, with a short escape, or in hexadecimal. -/
inductive PieceForm : Piece → List Char → Prop
  | plain {c : Char} : c ∉ ['\x22', '\\'] → 32 ≤ c.toNat → PieceForm (.char c) [c]
  | short {c e : Char} : shortEscape? c = some e → PieceForm (.char e) ['\\', c]
  | unit {a b c d : Char} {n : Nat} : hexUnit? a b c d = some n →
    PieceForm (.unit n) ['\\', 'u', a, b, c, d]

inductive PiecesForm : List Piece → List Char → Prop
  | nil : PiecesForm [] []
  | cons {p : Piece} {ps : List Piece} {cs cs' : List Char} : PieceForm p cs →
    PiecesForm ps cs' → PiecesForm (p :: ps) (cs ++ cs')

theorem stringPieces?_of_form {p : Piece} {cs : List Char} (before : List Piece)
    (rest : List Char) (h : PieceForm p cs) :
    stringPieces? before (cs ++ rest) = stringPieces? (p :: before) rest := by
  cases h with
  | @plain c hmark hlow =>
    simp only [List.mem_cons, List.not_mem_nil, or_false, not_or] at hmark
    have hplain : ¬ (c = '\\' ∨ c.toNat < 32) := not_or.2 ⟨hmark.2, Nat.not_lt.2 hlow⟩
    rw [List.singleton_append, stringPieces?, if_neg hmark.1, if_neg hplain]
    -- No escape starts with this character.
    all_goals simp [hmark.2]
  | @short c e hescape =>
    rw [List.cons_append, List.singleton_append, stringPieces?]
    · rw [hescape]
    -- The letter for hexadecimal is none of the short escapes.
    · rintro _ _ _ _ _ heq
      cases heq
      cases hescape
  | unit hunit => simp only [List.cons_append, List.nil_append, stringPieces?, hunit]

theorem stringPieces?_of_forms {ps : List Piece} {cs : List Char} (before : List Piece)
    (rest : List Char) (h : PiecesForm ps cs) :
    stringPieces? before (cs ++ '\x22' :: rest) = some (before.reverse ++ ps, rest) := by
  induction h generalizing before with
  | nil => simp [stringPieces?]
  | cons hp _ ih =>
    rw [List.append_assoc, stringPieces?_of_form before _ hp, ih]
    simp

/-! ## Tokens -/

namespace Token

def IsNumber : Token → Prop
  | .number _ => True
  | _ => False

inductive Lexeme : Token → List Char → Prop
  | openArray : Lexeme .openArray ['[']
  | closeArray : Lexeme .closeArray [']']
  | openObject : Lexeme .openObject ['\x7b']
  | closeObject : Lexeme .closeObject ['\x7d']
  | comma : Lexeme .comma [',']
  | colon : Lexeme .colon [':']
  | null : Lexeme .null "null".toList
  | bool (b : Bool) : Lexeme (.bool b) (boolText b)
  | number {n : Decimal.Literal} {cs : List Char} : NumberForm n cs → Lexeme (.number n) cs
  | string {ps : List Piece} {cs : List Char} : PiecesForm ps cs →
    Lexeme (.string ((textOfPieces? ps).map String.ofList)) ('\x22' :: (cs ++ ['\x22']))

variable {t : Token} {cs rest : List Char}

theorem next?_of_lexeme (h : t.Lexeme cs) (hrest : t.IsNumber → EndsNumber rest) :
    next? (cs ++ rest) = some (t, rest) := by
  cases h with
  | openArray | closeArray | openObject | closeObject | comma | colon => rfl
  | null => rfl
  | bool b => cases b <;> rfl
  | number hform => exact next?_number hform (hrest trivial)
  | string hforms =>
    have hpieces := stringPieces?_of_forms [] rest hforms
    rw [List.cons_append, List.append_assoc, List.singleton_append, next?, string?, hpieces]
    rfl

theorem isBlank_of_digit {c : Char} (h : (Numeral.decimalDigit? c).isSome) :
    isBlank c = false := by
  cases hblank : isBlank c with
  | false => rfl
  | true =>
    simp only [isBlank, Bool.or_eq_true, beq_iff_eq] at hblank
    rcases hblank with ((rfl | rfl) | rfl) | rfl <;> contradiction

theorem Lexeme.exists_cons (h : t.Lexeme cs) : ∃ c cs', cs = c :: cs' ∧ isBlank c = false ∧
    (¬ t.IsNumber → Numeral.decimalDigit? c = none ∧ c ∉ ['.', 'e', 'E']) := by
  cases h with
  | openArray | closeArray | openObject | closeObject | comma | colon | null | string =>
    exact ⟨_, _, rfl, rfl, fun _ => ⟨rfl, by decide⟩⟩
  | bool b =>
    cases b
    · exact ⟨_, _, rfl, rfl, fun _ => ⟨rfl, by decide⟩⟩
    · exact ⟨_, _, rfl, rfl, fun _ => ⟨rfl, by decide⟩⟩
  | @number n _ hform =>
    cases hform with
    | intro hfraction hexponent =>
      cases hsign : n.negative with
      | true => exact ⟨_, _, rfl, rfl, fun hnot => absurd trivial hnot⟩
      | false =>
        obtain ⟨c, cs, hcons, hc⟩ := exists_digitText_eq_cons (Numeral.digits_ne_nil 10 n.whole)
          (Numeral.lt_of_mem_digits (by decide) n.whole)
        rw [hcons]
        exact ⟨c, _, rfl, isBlank_of_digit hc, fun hnot => absurd trivial hnot⟩

end Token

/-! ## Texts -/

/-- The text is the tokens, with any blanks between and around them. -/
inductive Spells : List Token → List Char → Prop
  | nil {blanks : List Char} : (∀ c ∈ blanks, isBlank c) → Spells [] blanks
  | cons {blanks lexeme cs : List Char} {t : Token} {ts : List Token} :
    (∀ c ∈ blanks, isBlank c) → t.Lexeme lexeme → Spells ts cs →
    Spells (t :: ts) (blanks ++ (lexeme ++ cs))

/-- No two numbers are neighbours. -/
def Separated (ts : List Token) : Prop := ts.IsChain fun t u => ¬ (t.IsNumber ∧ u.IsNumber)

theorem Spells.blanks {ts : List Token} {blanks cs : List Char} (hblanks : ∀ c ∈ blanks, isBlank c)
    (h : Spells ts cs) : Spells ts (blanks ++ cs) := by
  have happend : ∀ {cs' : List Char}, (∀ c ∈ cs', isBlank c) → ∀ c ∈ blanks ++ cs', isBlank c :=
    fun hcs' => List.forall_mem_append.2 ⟨hblanks, hcs'⟩
  cases h with
  | nil hcs => exact .nil (happend hcs)
  | cons hcs hlexeme hspells =>
    rw [← List.append_assoc]
    exact .cons (happend hcs) hlexeme hspells

theorem Spells.append {ts us : List Token} {cs ds : List Char} (h : Spells ts cs)
    (h' : Spells us ds) : Spells (ts ++ us) (cs ++ ds) := by
  induction h with
  | nil hblanks => exact h'.blanks hblanks
  | cons hblanks hlexeme _ ih =>
    rw [List.append_assoc, List.append_assoc]
    exact .cons hblanks hlexeme ih

theorem spells_nil : Spells [] [] := .nil (by simp)

theorem Token.Lexeme.cons {t : Token} {ts : List Token} {lexeme cs : List Char}
    (h : t.Lexeme lexeme) (hcs : Spells ts cs) : Spells (t :: ts) (lexeme ++ cs) := by
  have hnil : ∀ c ∈ ([] : List Char), isBlank c := by simp
  exact .cons hnil h hcs

theorem Token.Lexeme.spells {t : Token} {cs : List Char} (h : t.Lexeme cs) : Spells [t] cs := by
  have hcons := h.cons spells_nil
  rwa [List.append_nil] at hcons

theorem skipBlanks_append {blanks : List Char} (h : ∀ c ∈ blanks, isBlank c) (cs : List Char) :
    skipBlanks (blanks ++ cs) = skipBlanks cs :=
  List.dropWhile_append_of_pos h

theorem EndsNumber.append {blanks cs : List Char} (h : ∀ c ∈ blanks, isBlank c)
    (hcs : EndsNumber cs) : EndsNumber (blanks ++ cs) := by
  cases blanks with
  | nil => exact hcs
  | cons c blanks =>
    have hc := h c List.mem_cons_self
    simp only [isBlank, Bool.or_eq_true, beq_iff_eq] at hc
    intro c' hc'
    cases hc'
    rcases hc with ((rfl | rfl) | rfl) | rfl <;> decide

theorem Spells.endsNumber {ts : List Token} {cs : List Char} (h : Spells ts cs)
    (hhead : ∀ t ∈ ts.head?, ¬ t.IsNumber) : EndsNumber cs := by
  cases h with
  | nil hblanks =>
    rw [← List.append_nil cs]
    exact EndsNumber.append hblanks fun c hc => nomatch hc
  | cons hblanks hlexeme _ =>
    obtain ⟨c, cs', rfl, -, hends⟩ := hlexeme.exists_cons
    refine EndsNumber.append hblanks ?_
    intro c' hc'
    cases hc'
    exact hends (hhead _ rfl)

theorem tokens?_of_spells {ts : List Token} {cs : List Char} (h : Spells ts cs)
    (hsep : Separated ts) : tokens? cs = some ts := by
  induction h with
  | @nil blanks hblanks =>
    have hskip : skipBlanks blanks = [] := by
      rw [← List.append_nil blanks, skipBlanks_append hblanks]
      rfl
    rw [tokens?, if_pos hskip]
  | @cons blanks lexeme cs t ts hblanks hlexeme hspells ih =>
    unfold Separated at hsep ih
    rw [List.isChain_cons] at hsep
    -- Only a number could go on, and what follows a number is none.
    have hends : t.IsNumber → EndsNumber cs := fun ht =>
      hspells.endsNumber fun u hu hnumber => hsep.1 u hu ⟨ht, hnumber⟩
    have hnext := Token.next?_of_lexeme hlexeme hends
    have hskip : skipBlanks (blanks ++ (lexeme ++ cs)) = lexeme ++ cs := by
      obtain ⟨c, cs', rfl, hblank, -⟩ := hlexeme.exists_cons
      rw [skipBlanks_append hblanks, List.cons_append, skipBlanks, List.dropWhile_cons, hblank]
      rfl
    rw [tokens?, hskip]
    split
    · next hnil =>
      rw [hnil] at hnext
      cases hnext
    · rw [hnext]
      dsimp only
      rw [ih hsep.2]
      rfl

end DigestFilter.Json
