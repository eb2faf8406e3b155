import DigestFilter.Json.Token.Literal
import DigestFilter.Json.Token.Text

/-!
# JSON tokens

`Token.next?` takes the longest token off the front of a text, which makes the text shorter
(`length_lt_of_next?`). Blanks between tokens mean nothing, and tokens need no blank between them.
-/

namespace DigestFilter.Json

inductive Token where
  | openArray
  | closeArray
  | openObject
  | closeObject
  | comma
  | colon
  | null
  | bool (b : Bool)
  | number (n : Decimal.Literal)
  | string (text : Option String)
  deriving DecidableEq

def isBlank (c : Char) : Bool := c == ' ' || c == '\n' || c == '\t' || c == '\r'

def skipBlanks (cs : List Char) : List Char := cs.dropWhile isBlank

namespace Token

def word? (word : String) (token : Token) (cs : List Char) : Option (Token × List Char) :=
  if word.toList.isPrefixOf cs then some (token, cs.drop word.length) else none

def number? (negative : Bool) (cs : List Char) : Option (Token × List Char) := do
  let (n, rest) ← literal? negative cs
  return (.number n, rest)

def string? (cs : List Char) : Option (Token × List Char) := do
  let (pieces, rest) ← stringPieces? [] cs
  return (.string ((textOfPieces? pieces).map String.ofList), rest)

def next? : List Char → Option (Token × List Char)
  | [] => none
  | c :: cs =>
    match c with
    | '[' => some (.openArray, cs)
    | ']' => some (.closeArray, cs)
    | '\x7b' => some (.openObject, cs)
    | '\x7d' => some (.closeObject, cs)
    | ',' => some (.comma, cs)
    | ':' => some (.colon, cs)
    | 'n' => word? "ull" .null cs
    | 't' => word? "rue" (.bool true) cs
    | 'f' => word? "alse" (.bool false) cs
    | '\x22' => string? cs
    | '-' => number? true cs
    | _ => number? false (c :: cs)

/-! ## How much is read -/

theorem length_le_of_word? {word : String} {t u : Token} {cs rest : List Char}
    (h : word? word t cs = some (u, rest)) : rest.length ≤ cs.length := by
  unfold word? at h
  grind

theorem length_lt_of_number? {negative : Bool} {t : Token} {cs rest : List Char}
    (h : number? negative cs = some (t, rest)) : rest.length < cs.length := by
  simp only [number?, Option.bind_eq_bind, Option.bind_eq_some_iff, Prod.exists,
    Option.pure_def, Option.some.injEq, Prod.mk.injEq] at h
  obtain ⟨_, _, hn, _, rfl⟩ := h
  exact length_lt_of_literal? hn

theorem length_lt_of_string? {t : Token} {cs rest : List Char}
    (h : string? cs = some (t, rest)) : rest.length < cs.length := by
  simp only [string?, Option.bind_eq_bind, Option.bind_eq_some_iff, Prod.exists,
    Option.pure_def, Option.some.injEq, Prod.mk.injEq] at h
  obtain ⟨_, _, hs, _, rfl⟩ := h
  exact length_lt_of_stringPieces? hs

theorem length_lt_of_next? {cs rest : List Char} {t : Token} (h : next? cs = some (t, rest)) :
    rest.length < cs.length := by
  unfold next? at h
  split at h
  · simp at h
  · split at h
    case h_7 | h_8 | h_9 => exact Nat.lt_succ_of_le (length_le_of_word? h)
    case h_10 => exact Nat.lt_succ_of_lt (length_lt_of_string? h)
    case h_11 => exact Nat.lt_succ_of_lt (length_lt_of_number? h)
    case h_12 => exact length_lt_of_number? h
    all_goals simp_all

end Token

theorem length_skipBlanks_le (cs : List Char) : (skipBlanks cs).length ≤ cs.length :=
  (List.dropWhile_sublist _).length_le

def tokens? (cs : List Char) : Option (List Token) :=
  if skipBlanks cs = [] then some []
  else
    match _h : Token.next? (skipBlanks cs) with
    | none => none
    | some (t, rest) => (tokens? rest).map (t :: ·)
termination_by cs.length
decreasing_by exact Nat.lt_of_lt_of_le (Token.length_lt_of_next? _h) (length_skipBlanks_le cs)

end DigestFilter.Json
