import DigestFilter.Decimal.Literal

/-!
# Numbers in JSON

A number is read as a literal: digits without a leading zero, then perhaps a point with digits
behind it, then perhaps an exponent. A sign in front has been taken already.
-/

namespace DigestFilter.Json

def spanDigits (cs : List Char) : List Nat × List Char :=
  ((cs.takeWhile fun c => (Numeral.decimalDigit? c).isSome).filterMap Numeral.decimalDigit?,
    cs.dropWhile fun c => (Numeral.decimalDigit? c).isSome)

/-- The digits before the point: there is one, and the first of several is not zero. -/
def wholePart? (cs : List Char) : Option (Nat × List Char) :=
  match spanDigits cs with
  | ([], _) => none
  | (0 :: _ :: _, _) => none
  | (ds, rest) => some (Numeral.value 10 ds, rest)

def fractionPart? : List Char → Option (List Nat × List Char)
  | '.' :: cs =>
    match spanDigits cs with
    | ([], _) => none
    | (ds, rest) => some (ds, rest)
  | cs => some ([], cs)

def exponentDigits? (negative : Bool) (cs : List Char) : Option (Option Int × List Char) :=
  match spanDigits cs with
  | ([], _) => none
  | (ds, rest) =>
    let n : Int := Numeral.value 10 ds
    some (some (if negative then -n else n), rest)

def exponentPart? : List Char → Option (Option Int × List Char)
  | c :: cs =>
    if c = 'e' ∨ c = 'E' then
      match cs with
      | '-' :: rest => exponentDigits? true rest
      | '+' :: rest => exponentDigits? false rest
      | rest => exponentDigits? false rest
    else some (none, c :: cs)
  | [] => some (none, [])

def literal? (negative : Bool) (cs : List Char) : Option (Decimal.Literal × List Char) := do
  let (whole, cs) ← wholePart? cs
  let (fraction, cs) ← fractionPart? cs
  let (exponent, cs) ← exponentPart? cs
  return ({ negative, whole, fraction, exponent }, cs)

/-! ## How much is read -/

theorem length_spanDigits_le (cs : List Char) : (spanDigits cs).2.length ≤ cs.length :=
  (List.dropWhile_sublist _).length_le

theorem spanDigits_eq_nil_or_length_lt (cs : List Char) :
    (spanDigits cs).1 = [] ∨ (spanDigits cs).2.length < cs.length := by
  cases cs with
  | nil => exact .inl rfl
  | cons c rest =>
    cases h : Numeral.decimalDigit? c with
    | none => left; simp [spanDigits, h]
    | some d =>
      right
      simp only [spanDigits, h, List.dropWhile_cons, Option.isSome_some, if_true, List.length_cons]
      exact Nat.lt_succ_of_le (List.dropWhile_sublist _).length_le

theorem length_lt_of_wholePart? {cs rest : List Char} {n : Nat}
    (h : wholePart? cs = some (n, rest)) : rest.length < cs.length := by
  have := spanDigits_eq_nil_or_length_lt cs
  unfold wholePart? at h
  grind

theorem length_le_of_fractionPart? {cs rest : List Char} {ds : List Nat}
    (h : fractionPart? cs = some (ds, rest)) : rest.length ≤ cs.length := by
  unfold fractionPart? at h
  grind [length_spanDigits_le]

theorem length_le_of_exponentDigits? {negative : Bool} {cs rest : List Char} {e : Option Int}
    (h : exponentDigits? negative cs = some (e, rest)) : rest.length ≤ cs.length := by
  have := length_spanDigits_le cs
  unfold exponentDigits? at h
  grind

theorem length_le_of_exponentPart? {cs rest : List Char} {e : Option Int}
    (h : exponentPart? cs = some (e, rest)) : rest.length ≤ cs.length := by
  unfold exponentPart? at h
  split at h
  · split at h
    · split at h
      all_goals
        have := length_le_of_exponentDigits? h
        simp only [List.length_cons] at *
        omega
    · simp_all
  · simp_all

theorem length_lt_of_literal? {negative : Bool} {cs rest : List Char} {n : Decimal.Literal}
    (h : literal? negative cs = some (n, rest)) : rest.length < cs.length := by
  simp only [literal?, Option.bind_eq_bind, Option.bind_eq_some_iff, Prod.exists,
    Option.pure_def, Option.some.injEq, Prod.mk.injEq] at h
  obtain ⟨_, _, hw, _, _, hf, _, _, he, _, rfl⟩ := h
  have := length_lt_of_wholePart? hw
  have := length_le_of_fractionPart? hf
  have := length_le_of_exponentPart? he
  omega

end DigestFilter.Json
