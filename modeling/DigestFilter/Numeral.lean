/-!
# Positional numerals

A natural number as its list of digits in a base, the most significant first. `digits` is the
canonical numeral: it has no leading zero, and zero has the one digit 0. `value` reads any digits
back, and `value_digits` says that nothing is lost.
-/

namespace DigestFilter.Numeral

/-- What a one is worth in front of `k` digits. -/
def place (base k : Nat) : Nat := Nat.pow base k

def value (base : Nat) (ds : List Nat) : Nat := ds.foldl (fun n d => base * n + d) 0

/-- The number that digits write, if all of them are digits of the base. -/
def ofDigits? (base : Nat) (ds : List Nat) : Option Nat :=
  if ds.all (· < base) then some (value base ds) else none

/-- The lowest `1 <<< k` digits of `n`, then `rest`, by dividing at the place in the middle. -/
def lowDigits (base : Nat) : Nat → Nat → List Nat → List Nat
  | 0, n, rest => n % base :: rest
  | k + 1, n, rest =>
    let half := place base (1 <<< k)
    lowDigits base k (n / half) (lowDigits base k (n % half) rest)

/-- How many halvings leave room for all digits of a number. -/
def halvings (base n : Nat) : Nat := (n.log2 / base.log2 + 1).log2 + 1

def digits (base n : Nat) : List Nat :=
  match (lowDigits base (halvings base n) n []).dropWhile (· == 0) with
  | [] => [0]
  | ds => ds

/-! ## Values -/

theorem place_succ (base k : Nat) : place base (k + 1) = base * place base k := by
  rw [place, Nat.pow_eq, Nat.pow_succ, Nat.mul_comm]
  rfl

theorem place_add (base j k : Nat) : place base (j + k) = place base j * place base k :=
  Nat.pow_add base j k

theorem foldl_eq (base n : Nat) (ds : List Nat) :
    ds.foldl (fun n d => base * n + d) n = n * place base ds.length + value base ds := by
  induction ds generalizing n with
  | nil => simp [place, value]
  | cons d ds ih =>
    rw [value, List.foldl_cons, List.foldl_cons, ih, ih (base * 0 + d), List.length_cons,
      place_succ]
    grind

theorem value_append (base : Nat) (xs ys : List Nat) :
    value base (xs ++ ys) = value base xs * place base ys.length + value base ys := by
  rw [value, List.foldl_append, foldl_eq]
  rfl

theorem value_cons (base d : Nat) (ds : List Nat) :
    value base (d :: ds) = d * place base ds.length + value base ds := by
  rw [value, List.foldl_cons, foldl_eq, Nat.mul_zero, Nat.zero_add]

theorem value_dropWhile_zero (base : Nat) (ds : List Nat) :
    value base (ds.dropWhile (· == 0)) = value base ds := by
  induction ds with
  | nil => rfl
  | cons d ds ih =>
    rw [List.dropWhile_cons]
    split
    · next h => rw [ih, value_cons, eq_of_beq h, Nat.zero_mul, Nat.zero_add]
    · rfl

/-! ## Canonical numerals -/

theorem length_lowDigits (base k n : Nat) (rest : List Nat) :
    (lowDigits base k n rest).length = 1 <<< k + rest.length := by
  induction k generalizing n rest with
  | zero => simp [lowDigits, Nat.add_comm]
  | succ k ih =>
    rw [lowDigits, ih, ih]
    simp only [Nat.one_shiftLeft, Nat.pow_succ]
    omega

theorem value_lowDigits (base k n : Nat) (rest : List Nat) :
    value base (lowDigits base k n rest) =
      n % place base (1 <<< k) * place base rest.length + value base rest := by
  induction k generalizing n rest with
  | zero =>
    rw [lowDigits, value_cons]
    simp [place]
  | succ k ih =>
    have hwidth : 1 <<< (k + 1) = 1 <<< k + 1 <<< k := by
      simp only [Nat.one_shiftLeft, Nat.pow_succ]
      omega
    rw [lowDigits, ih, ih, length_lowDigits, hwidth, place_add, place_add, Nat.mod_mul,
      Nat.mod_mod]
    grind

theorem lt_place_halvings {base : Nat} (hb : 2 ≤ base) (n : Nat) :
    n < place base (1 <<< halvings base n) := by
  have hlog : 0 < base.log2 := (Nat.le_log2 (by omega)).2 hb
  have hself : 2 ^ base.log2 ≤ base := Nat.log2_self_le (by omega)
  rw [Nat.one_shiftLeft]
  calc n < 2 ^ (n.log2 + 1) := Nat.lt_log2_self
    _ ≤ 2 ^ (base.log2 * (n.log2 / base.log2 + 1)) :=
      Nat.pow_le_pow_right (by decide) (Nat.lt_mul_div_succ _ hlog)
    _ ≤ base ^ (n.log2 / base.log2 + 1) := by
      rw [Nat.pow_mul]
      exact Nat.pow_le_pow_left hself _
    _ ≤ base ^ (2 ^ halvings base n) :=
      Nat.pow_le_pow_right (by omega) (Nat.le_of_lt Nat.lt_log2_self)

theorem value_digits {base : Nat} (hb : 2 ≤ base) (n : Nat) : value base (digits base n) = n := by
  have h : value base ((lowDigits base (halvings base n) n []).dropWhile (· == 0)) = n := by
    rw [value_dropWhile_zero, value_lowDigits, Nat.mod_eq_of_lt (lt_place_halvings hb n)]
    simp [place, value]
  unfold digits
  split
  · next hnil =>
    rw [hnil] at h
    rw [← h]
    simp [value]
  · exact h

theorem digits_ne_nil (base n : Nat) : digits base n ≠ [] := by
  unfold digits
  split <;> simp_all

theorem length_digits_pos (base n : Nat) : 0 < (digits base n).length :=
  List.length_pos_iff.2 (digits_ne_nil base n)

theorem lt_of_mem_lowDigits {base : Nat} (hb : 2 ≤ base) (k n : Nat) (rest : List Nat)
    (hrest : ∀ d ∈ rest, d < base) : ∀ d ∈ lowDigits base k n rest, d < base := by
  induction k generalizing n rest with
  | zero =>
    intro d hd
    rcases List.mem_cons.1 hd with rfl | hd
    · exact Nat.mod_lt _ (by omega)
    · exact hrest d hd
  | succ k ih => exact ih _ _ (ih _ _ hrest)

theorem lt_of_mem_digits {base : Nat} (hb : 2 ≤ base) (n : Nat) :
    ∀ d ∈ digits base n, d < base := by
  intro d hd
  unfold digits at hd
  split at hd
  · rw [List.mem_singleton.1 hd]
    omega
  · exact lt_of_mem_lowDigits hb _ _ [] (by simp) d ((List.dropWhile_sublist _).subset hd)

theorem head?_dropWhile_zero (ds : List Nat) : (ds.dropWhile (· == 0)).head? ≠ some 0 := by
  have := List.head?_dropWhile_not (· == 0) ds
  intro h
  rw [h] at this
  simp at this

theorem head?_digits_ne_zero {base : Nat} (hb : 2 ≤ base) {n : Nat} (hn : n ≠ 0) :
    (digits base n).head? ≠ some 0 := by
  have hvalue := value_digits hb n
  unfold digits at hvalue ⊢
  split
  · next hnil =>
    rw [hnil] at hvalue
    simp [value] at hvalue
    omega
  · exact head?_dropWhile_zero _

/-! ## Decimal text -/

def decimalDigit (d : Nat) : Char := Char.ofNat (48 + d)

def text (base n : Nat) : String := String.ofList ((digits base n).map decimalDigit)

def decimalDigit? (c : Char) : Option Nat :=
  if 48 ≤ c.toNat ∧ c.toNat ≤ 57 then some (c.toNat - 48) else none

/-- The number that a run of decimal digits writes; leading zeros are allowed, signs are not. -/
def ofDecimal? (cs : List Char) : Option Nat :=
  if cs = [] then none else (cs.mapM decimalDigit?).map (value 10)

end DigestFilter.Numeral
