/-!
# Little-endian numbers

`bytes w n` writes `n` in `w` bytes, the lowest first, and `value` reads them back. The two are
inverse on the numbers that fit: `value_bytes` and `bytes_value`.
-/

namespace DigestFilter.LittleEndian

/-- The lowest `w` bytes of `n`, the lowest first. -/
def bytes : Nat → Nat → List UInt8
  | 0, _ => []
  | w + 1, n => UInt8.ofNat n :: bytes w (n / 256)

def value : List UInt8 → Nat
  | [] => 0
  | b :: rest => b.toNat + 256 * value rest

/-- How many numbers `w` bytes can write. -/
def limit (w : Nat) : Nat := 1 <<< (8 * w)

theorem limit_succ (w : Nat) : limit (w + 1) = 256 * limit w := by
  simp only [limit, Nat.one_shiftLeft, Nat.mul_add, Nat.pow_add]
  omega

@[simp] theorem length_bytes (w n : Nat) : (bytes w n).length = w := by
  induction w generalizing n with
  | zero => rfl
  | succ w ih => simp [bytes, ih]

theorem value_lt (bs : List UInt8) : value bs < limit bs.length := by
  induction bs with
  | nil => simp [value, limit]
  | cons b rest ih =>
    have hb : b.toNat < 256 := b.toNat_lt
    simp only [value, List.length_cons, limit_succ]
    omega

theorem value_bytes (w n : Nat) : value (bytes w n) = n % limit w := by
  induction w generalizing n with
  | zero => simp [bytes, value, limit, Nat.mod_one]
  | succ w ih =>
    rw [bytes, value, ih, limit_succ, Nat.mod_mul]
    simp

theorem value_bytes_of_lt {w n : Nat} (h : n < limit w) : value (bytes w n) = n := by
  rw [value_bytes, Nat.mod_eq_of_lt h]

theorem bytes_value (bs : List UInt8) : bytes bs.length (value bs) = bs := by
  induction bs with
  | nil => rfl
  | cons b rest ih =>
    have hb : b.toNat < 256 := b.toNat_lt
    have hdiv : (b.toNat + 256 * value rest) / 256 = value rest := by omega
    have hbyte : UInt8.ofNat (b.toNat + 256 * value rest) = b := by
      apply UInt8.toNat_inj.mp
      simp
    simp only [List.length_cons, bytes, value, hdiv, hbyte, ih]

theorem bytes_mod (w n : Nat) : bytes w (n % limit w) = bytes w n := by
  have h := bytes_value (bytes w n)
  rwa [length_bytes, value_bytes] at h

/-! ## Numbers in parts -/

theorem value_append (as bs : List UInt8) :
    value (as ++ bs) = value as + limit as.length * value bs := by
  induction as with
  | nil => simp [value, limit]
  | cons a rest ih =>
    simp only [List.cons_append, value, ih, List.length_cons, limit_succ, Nat.mul_add,
      Nat.mul_assoc, Nat.add_assoc]

theorem value_append_zeros (bs : List UInt8) (n : Nat) :
    value (bs ++ List.replicate n 0) = value bs := by
  have hzero : value (List.replicate n 0) = 0 := by
    induction n with
    | zero => rfl
    | succ n ih => rw [List.replicate_succ, value, ih]; rfl
  rw [value_append, hzero, Nat.mul_zero, Nat.add_zero]

theorem bytes_add (v w n : Nat) : bytes (v + w) n = bytes v n ++ bytes w (n / limit v) := by
  induction v generalizing n with
  | zero => simp [bytes, limit]
  | succ v ih =>
    rw [Nat.succ_add, bytes, bytes, ih, limit_succ, Nat.div_div_eq_div_mul, List.cons_append]

end DigestFilter.LittleEndian
