/-!
# Big-endian words

An unsigned number of a fixed width, most significant byte first.

**Main statements.** `ofBigEndian_bigEndian`: a number that fits the width is read back.
`bigEndian_ofBigEndian`: bytes are the word of the number that they spell. Together they say
that words of one width and numbers below `1 <<< (8 * width)` correspond.
-/

namespace Parley

/-- The low `width` bytes of `n`, most significant byte first. -/
def bigEndian : Nat → Nat → List UInt8
  | 0, _ => []
  | width + 1, n => UInt8.ofNat (n >>> (8 * width)) :: bigEndian width n

/-- The number that bytes spell, most significant byte first. -/
def ofBigEndian : List UInt8 → Nat
  | [] => 0
  | byte :: rest => byte.toNat <<< (8 * rest.length) + ofBigEndian rest

@[simp] theorem length_bigEndian (width n : Nat) : (bigEndian width n).length = width := by
  induction width with
  | zero => rfl
  | succ width ih => simp [bigEndian, ih]

theorem shiftLeft_succ_width (a width : Nat) :
    a <<< (8 * (width + 1)) = 256 * a <<< (8 * width) := by
  rw [Nat.mul_succ, Nat.shiftLeft_add, Nat.shiftLeft_eq _ 8, Nat.mul_comm]

theorem ofBigEndian_lt (bytes : List UInt8) :
    ofBigEndian bytes < 1 <<< (8 * bytes.length) := by
  induction bytes with
  | nil => decide
  | cons byte rest ih =>
    have hb : byte.toNat + 1 ≤ 256 := byte.toNat_lt
    have := Nat.mul_le_mul_right (1 <<< (8 * rest.length)) hb
    rw [List.length_cons, shiftLeft_succ_width, ofBigEndian]
    rw [Nat.add_mul, Nat.one_mul] at this
    have hs : byte.toNat <<< (8 * rest.length) = byte.toNat * 1 <<< (8 * rest.length) := by
      simp [Nat.shiftLeft_eq]
    omega

theorem ofBigEndian_bigEndian_mod (width n : Nat) :
    ofBigEndian (bigEndian width n) = n % 1 <<< (8 * width) := by
  induction width with
  | zero => simp [bigEndian, ofBigEndian, Nat.mod_one]
  | succ width ih =>
    have hb : (UInt8.ofNat (n >>> (8 * width))).toNat = n >>> (8 * width) % 256 := by simp
    rw [bigEndian, ofBigEndian, length_bigEndian, ih, hb, shiftLeft_succ_width, Nat.mul_comm 256,
      Nat.mod_mul, Nat.shiftRight_eq_div_pow, Nat.shiftLeft_eq, Nat.shiftLeft_eq, Nat.one_mul]
    rw [Nat.mul_comm, Nat.add_comm]

theorem ofBigEndian_bigEndian {width n : Nat} (h : n < 1 <<< (8 * width)) :
    ofBigEndian (bigEndian width n) = n := by
  rw [ofBigEndian_bigEndian_mod, Nat.mod_eq_of_lt h]

theorem bigEndian_add_shiftLeft (width k n : Nat) :
    bigEndian width (k <<< (8 * width) + n) = bigEndian width n := by
  induction width generalizing k with
  | zero => rfl
  | succ width ih =>
    have h : k <<< (8 * (width + 1)) = (k * 256) <<< (8 * width) := by
      rw [shiftLeft_succ_width, Nat.shiftLeft_eq, Nat.shiftLeft_eq, Nat.mul_comm k 256,
        Nat.mul_assoc]
    rw [h]
    simp only [bigEndian, ih]
    congr 1
    apply UInt8.toNat_inj.mp
    rw [Nat.shiftLeft_eq, Nat.shiftRight_eq_div_pow, Nat.add_comm,
      Nat.add_mul_div_right _ _ (Nat.two_pow_pos _), Nat.shiftRight_eq_div_pow]
    simp only [UInt8.toNat_ofNat']
    omega

theorem bigEndian_ofBigEndian (bytes : List UInt8) :
    bigEndian bytes.length (ofBigEndian bytes) = bytes := by
  induction bytes with
  | nil => rfl
  | cons byte rest ih =>
    simp only [List.length_cons, bigEndian, ofBigEndian, bigEndian_add_shiftLeft, ih]
    congr 1
    have hlt := ofBigEndian_lt rest
    rw [Nat.shiftLeft_eq, Nat.one_mul] at hlt
    rw [Nat.shiftLeft_eq, Nat.shiftRight_eq_div_pow, Nat.add_comm,
      Nat.add_mul_div_right _ _ (Nat.two_pow_pos _), Nat.div_eq_of_lt hlt, Nat.zero_add]
    exact UInt8.ofNat_toNat

end Parley
