import ManagedCode.Bytes
import Mathlib.Algebra.Group.Nat.Defs

/-!
# Little-endian words read back

* Reading back the lowest bytes of a word keeps them (`toNat_decodeLE_encodeLE`), and eight
  bytes hold the whole word (`decodeLE_encodeLE_eight`).
* A list of at most eight bytes is the layout of the word it reads as (`encodeLE_decodeLE`).
-/

namespace ManagedCode

theorem toNat_shiftRight_eight (w : UInt64) : (w >>> 8).toNat = w.toNat / 256 := by
  simp [UInt64.toNat_shiftRight, Nat.shiftRight_eq_div_pow]

theorem toNat_decodeLE_cons_of_lt (b : UInt8) (rest : List UInt8)
    (h : (decodeLE rest).toNat < 256 ^ 7) :
    (decodeLE (b :: rest)).toNat = b.toNat + 256 * (decodeLE rest).toNat := by
  have hb : b.toNat < 256 := UInt8.toNat_lt b
  simp only [decodeLE, UInt64.toNat_add, UInt64.toNat_mul, UInt8.toNat_toUInt64,
    UInt64.reduceToNat]
  have e : (256 : Nat) ^ 7 = 72057594037927936 := by decide
  omega

/-- A list of `n` bytes reads as a number below `256 ^ n`. -/
theorem toNat_decodeLE_lt (bytes : List UInt8) (h : bytes.length ≤ 8) :
    (decodeLE bytes).toNat < 256 ^ bytes.length := by
  induction bytes with
  | nil => simp [decodeLE]
  | cons b rest ih =>
    have bound := ih (by simp at h; omega)
    have short : rest.length ≤ 7 := Nat.le_of_succ_le_succ h
    have small : (decodeLE rest).toNat < 256 ^ 7 :=
      Nat.lt_of_lt_of_le bound (Nat.pow_le_pow_right (by decide) short)
    have hb : b.toNat < 256 := UInt8.toNat_lt b
    rw [toNat_decodeLE_cons_of_lt b rest small, List.length_cons, Nat.pow_succ]
    omega

/-- Reading back the lowest `n` bytes of a word gives the word modulo `256 ^ n`. -/
theorem toNat_decodeLE_encodeLE (n : Nat) (w : UInt64) (h : n ≤ 8) :
    (decodeLE (encodeLE n w)).toNat = w.toNat % 256 ^ n := by
  induction n generalizing w with
  | zero => simp [encodeLE, decodeLE, Nat.mod_one]
  | succ n ih =>
    have bound := toNat_decodeLE_lt (encodeLE n (w >>> 8)) (by simp; omega)
    rw [length_encodeLE] at bound
    have small : (decodeLE (encodeLE n (w >>> 8))).toNat < 256 ^ 7 :=
      Nat.lt_of_lt_of_le bound (Nat.pow_le_pow_right (by decide) (by omega))
    rw [encodeLE, toNat_decodeLE_cons_of_lt _ _ small, ih _ (by omega),
      toNat_shiftRight_eight, Nat.pow_succ, Nat.mul_comm (256 ^ n) 256, Nat.mod_mul]
    simp

/-- Eight bytes hold a whole word. -/
theorem decodeLE_encodeLE_eight (w : UInt64) : decodeLE (encodeLE 8 w) = w := by
  apply UInt64.toNat_inj.mp
  rw [toNat_decodeLE_encodeLE 8 w (by decide)]
  exact Nat.mod_eq_of_lt (UInt64.toNat_lt w)

/-- Four bytes hold a word of 32 bits. -/
theorem toUInt32_decodeLE_encodeLE (bits : UInt32) :
    (decodeLE (encodeLE 4 bits.toUInt64)).toUInt32 = bits := by
  apply UInt32.toNat_inj.mp
  have small := bits.toNat_lt
  rw [UInt64.toNat_toUInt32, toNat_decodeLE_encodeLE 4 _ (by decide), UInt32.toNat_toUInt64]
  omega

/-- A list of at most eight bytes is the layout of the word it reads as. -/
theorem encodeLE_decodeLE (bytes : List UInt8) (h : bytes.length ≤ 8) :
    encodeLE bytes.length (decodeLE bytes) = bytes := by
  induction bytes with
  | nil => rfl
  | cons b rest ih =>
    have short : rest.length ≤ 7 := Nat.le_of_succ_le_succ h
    have bound := toNat_decodeLE_lt rest (by omega)
    have small : (decodeLE rest).toNat < 256 ^ 7 :=
      Nat.lt_of_lt_of_le bound (Nat.pow_le_pow_right (by decide) short)
    have whole := toNat_decodeLE_cons_of_lt b rest small
    have hb : b.toNat < 256 := UInt8.toNat_lt b
    have low : (decodeLE (b :: rest)).toUInt8 = b := by
      apply UInt8.toNat_inj.mp
      rw [UInt64.toNat_toUInt8, whole]
      omega
    have high : decodeLE (b :: rest) >>> 8 = decodeLE rest := by
      apply UInt64.toNat_inj.mp
      rw [toNat_shiftRight_eight, whole]
      omega
    rw [List.length_cons, encodeLE, low, high, ih (by omega)]

end ManagedCode
