/-
  Hippos.Lib.FieldMask — fields of consecutive bits, as quotients and remainders.

  A literal such as `0xfffff000` is `2 ^ k * (2 ^ m - 1)`: and-ing with it keeps the `m` bits from
  bit `k` on.  One lemma on natural numbers turns every such mask into a quotient and a remainder,
  which is what `omega` can work with.  The halves of a word, and the word joined from them, are
  treated the same way, for the widths 16 and 32.

  Main results:
    * `and_field` — a mask as a quotient and a remainder.
    * `join_bytes_toNat`, `join_halves_toNat` — a word joined from its halves, as a sum.
-/
import Mathlib.Tactic.Common
import Mathlib.Algebra.GroupWithZero.Nat

namespace Hippos.Lib

/-! ## §1. Masks. -/

/-- Bit `i` of the field `k .. k + m`. -/
theorem testBit_field (k m i : ℕ) :
    (2 ^ k * (2 ^ m - 1)).testBit i = (decide (k ≤ i) && decide (i < k + m)) := by
  rw [Nat.mul_comm, Nat.testBit_mul_two_pow, Nat.testBit_two_pow_sub_one]
  -- the field is a row of `m` ones, moved up by `k`
  by_cases h : k ≤ i
  · have hshift : i - k < m ↔ i < k + m := by omega
    simp only [h, hshift, decide_true, Bool.true_and]
  · simp only [h, decide_false, Bool.false_and]

/-- **And-ing with a field keeps its bits in place.**  Compared bit by bit: the quotient and the
    product take the bits below the field away, the remainder those above. -/
theorem and_field (n k m : ℕ) : n &&& (2 ^ k * (2 ^ m - 1)) = 2 ^ k * (n / 2 ^ k % 2 ^ m) := by
  apply Nat.eq_of_testBit_eq
  intro i
  rw [Nat.testBit_and, testBit_field, Nat.mul_comm, Nat.testBit_mul_two_pow,
      Nat.testBit_mod_two_pow, Nat.testBit_div_two_pow]
  by_cases h : k ≤ i
  · -- inside or above the field
    have hshift : i - k < m ↔ i < k + m := by omega
    simp only [h, hshift, decide_true, Bool.true_and, Nat.sub_add_cancel h, Bool.and_comm]
  · -- below it
    simp only [h, decide_false, Bool.false_and, Bool.and_false]

/-- Or-ing a bit into a number that is a multiple of a higher power adds it. -/
theorem or_bit_below {n k i : ℕ} (hi : i < k) : 2 ^ k * n ||| 2 ^ i = 2 ^ k * n + 2 ^ i :=
  (Nat.two_pow_add_eq_or_of_lt (Nat.pow_lt_pow_right (by omega) hi) n).symm

/-! ## §2. Halves. -/

/-- **A 16-bit word joined from its bytes**, as hardware hands them over one by one: the high byte
    is shifted up, and since the two share no bit, or-ing them is a sum. -/
theorem join_bytes_toNat (high low : UInt8) :
    (high.toUInt16 <<< 8 ||| low.toUInt16).toNat = 2 ^ 8 * high.toNat + low.toNat := by
  have hhigh := high.toNat_lt
  have hshift : (high.toUInt16 <<< 8).toNat = 2 ^ 8 * high.toNat := by
    rw [UInt16.toNat_shiftLeft, UInt8.toNat_toUInt16]
    simp only [UInt16.reduceToNat, Nat.shiftLeft_eq, Nat.reduceMod, Nat.reducePow]
    omega
  rw [UInt16.toNat_or, hshift, UInt8.toNat_toUInt16, ← Nat.two_pow_add_eq_or_of_lt low.toNat_lt]

/-- Masking a byte out and cutting the word to it are the same. -/
theorem masked_byte_toNat (w : UInt16) : (w &&& 0xFF).toUInt8.toNat = w.toNat % 2 ^ 8 := by
  have hmask : w.toNat &&& 255 = w.toNat % 2 ^ 8 := Nat.and_two_pow_sub_one_eq_mod _ 8
  rw [UInt16.toNat_toUInt8, UInt16.toNat_and]
  show (w.toNat &&& 255) % 2 ^ 8 = w.toNat % 2 ^ 8
  rw [hmask, Nat.mod_mod]

/-- The upper half of a word is what a shift leaves. -/
theorem high_byte_toNat (w : UInt16) : (w >>> 8).toUInt8.toNat = w.toNat / 2 ^ 8 := by
  have hw := w.toNat_lt
  rw [UInt16.toNat_toUInt8, UInt16.toNat_shiftRight]
  simp only [UInt16.reduceToNat, Nat.shiftRight_eq_div_pow, Nat.reduceMod, Nat.reducePow]
  omega

/-- **A 32-bit word joined from its halves.**  The same one size up, for words that come in two
    16-bit parts: a sum with the factor 2^16. -/
theorem join_halves_toNat (high low : UInt16) :
    (high.toUInt32 <<< 16 ||| low.toUInt32).toNat = 2 ^ 16 * high.toNat + low.toNat := by
  have hhigh := high.toNat_lt
  have hshift : (high.toUInt32 <<< 16).toNat = 2 ^ 16 * high.toNat := by
    rw [UInt32.toNat_shiftLeft, UInt16.toNat_toUInt32]
    simp only [UInt32.reduceToNat, Nat.shiftLeft_eq, Nat.reduceMod, Nat.reducePow]
    omega
  rw [UInt32.toNat_or, hshift, UInt16.toNat_toUInt32, ← Nat.two_pow_add_eq_or_of_lt low.toNat_lt]

/-- The same for a word of 32 bits. -/
theorem high_half_toNat (w : UInt32) : (w >>> 16).toUInt16.toNat = w.toNat / 2 ^ 16 := by
  have hw := w.toNat_lt
  rw [UInt32.toNat_toUInt16, UInt32.toNat_shiftRight]
  simp only [UInt32.reduceToNat, Nat.shiftRight_eq_div_pow, Nat.reduceMod, Nat.reducePow]
  omega

end Hippos.Lib
