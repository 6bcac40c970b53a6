/-
  Hippos.Lib.WordRows — a set of numbers packed into 64-bit rows.

  `WordRows` is the storage of any bitmap made of 64-bit words: number `i` lives in row `i / 64`,
  column `i % 64`.  The lemmas turn the three word idioms (shift-and-test, or-with-a-mask,
  and-with-a-complemented-mask) into statements about membership, so that a client never sees a mask
  again.

  Main results:
    * `bit_modify_or` — or-ing a mask inserts exactly one number.
    * `bit_modify_and_not` — and-ing a complemented mask removes exactly one number.
    * `test_eq_bit` — shift-and-mask reads membership.
-/
import Mathlib.Tactic.Common
import Mathlib.Algebra.GroupWithZero.Nat

namespace Hippos.Lib

/-! ## §1. One word. -/

/-- Or-ing `1 <<< c` into a word sets bit `c` and nothing else. -/
theorem getLsbD_or_one_shiftLeft (x c : UInt64) (j : Nat) (hc : c.toNat < 64) (hj : j < 64) :
    (x ||| (1 <<< c)).toBitVec.getLsbD j
      = if j = c.toNat then true else x.toBitVec.getLsbD j := by
  have hmod : c.toNat % 64 = c.toNat := Nat.mod_eq_of_lt hc
  split_ifs with h
  · subst h; simp [hj, hmod]
  · have hne : (!decide (j < c.toNat) && decide (j - c.toNat = 0)) = false := by
      simp; omega
    simp [hmod, hj, hne]

/-- And-ing the complement of `1 <<< c` clears bit `c` and nothing else. -/
theorem getLsbD_and_not_one_shiftLeft (x c : UInt64) (j : Nat) (hc : c.toNat < 64)
    (hj : j < 64) :
    (x &&& ~~~(1 <<< c)).toBitVec.getLsbD j
      = if j = c.toNat then false else x.toBitVec.getLsbD j := by
  have hmod : c.toNat % 64 = c.toNat := Nat.mod_eq_of_lt hc
  split_ifs with h
  · subst h; simp [hj, hmod]
  · have hne : (decide (j < c.toNat) || !decide (j - c.toNat = 0)) = true := by
      simp; omega
    simp [hmod, hj, hne]

/-- Shifting bit `c` down and masking with 1 reads bit `c`. -/
theorem shiftRight_and_one (x c : UInt64) (hc : c.toNat < 64) :
    ((x >>> c) &&& 1 != 0) = x.toBitVec.getLsbD c.toNat := by
  have hmod : c.toNat % 64 = c.toNat := Nat.mod_eq_of_lt hc
  -- as numbers: the quotient by the power of two is odd
  have hval : ((x >>> c) &&& 1).toNat = x.toNat / 2 ^ c.toNat % 2 := by
    rw [UInt64.toNat_and, UInt64.toNat_shiftRight, hmod, Nat.shiftRight_eq_div_pow]
    exact Nat.and_one_is_mod _
  have hbit : x.toBitVec.getLsbD c.toNat = decide (x.toNat / 2 ^ c.toNat % 2 = 1) := by
    rw [← BitVec.testBit_toNat, UInt64.toNat_toBitVec, Nat.testBit_eq_decide_div_mod_eq]
  rw [hbit, bne, Bool.eq_iff_iff]
  simp only [Bool.not_eq_true', beq_eq_false_iff_ne, ne_eq, ← UInt64.toNat_inj, hval,
    UInt64.toNat_zero, decide_eq_true_eq]
  omega

/-! ## §2. Rows of words. -/

/-- The words of a bitmap, by row. -/
abbrev WordRows := Nat → UInt64

namespace WordRows

/-- Membership of `i`: column `i % 64` of row `i / 64`. -/
def bit (w : WordRows) (i : Nat) : Bool := (w (i / 64)).toBitVec.getLsbD (i % 64)

/-- Replace one row. -/
def modify (w : WordRows) (row : Nat) (f : UInt64 → UInt64) : WordRows :=
  fun r => if r = row then f (w r) else w r

/-- The row that was replaced. -/
@[simp] theorem modify_same (w : WordRows) (row : Nat) (f : UInt64 → UInt64) :
    w.modify row f row = f (w row) := if_pos rfl

/-- Another row. -/
theorem modify_other (w : WordRows) {row r : Nat} (f : UInt64 → UInt64) (h : r ≠ row) :
    w.modify row f r = w r := if_neg h

/-- **A word idiom that rewrites one column rewrites the membership of one number.**  What it does
    to the other columns of the row is nothing, and the other rows are not touched. -/
theorem bit_modify (w : WordRows) (b : Nat) (f : UInt64 → UInt64) (v : Bool)
    (hf : ∀ x j, j < 64 →
      (f x).toBitVec.getLsbD j = if j = b % 64 then v else x.toBitVec.getLsbD j) (i : Nat) :
    (w.modify (b / 64) f).bit i = if i = b then v else w.bit i := by
  unfold bit
  by_cases hrow : i / 64 = b / 64
  · -- in the rewritten row the column decides
    have hcol : i % 64 = b % 64 ↔ i = b := by omega
    rw [hrow, modify_same, hf _ _ (by omega)]
    simp only [hcol]
  -- a number of another row is another number
  · have hne : i ≠ b := by
      intro h
      exact hrow (by rw [h])
    rw [modify_other _ _ hrow, if_neg hne]

/-- **Or-ing a mask inserts exactly one number.**  The column of the mask is given by its value, so
    that any way of computing it will do. -/
theorem bit_modify_or (w : WordRows) (b : Nat) (c : UInt64) (hc : c.toNat = b % 64) (i : Nat) :
    (w.modify (b / 64) (fun x => x ||| (1 <<< c))).bit i = (decide (i = b) || w.bit i) := by
  rw [bit_modify w b _ true]
  · by_cases h : i = b <;> simp [h]
  · intro x j hj
    rw [getLsbD_or_one_shiftLeft x c j (by omega) hj, hc]

/-- **And-ing a complemented mask removes exactly one number**, and leaves the other 63 of its row
    as well as all other rows. -/
theorem bit_modify_and_not (w : WordRows) (b : Nat) (c : UInt64) (hc : c.toNat = b % 64)
    (i : Nat) :
    (w.modify (b / 64) (fun x => x &&& ~~~(1 <<< c))).bit i
      = (!decide (i = b) && w.bit i) := by
  rw [bit_modify w b _ false]
  · by_cases h : i = b <;> simp [h]
  · intro x j hj
    rw [getLsbD_and_not_one_shiftLeft x c j (by omega) hj, hc]

/-- **Shift-and-mask reads membership.**  The row and the column are given by their values, so it
    holds for words of any width that compute them. -/
theorem test_eq_bit (w : WordRows) (b : Nat) (c : UInt64) (hc : c.toNat = b % 64) :
    ((w (b / 64) >>> c) &&& 1 != 0) = w.bit b := by
  rw [shiftRight_and_one _ _ (by omega), hc]
  rfl

/-- A row of ones has all of its numbers. -/
theorem bit_of_row_ones (w : WordRows) (i : Nat) (h : w (i / 64) = 0xFFFFFFFFFFFFFFFF) :
    w.bit i = true := by
  have hcol : i % 64 < 64 := Nat.mod_lt _ (by omega)
  unfold bit
  rw [h, show (0xFFFFFFFFFFFFFFFF : UInt64).toBitVec = BitVec.allOnes 64 from rfl,
      BitVec.getLsbD_allOnes]
  exact decide_eq_true hcol

end WordRows

end Hippos.Lib
