/-
  Hippos.Mem.Bitmap — the inline helpers of `pmm.h`: check, use and free one bit.

  The helpers use `bitmap->map` only, so they are defined on the storage it points at.  Every access
  also records the row it touched: the rows of a whole run can then be compared with the number of
  rows the allocator initialised.

  `bitmap_check` keeps its row in a `uint32_t` while the two updates index with 64 bits.  The check
  therefore sees bit `i % 2^38` when asked for bit `i`; `seen` is that view.  For numbers below 2^38
  the view is the bit itself, and the helpers are the operations of a set; above, two numbers a
  multiple of 2^38 apart are one to the check and two to the updates.

  Main results:
    * `bitmap_use_bit`, `bitmap_free_bit` — each update changes one bit.
    * `bitmap_check_fst` — the check reads the bit that its truncated row leads to.
    * `setLaws_iff` — when the three helpers are a set of page numbers.
-/
import Hippos.Lib.WordRows

namespace Hippos.Mem

open Hippos.Lib

def PAGE_SIZE : UInt64 := 0x1000
def BITS_PER_ROW : UInt64 := 64

/-- The words behind `pmm_bitmap.map`, and the rows accessed so far (newest first). -/
structure MapStorage where
  word : WordRows
  touched : List ℕ

namespace MapStorage

/-- Bit `i`, at full width: `true` is USED. -/
def bit (map : MapStorage) (i : ℕ) : Bool := map.word.bit i

/-- Bit `i` as `bitmap_check` finds it, through a 32-bit row number. -/
def seen (map : MapStorage) (i : ℕ) : Bool := map.bit (i % 2 ^ 38)

/-- Record an access to `row`. -/
def touch (map : MapStorage) (row : ℕ) : MapStorage :=
  { map with touched := row :: map.touched }

/-- Read, change and write back one row. -/
def update (map : MapStorage) (row : ℕ) (f : UInt64 → UInt64) : MapStorage :=
  { word := map.word.modify row f, touched := row :: map.touched }

@[simp] theorem touch_word (map : MapStorage) (row : ℕ) : (map.touch row).word = map.word := rfl

@[simp] theorem touch_touched (map : MapStorage) (row : ℕ) :
    (map.touch row).touched = row :: map.touched := rfl

@[simp] theorem update_touched (map : MapStorage) (row : ℕ) (f : UInt64 → UInt64) :
    (map.update row f).touched = row :: map.touched := rfl

theorem seen_of_lt (map : MapStorage) {i : ℕ} (h : i < 2 ^ 38) : map.seen i = map.bit i := by
  unfold seen
  rw [Nat.mod_eq_of_lt h]

theorem seen_add_period (map : MapStorage) (i : ℕ) : map.seen (i + 2 ^ 38) = map.seen i := by
  unfold seen
  rw [Nat.add_mod_right]

end MapStorage

/-- The row of a bit, as `bitmap_check` truncates it to 32 bits. -/
def seenRow (i : ℕ) : ℕ := i % 2 ^ 38 / 64

/-! ## §1. The helpers. -/

/-- Check if a bit is used: 32-bit row and column, one shift and a mask. -/
def bitmap_check (map : MapStorage) (bit_number : UInt64) : Bool × MapStorage :=
  let row : UInt32 := (bit_number / BITS_PER_ROW).toUInt32
  let column : UInt32 := (bit_number % BITS_PER_ROW).toUInt32
  ((map.word row.toNat >>> column.toUInt64) &&& 1 != 0, map.touch row.toNat)

/-- Set a page as USED. -/
def bitmap_use (map : MapStorage) (bit_number : UInt64) : MapStorage :=
  map.update (bit_number / BITS_PER_ROW).toNat
    (fun w => w ||| (1 <<< (bit_number % BITS_PER_ROW)))

/-- Free a page. -/
def bitmap_free (map : MapStorage) (bit_number : UInt64) : MapStorage :=
  map.update (bit_number / BITS_PER_ROW).toNat
    (fun w => w &&& ~~~(1 <<< (bit_number % BITS_PER_ROW)))

/-! ## §2. What each helper does to the set of used bits. -/

/-- Each row has 64 bits. -/
theorem row_toNat (b : UInt64) : (b / BITS_PER_ROW).toNat = b.toNat / 64 := by
  rw [UInt64.toNat_div]
  rfl

/-- The column of a bit in its row. -/
theorem column_toNat (b : UInt64) : (b % BITS_PER_ROW).toNat = b.toNat % 64 := by
  rw [UInt64.toNat_mod]
  rfl

/-- **`bitmap_use` adds one bit.** -/
@[simp] theorem bitmap_use_bit (map : MapStorage) (b : UInt64) (i : ℕ) :
    (bitmap_use map b).bit i = (decide (i = b.toNat) || map.bit i) := by
  unfold bitmap_use MapStorage.update MapStorage.bit
  rw [row_toNat]
  exact WordRows.bit_modify_or _ _ _ (column_toNat b) i

/-- **`bitmap_free` removes one bit.** -/
@[simp] theorem bitmap_free_bit (map : MapStorage) (b : UInt64) (i : ℕ) :
    (bitmap_free map b).bit i = (!decide (i = b.toNat) && map.bit i) := by
  unfold bitmap_free MapStorage.update MapStorage.bit
  rw [row_toNat]
  exact WordRows.bit_modify_and_not _ _ _ (column_toNat b) i

/-- Its row is read and written. -/
@[simp] theorem bitmap_use_touched (map : MapStorage) (b : UInt64) :
    (bitmap_use map b).touched = b.toNat / 64 :: map.touched := by
  unfold bitmap_use
  rw [MapStorage.update_touched, row_toNat]

/-- And so is the row of a bit that is freed. -/
@[simp] theorem bitmap_free_touched (map : MapStorage) (b : UInt64) :
    (bitmap_free map b).touched = b.toNat / 64 :: map.touched := by
  unfold bitmap_free
  rw [MapStorage.update_touched, row_toNat]

/-- The row after the truncation to 32 bits. -/
theorem check_row_toNat (b : UInt64) :
    (b / BITS_PER_ROW).toUInt32.toNat = seenRow b.toNat := by
  have hb := b.toNat_lt
  rw [UInt64.toNat_toUInt32, row_toNat, seenRow]
  omega

/-- **`bitmap_check` reads the bit its truncated row leads to.**  The column is not truncated: it is
    below 64 anyway. -/
theorem bitmap_check_fst (map : MapStorage) (b : UInt64) :
    (bitmap_check map b).1 = map.seen b.toNat := by
  have hcol : (b % BITS_PER_ROW).toUInt32.toUInt64.toNat = b.toNat % 2 ^ 38 % 64 := by
    rw [UInt32.toNat_toUInt64, UInt64.toNat_toUInt32, column_toNat]
    omega
  unfold bitmap_check MapStorage.seen MapStorage.bit
  simp only [check_row_toNat]
  exact WordRows.test_eq_bit map.word (b.toNat % 2 ^ 38) _ hcol

/-- It touches that row and changes nothing. -/
theorem bitmap_check_snd (map : MapStorage) (b : UInt64) :
    (bitmap_check map b).2 = map.touch (seenRow b.toNat) := by
  unfold bitmap_check
  simp only [check_row_toNat]

/-! ## §3. The helpers as a set. -/

/-- **The bitmap is a set of page numbers**, as far as a question about `c` after an update of `b`
    can tell: the update adds or removes `b` and leaves the answer for every other number. -/
structure SetLaws (map : MapStorage) (b c : UInt64) : Prop where
  use : (bitmap_check (bitmap_use map b) c).1 = true ↔ c = b ∨ (bitmap_check map c).1 = true
  free : (bitmap_check (bitmap_free map b) c).1 = true ↔ c ≠ b ∧ (bitmap_check map c).1 = true

/-- After an update of `b` the check answers for the bit its truncated row leads to. -/
theorem check_after_update (map : MapStorage) (b c : UInt64) :
    (bitmap_check (bitmap_use map b) c).1
        = (decide (c.toNat % 2 ^ 38 = b.toNat) || (bitmap_check map c).1)
      ∧ (bitmap_check (bitmap_free map b) c).1
        = (!decide (c.toNat % 2 ^ 38 = b.toNat) && (bitmap_check map c).1) := by
  simp only [bitmap_check_fst, MapStorage.seen]
  exact ⟨bitmap_use_bit map b _, bitmap_free_bit map b _⟩

/-- **The laws hold exactly when the truncation does not confuse the two numbers.**  An update of
    `b` changes the answer for `c` when `c` leads the check to bit `b`; it should when `c` is
    `b`. -/
theorem setLaws_iff_untruncated (map : MapStorage) (b c : UInt64) :
    SetLaws map b c ↔ (c.toNat % 2 ^ 38 = b.toNat ↔ c = b) := by
  obtain ⟨huse, hfree⟩ := check_after_update map b c
  constructor
  · intro h
    have hlaw := h.use
    have hlaw' := h.free
    rw [huse] at hlaw
    rw [hfree] at hlaw'
    -- one law speaks when the answer was yes, the other when it was no
    cases hS : (bitmap_check map c).1 with
    | false => simpa [hS] using hlaw
    | true => simpa [hS, not_iff_not] using hlaw'
  · intro h
    constructor
    · rw [huse, Bool.or_eq_true, decide_eq_true_iff, h]
    · rw [hfree, Bool.and_eq_true, Bool.not_eq_true', decide_eq_false_iff_not, h]

/-- **The helpers implement a set exactly below bit 2^38**, and above it for two numbers that differ
    and are not confused by a 32-bit row.  `bitmap_use` and `bitmap_free` compute the row in 64
    bits; `bitmap_check` stores it in an `unsigned int`, and so looks 2^32 rows too low from there
    on. -/
theorem setLaws_iff (map : MapStorage) (b c : UInt64) :
    SetLaws map b c
      ↔ c.toNat < 2 ^ 38 ∨ (b ≠ c ∧ b.toNat ≠ c.toNat % 2 ^ 38) := by
  rw [setLaws_iff_untruncated, ← UInt64.toNat_inj, ne_eq, ← UInt64.toNat_inj]
  omega

/-- The first bit of row 2^32 is not seen as used after it was used. -/
theorem setLaws_fail_row_2_32 :
    (0x4000000000 : UInt64).toNat / 64 < 2 ^ 46
      ∧ ¬ SetLaws { word := fun _ => 0, touched := [] } 0x4000000000 0x4000000000 := by
  refine ⟨by decide, ?_⟩
  intro h
  have hseen : (bitmap_check (bitmap_use { word := fun _ => 0, touched := [] } 0x4000000000)
      0x4000000000).1 = false := by decide
  have hyes := h.use.mpr (Or.inl rfl)
  rw [hseen] at hyes
  exact Bool.noConfusion hyes

end Hippos.Mem
