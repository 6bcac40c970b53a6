/-
  Hippos.Libc.String — `memmove` and `strlen` of the kernel's libc.

  `memmove` copies upwards when the destination lies below the source and downwards otherwise, byte
  by byte.  Addresses are numbers here; `Hippos.Libc.Memmove` has the same loops on words of the
  machine, and the two agree where nothing wraps.

  Two questions are answered about the loops: which addresses they touch, which is what the
  terminals need to know of a scroll, and what they leave behind.  The second one is where the
  direction matters.  An upward copy writes below what it has still to read, a downward copy above
  it; so in both cases every byte that is read is still the old one, and the invariant of each loop
  can speak of the memory it started from.

  Main results:
    * `mem_memmove_accessed` — `memmove` touches its two ranges and nothing else.
    * `byte_memmove` — it leaves the old source at the destination, however the ranges overlap.
-/
import Hippos.Lib.ByteMemory

namespace Hippos.Libc

open Hippos.Lib

/-- `dst[i] = src[i]`. -/
def copy_byte (m : Memory) (dst src i : ℕ) : Memory :=
  let (v, m) := m.load (src + i)
  m.store (dst + i) v

/-- `for (size_t i = 0; i < size; i++)`, from `i` with `rounds` left. -/
def copy_up (dst src : ℕ) : (rounds : ℕ) → (i : ℕ) → Memory → Memory
  | 0, _, m => m
  | rounds + 1, i, m => copy_up dst src rounds (i + 1) (copy_byte m dst src i)

/-- `for (size_t i = size; i != 0; i--)`. -/
def copy_down (dst src : ℕ) : (i : ℕ) → Memory → Memory
  | 0, m => m
  | i + 1, m => copy_down dst src i (copy_byte m dst src i)

/-- Upwards when the destination lies below the source, else downwards. -/
def memmove (m : Memory) (dst src size : ℕ) : Memory :=
  if dst < src then copy_up dst src size 0 m else copy_down dst src size m

/-- The length up to the first zero byte.  The list is what lies in memory from the pointer on. -/
def strlen : List UInt8 → ℕ
  | [] => 0
  | c :: s => if c = 0 then 0 else strlen s + 1

/-! ## §1. What `memmove` accesses. -/

/-- One byte is read and one written. -/
theorem mem_copy_byte (m : Memory) (dst src i a : ℕ) :
    a ∈ (copy_byte m dst src i).accessed ↔ a ∈ m.accessed ∨ (a = src + i ∨ a = dst + i) := by
  show a ∈ (dst + i) :: (src + i) :: m.accessed ↔ _
  rw [List.mem_cons, List.mem_cons]
  tauto

/-- What copying upwards from `i` on touches: one address in each range for every index that is
    left. -/
theorem mem_copy_up_accessed (dst src rounds : ℕ) :
    ∀ (i : ℕ) (m : Memory) (a : ℕ), a ∈ (copy_up dst src rounds i m).accessed
      ↔ a ∈ m.accessed ∨ ∃ j, i ≤ j ∧ j < i + rounds ∧ (a = src + j ∨ a = dst + j) := by
  induction rounds with
  | zero =>
    intro i m a
    have hnone : ¬ ∃ j, i ≤ j ∧ j < i + 0 ∧ (a = src + j ∨ a = dst + j) := by
      intro h
      obtain ⟨j, h1, h2, -⟩ := h
      omega
    rw [copy_up, iff_false_intro hnone, or_false]
  | succ rounds ih =>
    intro i m a
    rw [copy_up, ih, mem_copy_byte, or_assoc]
    apply or_congr_right
    constructor
    · intro h
      rcases h with h | ⟨j, h1, h2, h⟩
      · exact ⟨i, Nat.le_refl i, by omega, h⟩
      · exact ⟨j, by omega, by omega, h⟩
    · intro h
      obtain ⟨j, h1, h2, h⟩ := h
      -- the first index, or a later one
      rcases Nat.eq_or_lt_of_le h1 with rfl | hlt
      · exact Or.inl h
      · exact Or.inr ⟨j, hlt, by omega, h⟩

/-- Copying downwards touches the same, from the other end. -/
theorem mem_copy_down_accessed (dst src i : ℕ) :
    ∀ (m : Memory) (a : ℕ), a ∈ (copy_down dst src i m).accessed
      ↔ a ∈ m.accessed ∨ ∃ j < i, a = src + j ∨ a = dst + j := by
  induction i with
  | zero => intro m a; simp [copy_down]
  | succ i ih =>
    intro m a
    rw [copy_down, ih, mem_copy_byte, or_assoc]
    apply or_congr_right
    constructor
    · intro h
      rcases h with h | ⟨j, hj, h⟩
      · exact ⟨i, Nat.lt_succ_self i, h⟩
      · exact ⟨j, by omega, h⟩
    · intro h
      obtain ⟨j, hj, h⟩ := h
      -- the last index, or an earlier one
      rcases Nat.eq_or_lt_of_le (Nat.le_of_lt_succ hj) with rfl | hlt
      · exact Or.inl h
      · exact Or.inr ⟨j, hlt, h⟩

/-- **`memmove` accesses its two ranges**, in whichever direction it copies: each byte of the one is
    read and each byte of the other is written.  It is an equivalence, so it also tells when nothing
    outside some region is touched. -/
theorem mem_memmove_accessed (m : Memory) (dst src size a : ℕ) :
    a ∈ (memmove m dst src size).accessed
      ↔ a ∈ m.accessed ∨ ∃ j < size, a = src + j ∨ a = dst + j := by
  unfold memmove
  split_ifs
  · rw [mem_copy_up_accessed]
    simp only [Nat.zero_le, Nat.zero_add, true_and]
  · exact mem_copy_down_accessed dst src size m a

/-! ## §2. What `memmove` leaves. -/

/-- One byte is copied, and the others stay. -/
theorem copy_byte_byte (m : Memory) (dst src i a : ℕ) :
    (copy_byte m dst src i).byte a = if a = dst + i then m.byte (src + i) else m.byte a := rfl

/-- Copying upwards never reads a byte it wrote: those lie below.  The destination of round `i` is
    at most the source of round `i`, so it is below that of any later one. -/
theorem byte_copy_up {dst src : ℕ} (hle : dst ≤ src) (rounds : ℕ) :
    ∀ (i : ℕ) (m : Memory) (a : ℕ), (copy_up dst src rounds i m).byte a
      = if dst + i ≤ a ∧ a < dst + i + rounds then m.byte (src + (a - dst)) else m.byte a := by
  induction rounds with
  | zero =>
    intro i m a
    rw [copy_up, if_neg (by omega)]
  | succ rounds ih =>
    intro i m a
    rw [copy_up, ih, copy_byte_byte, copy_byte_byte]
    by_cases hlater : dst + (i + 1) ≤ a ∧ a < dst + (i + 1) + rounds
    · -- written later, from a byte that is still the old one
      rw [if_pos hlater, if_neg (by omega), if_pos (by omega)]
    · rw [if_neg hlater]
      by_cases hnow : a = dst + i
      · rw [if_pos hnow, if_pos (by omega), hnow, Nat.add_sub_cancel_left]
      · rw [if_neg hnow, if_neg (by omega)]

/-- Copying downwards neither: what it has written lies above what is still to be read. -/
theorem byte_copy_down {dst src : ℕ} (hle : src ≤ dst) (i : ℕ) :
    ∀ (m : Memory) (a : ℕ), (copy_down dst src i m).byte a
      = if dst ≤ a ∧ a < dst + i then m.byte (src + (a - dst)) else m.byte a := by
  induction i with
  | zero =>
    intro m a
    rw [copy_down, if_neg (by omega)]
  | succ i ih =>
    intro m a
    rw [copy_down, ih, copy_byte_byte, copy_byte_byte]
    -- the byte of this round is copied before those below it
    by_cases hlater : dst ≤ a ∧ a < dst + i
    · rw [if_pos hlater, if_neg (by omega), if_pos (by omega)]
    · rw [if_neg hlater]
      by_cases hnow : a = dst + i
      · rw [if_pos hnow, if_pos (by omega), hnow, Nat.add_sub_cancel_left]
      · rw [if_neg hnow, if_neg (by omega)]

/-- **`memmove` leaves the old source at the destination**, however the ranges overlap, and every
    other byte as it was.  The direction is chosen so that either loop reads only bytes it has not
    written. -/
theorem byte_memmove (m : Memory) (dst src size a : ℕ) :
    (memmove m dst src size).byte a
      = if dst ≤ a ∧ a < dst + size then m.byte (src + (a - dst)) else m.byte a := by
  unfold memmove
  split_ifs with hup hin hin
  · rw [byte_copy_up (Nat.le_of_lt hup), if_pos (by omega)]
  · rw [byte_copy_up (Nat.le_of_lt hup), if_neg (by omega)]
  · rw [byte_copy_down (by omega), if_pos hin]
  · rw [byte_copy_down (by omega), if_neg hin]

/-- The byte at an index of the destination is the byte at that index of the source. -/
theorem byte_memmove_of_lt (m : Memory) {dst src size i : ℕ} (hi : i < size) :
    (memmove m dst src size).byte (dst + i) = m.byte (src + i) := by
  rw [byte_memmove, if_pos (by omega), Nat.add_sub_cancel_left]

/-- A byte outside of the destination is as it was. -/
theorem byte_memmove_other (m : Memory) {dst src size a : ℕ} (h : a < dst ∨ dst + size ≤ a) :
    (memmove m dst src size).byte a = m.byte a := by
  rw [byte_memmove, if_neg (by omega)]

end Hippos.Libc
