/-
  Hippos.Libc.Block — `memcpy`, `memset` and `memcmp` of the kernel's libc.

  `memcpy` is the upward loop of `memmove` whatever the ranges are.  Where the destination starts
  within the source the loop reads what it has written, and the bytes in front of the destination
  are repeated through it; so the two functions agree exactly when the source already repeats.

  The memory each loop leaves is computed byte by byte, by induction on the rounds.  For the copy
  into the source this gives a period: the byte at distance `k` from the destination is the source
  byte at `k` modulo the distance of the two ranges.  Comparing the two closed forms then settles
  the agreement, with no further induction.

  Main results:
    * `byte_copy_up_above` — an upward copy into its own source repeats.
    * `memcpy_eq_memmove_iff` — when `memcpy` leaves what `memmove` leaves.
    * `byte_memset` — `memset` fills its range and nothing else.
    * `memcmp_order` — the sign of `memcmp` is the order of the dictionary.
-/
import Hippos.Libc.String

namespace Hippos.Libc

open Hippos.Lib

/-- It copies upwards, and never asks how the ranges lie. -/
def memcpy (m : Memory) (dst src size : ℕ) : Memory := copy_up dst src size 0 m

/-- `for (size_t i = 0; i < size; i++)`, from `i` with `rounds` left. -/
def set_loop (buf : ℕ) (value : UInt8) : (rounds : ℕ) → (i : ℕ) → Memory → Memory
  | 0, _, m => m
  | rounds + 1, i, m => set_loop buf value rounds (i + 1) (m.store (buf + i) value)

/-- `value` is an `int`, of which the low byte is stored. -/
def memset (m : Memory) (buf : ℕ) (value : UInt32) (size : ℕ) : Memory :=
  set_loop buf value.toUInt8 size 0 m

/-- `for (size_t i = 0; i < size; i++)`, from `i` with `rounds` left.  The bytes are compared as
    `unsigned char`, and the first that differ decide. -/
def compare_loop (m : Memory) (a b : ℕ) : (rounds : ℕ) → (i : ℕ) → ℤ
  | 0, _ => 0
  | rounds + 1, i =>
    if m.byte (a + i) < m.byte (b + i) then -1
    else if m.byte (b + i) < m.byte (a + i) then 1
    else compare_loop m a b rounds (i + 1)

/-- The result is -1, 0 or 1. -/
def memcmp (m : Memory) (a b size : ℕ) : ℤ := compare_loop m a b size 0

/-! ## §1. Copying. -/

/-- One step further round a cycle: back at the start, or one on. -/
theorem succ_mod (k : ℕ) {d : ℕ} (hd : 0 < d) :
    (k + 1) % d = if k % d + 1 = d then 0 else k % d + 1 := by
  have hlt := Nat.mod_lt k hd
  rw [Nat.add_mod_eq_ite]
  rcases Nat.eq_or_lt_of_le (Nat.succ_le_of_lt hd) with h | h
  · -- a cycle of one
    obtain rfl : d = 1 := h.symm
    simp [Nat.mod_one]
  · rw [Nat.mod_eq_of_lt h]
    split_ifs <;> omega

/-- Copying upwards into the source repeats what lies in front of the destination.  The round that
    writes at distance `k` reads a byte that an earlier round has written as soon as `k` is at least
    the distance of the ranges. -/
theorem byte_copy_up_above {dst src : ℕ} (hlt : src < dst) (rounds : ℕ) :
    ∀ (i : ℕ) (m : Memory) (a : ℕ), (copy_up dst src rounds i m).byte a
      = if dst + i ≤ a ∧ a < dst + i + rounds then
          m.byte (src + i + (a - dst - i) % (dst - src))
        else m.byte a := by
  induction rounds with
  | zero =>
    intro i m a
    rw [copy_up, if_neg (by omega)]
  | succ rounds ih =>
    intro i m a
    rw [copy_up, ih, copy_byte_byte, copy_byte_byte]
    by_cases hlater : dst + (i + 1) ≤ a ∧ a < dst + (i + 1) + rounds
    · have hin : dst + i ≤ a ∧ a < dst + i + (rounds + 1) := by omega
      rw [if_pos hlater, if_pos hin]
      have hstep := succ_mod (a - dst - (i + 1)) (d := dst - src) (by omega)
      have hmod := Nat.mod_lt (a - dst - (i + 1)) (show 0 < dst - src by omega)
      rw [show a - dst - (i + 1) + 1 = a - dst - i by omega] at hstep
      -- the byte read is the one just written exactly when the cycle starts over
      by_cases hover : (a - dst - (i + 1)) % (dst - src) + 1 = dst - src
      · rw [if_pos hover] at hstep
        rw [hstep, if_pos (by omega), Nat.add_zero]
      · rw [if_neg hover] at hstep
        rw [hstep, if_neg (by omega)]
        congr 1
        omega
    · rw [if_neg hlater]
      by_cases hnow : a = dst + i
      · subst hnow
        rw [if_pos rfl, if_pos (by omega), Nat.add_sub_cancel_left, Nat.sub_self, Nat.zero_mod,
            Nat.add_zero]
      · rw [if_neg hnow, if_neg (by omega)]

/-- **`memcpy` agrees with `memmove` exactly when nothing is overwritten that is still to be read,
    or the source repeats anyway.**  Below the source both run the same loop.  Above it `memcpy`
    leaves the bytes before the destination over and over, `memmove` the source as it was, and the
    two are compared byte by byte. -/
theorem memcpy_eq_memmove_iff (m : Memory) (dst src size : ℕ) :
    (∀ a, (memcpy m dst src size).byte a = (memmove m dst src size).byte a)
      ↔ dst ≤ src ∨ ∀ i < size, m.byte (src + i) = m.byte (src + i % (dst - src)) := by
  unfold memcpy
  -- below the source both functions run the same loop
  by_cases hle : dst ≤ src
  · constructor
    · exact fun _ => .inl hle
    · intro _ a
      rw [byte_copy_up hle, byte_memmove, Nat.add_zero]
  · have hlt : src < dst := by omega
    constructor
    · intro h
      refine .inr fun i hi => ?_
      have hi' := h (dst + i)
      rw [byte_copy_up_above hlt, byte_memmove, if_pos (by omega), if_pos (by omega),
          Nat.add_sub_cancel_left] at hi'
      exact hi'.symm
    · intro h a
      have h := h.resolve_left hle
      rw [byte_copy_up_above hlt, byte_memmove, Nat.add_zero]
      split_ifs with hin
      · exact (h (a - dst) (by omega)).symm
      · rfl

/-! ## §2. Setting. -/

/-- What the loop from `i` on leaves, byte by byte. -/
theorem byte_set_loop (buf : ℕ) (value : UInt8) (rounds : ℕ) :
    ∀ (i : ℕ) (m : Memory) (a : ℕ), (set_loop buf value rounds i m).byte a
      = if buf + i ≤ a ∧ a < buf + i + rounds then value else m.byte a := by
  induction rounds with
  | zero =>
    intro i m a
    rw [set_loop, if_neg (by omega)]
  | succ rounds ih =>
    intro i m a
    rw [set_loop, ih]
    show (if _ then value else if a = buf + i then value else m.byte a) = _
    by_cases hlater : buf + (i + 1) ≤ a ∧ a < buf + (i + 1) + rounds
    · rw [if_pos hlater, if_pos (by omega)]
    · rw [if_neg hlater]
      by_cases hnow : a = buf + i
      · rw [if_pos hnow, if_pos (by omega)]
      · rw [if_neg hnow, if_neg (by omega)]

/-- **`memset` fills its range** with the low byte of its value, and leaves every other byte as it
    was. -/
theorem byte_memset (m : Memory) (buf : ℕ) (value : UInt32) (size a : ℕ) :
    (memset m buf value size).byte a
      = if buf ≤ a ∧ a < buf + size then value.toUInt8 else m.byte a := by
  rw [memset, byte_set_loop, Nat.add_zero]

/-! ## §3. Comparing. -/

/-- A range is its first byte and the range behind it. -/
theorem bytes_succ (m : Memory) (a n : ℕ) :
    m.bytes a (n + 1) = m.byte a :: m.bytes (a + 1) n := by
  rw [Memory.bytes, List.range_succ_eq_map, List.map_cons, List.map_map, Memory.bytes]
  congr 1
  apply List.map_congr_left
  intro i _
  show m.byte (a + (i + 1)) = m.byte (a + 1 + i)
  congr 1
  omega

/-- A first byte that differs decides, else the bytes behind it. -/
theorem compare_loop_order (m : Memory) (a b rounds : ℕ) :
    ∀ i, (compare_loop m a b rounds i < 0 ↔ m.bytes (a + i) rounds < m.bytes (b + i) rounds)
      ∧ (0 < compare_loop m a b rounds i ↔ m.bytes (b + i) rounds < m.bytes (a + i) rounds)
      ∧ (compare_loop m a b rounds i = 0 ↔ m.bytes (a + i) rounds = m.bytes (b + i) rounds) := by
  induction rounds with
  | zero =>
    intro i
    have hempty : ∀ p, m.bytes p 0 = [] := fun _ => rfl
    rw [hempty, hempty, compare_loop]
    simp
  | succ rounds ih =>
    intro i
    have ih := ih (i + 1)
    rw [← Nat.add_assoc, ← Nat.add_assoc] at ih
    simp only [compare_loop, bytes_succ, List.cons_lt_cons_iff, List.cons.injEq]
    by_cases hlt : m.byte (a + i) < m.byte (b + i)
    · simp [hlt, UInt8.lt_asymm hlt, UInt8.ne_of_lt hlt, (UInt8.ne_of_lt hlt).symm]
    · by_cases hgt : m.byte (b + i) < m.byte (a + i)
      · simp [hlt, hgt, UInt8.ne_of_lt hgt, (UInt8.ne_of_lt hgt).symm]
      · -- the first bytes are equal
        have heq : m.byte (a + i) = m.byte (b + i) :=
          UInt8.le_antisymm (UInt8.not_lt.mp hgt) (UInt8.not_lt.mp hlt)
        simpa [heq] using ih

/-- **`memcmp` is the order of the dictionary**: its sign tells which range comes first, byte by
    byte as unsigned numbers, and it is 0 exactly when the ranges hold the same bytes. -/
theorem memcmp_order (m : Memory) (a b size : ℕ) :
    (memcmp m a b size < 0 ↔ m.bytes a size < m.bytes b size)
      ∧ (0 < memcmp m a b size ↔ m.bytes b size < m.bytes a size)
      ∧ (memcmp m a b size = 0 ↔ m.bytes a size = m.bytes b size) :=
  compare_loop_order m a b size 0

end Hippos.Libc
