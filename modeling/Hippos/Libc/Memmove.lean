/-
  Hippos.Libc.Memmove — `memmove` on the words of the machine.

  Pointers, sizes and counters have `w` bits: 64 on x86_64, 32 on i386.  Their arithmetic wraps, and
  the loops return `none` when they would need more rounds.  Where neither range wraps around the
  address space they are the loops of `Hippos.Libc.String` on numbers, which the terminals use.

  The correctness proof is in two parts.  The loops on words are first shown equal to the loops on
  numbers: inside a range that does not wrap, `p + i` is the sum of the numbers, an index below
  `size` can be incremented and one above 0 decremented.  That the loops on numbers move the bytes,
  however the ranges overlap, is then a fact of `Hippos.Libc.String`.

  Main results:
    * `copy_up_eq`, `copy_down_eq` — each loop is the loop on numbers, and it comes to an end.
    * `memmove_eq` — without a wrap `memmove` is the `memmove` on numbers.
    * `memmove_moves` — it moves the bytes and changes no other, for ranges that overlap in any way.
-/
import Hippos.Libc.String

namespace Hippos.Libc.Machine

open Hippos.Lib

/-! ## §1. `memmove.c`. -/

section Source

variable {w : ℕ}

/-- `dst[i] = src[i]`. -/
def copy_byte (m : Memory) (dst src i : BitVec w) : Memory :=
  let (v, m) := m.load (src + i).toNat
  m.store (dst + i).toNat v

/-- `for (size_t i = 0; i < size; i++)`, from `i` on.  It needs one round more than it copies bytes,
    to see that it is done. -/
def copy_up (dst src size : BitVec w) : (rounds : ℕ) → (i : BitVec w) → Memory → Option Memory
  | 0, _, _ => none
  | rounds + 1, i, m =>
    if i < size then copy_up dst src size rounds (i + 1) (copy_byte m dst src i) else some m

/-- `for (size_t i = size; i != 0; i--)`, from `i` on.  The byte it copies is `src[i - 1]`. -/
def copy_down (dst src : BitVec w) : (rounds : ℕ) → (i : BitVec w) → Memory → Option Memory
  | 0, _, _ => none
  | rounds + 1, i, m =>
    if i ≠ 0 then copy_down dst src rounds (i - 1) (copy_byte m dst src (i - 1)) else some m

/-- It copies upwards only when the destination lies below the source, and returns `dstptr`. -/
def memmove (rounds : ℕ) (m : Memory) (dstptr srcptr size : BitVec w) :
    Option (BitVec w × Memory) :=
  let moved :=
    if dstptr < srcptr then copy_up dstptr srcptr size rounds 0 m
    else copy_down dstptr srcptr rounds size m
  moved.map fun m => (dstptr, m)

end Source

/-! ## §2. Ranges that do not wrap. -/

section Ranges

variable {w : ℕ} {p dst src size i : BitVec w}

/-- The `size` bytes from `p` on end before the address space does. -/
def InSpace (p size : BitVec w) : Prop := p.toNat + size.toNat ≤ 2 ^ w

/-- Inside of such a range the address arithmetic is exact. -/
theorem InSpace.index (h : InSpace p size) (hi : i < size) :
    (p + i).toNat = p.toNat + i.toNat := by
  rw [BitVec.lt_def] at hi
  apply BitVec.toNat_add_of_lt
  exact Nat.lt_of_lt_of_le (Nat.add_lt_add_left hi _) h

/-- In a word of at least one bit, 1 is 1. -/
theorem one_toNat (h : 1 < 2 ^ w) : (1 : BitVec w).toNat = 1 := by
  show 1 % 2 ^ w = 1
  exact Nat.mod_eq_of_lt h

/-- A counter below `size` does not wrap when it is incremented. -/
theorem succ_toNat (hi : i < size) : (i + 1).toNat = i.toNat + 1 := by
  have hsize := size.isLt
  rw [BitVec.lt_def] at hi
  have hone := one_toNat (w := w) (by omega)
  rw [BitVec.toNat_add_of_lt (by omega), hone]

/-- A counter above 0 does not wrap when it is decremented. -/
theorem pred_toNat (hi : i ≠ 0) : i.toNat = (i - 1).toNat + 1 := by
  have hpos := BitVec.toNat_pos_of_ne_zero hi
  have hlt := i.isLt
  have hone := one_toNat (w := w) (by omega)
  have hle : 1 ≤ i := by
    rw [BitVec.le_def, hone]
    exact hpos
  rw [BitVec.toNat_sub_of_le hle, hone, Nat.sub_add_cancel hpos]

/-- One byte is copied between the same two addresses, on words as on numbers. -/
theorem copy_byte_eq (hdst : InSpace dst size) (hsrc : InSpace src size) (hi : i < size)
    (m : Memory) :
    copy_byte m dst src i = Libc.copy_byte m dst.toNat src.toNat i.toNat := by
  unfold copy_byte Libc.copy_byte
  rw [hdst.index hi, hsrc.index hi]

/-- **Copying upwards** from `i` with `left` bytes to go.  By induction on `left`; the rounds are
    only required to be more.  The counter is below `size` in every round that copies, so its
    increment does not wrap. -/
theorem copy_up_eq (hdst : InSpace dst size) (hsrc : InSpace src size) (left : ℕ) :
    ∀ (rounds : ℕ) (i : BitVec w) (m : Memory), i.toNat + left = size.toNat → left < rounds →
      copy_up dst src size rounds i m
        = some (Libc.copy_up dst.toNat src.toNat left i.toNat m) := by
  induction left with
  | zero =>
    intro rounds i m hleft hrounds
    obtain ⟨rounds, rfl⟩ := Nat.exists_eq_succ_of_ne_zero (by omega : rounds ≠ 0)
    have hstop : ¬ i < size := by
      rw [BitVec.lt_def]
      omega
    rw [copy_up, if_neg hstop, Libc.copy_up]
  | succ left ih =>
    intro rounds i m hleft hrounds
    obtain ⟨rounds, rfl⟩ := Nat.exists_eq_succ_of_ne_zero (by omega : rounds ≠ 0)
    have hi : i < size := by
      rw [BitVec.lt_def]
      omega
    have hnext := succ_toNat hi
    rw [copy_up, if_pos hi, ih rounds (i + 1) _ (by omega) (by omega), hnext,
        copy_byte_eq hdst hsrc hi, Libc.copy_up]

/-- **Copying downwards** from `i`.  Here the induction is on the rounds, since the counter itself
    says how many bytes are left; it is decremented only above 0. -/
theorem copy_down_eq (hdst : InSpace dst size) (hsrc : InSpace src size) (rounds : ℕ) :
    ∀ (i : BitVec w) (m : Memory), i.toNat ≤ size.toNat → i.toNat < rounds →
      copy_down dst src rounds i m
        = some (Libc.copy_down dst.toNat src.toNat i.toNat m) := by
  induction rounds with
  | zero =>
    intro i m _ hrounds
    exact absurd hrounds (Nat.not_lt_zero _)
  | succ rounds ih =>
    intro i m hle hrounds
    rw [copy_down]
    by_cases hi : i = 0
    · -- the counter has come down to 0
      rw [if_neg (not_not_intro hi), hi]
      rfl
    -- the counter is above 0, and the byte below it is copied
    · have hpred := pred_toNat hi
      have hlt : i - 1 < size := by
        rw [BitVec.lt_def]
        omega
      rw [if_pos hi, ih (i - 1) _ (by omega) (by omega), copy_byte_eq hdst hsrc hlt, hpred,
          Libc.copy_down]

/-- **Without a wrap `memmove` is the `memmove` on numbers**, once it has rounds enough: the
    comparison that picks the direction is the same, and so is either loop. -/
theorem memmove_eq (hdst : InSpace dst size) (hsrc : InSpace src size) {rounds : ℕ}
    (hrounds : size.toNat < rounds) (m : Memory) :
    memmove rounds m dst src size
      = some (dst, Libc.memmove m dst.toNat src.toNat size.toNat) := by
  unfold memmove Libc.memmove
  dsimp only
  -- the comparison of the pointers is that of the numbers
  by_cases hup : dst < src
  · rw [if_pos hup, if_pos (BitVec.lt_def.mp hup),
        copy_up_eq hdst hsrc size.toNat rounds 0 m (Nat.zero_add _) hrounds]
    rfl
  · rw [if_neg hup, if_neg (mt BitVec.lt_def.mpr hup),
        copy_down_eq hdst hsrc rounds size m (Nat.le_refl _) hrounds]
    rfl

end Ranges

/-! ## §3. Overlapping ranges. -/

section Overlap

variable {w : ℕ} {dst src size : BitVec w}

/-- **The bytes at `src` are at `dst`**, as they were before, and no other byte has changed. -/
structure Moved (m m' : Memory) (dst src size : BitVec w) : Prop where
  moved : ∀ i < size, m'.byte (dst + i).toNat = m.byte (src + i).toNat
  kept : ∀ a, a < dst.toNat ∨ dst.toNat + size.toNat ≤ a → m'.byte a = m.byte a

/-- The `memmove` on numbers moves the bytes of the two ranges. -/
theorem moved_memmove (hdst : InSpace dst size) (hsrc : InSpace src size) (m : Memory) :
    Moved m (Libc.memmove m dst.toNat src.toNat size.toNat) dst src size where
  moved := by
    intro i hi
    rw [hdst.index hi, hsrc.index hi]
    exact byte_memmove_of_lt m (BitVec.lt_def.mp hi)
  kept := by
    intro a ha
    exact byte_memmove_other m ha

/-- **`memmove` is correct however the two ranges overlap**: it comes to an end, returns the
    destination and has moved the bytes, for every width of pointer and every size for which neither
    range wraps. -/
theorem memmove_moves (hdst : InSpace dst size) (hsrc : InSpace src size) (m : Memory) :
    ∃ m', (∀ rounds, size.toNat < rounds → memmove rounds m dst src size = some (dst, m'))
      ∧ Moved m m' dst src size := by
  refine ⟨Libc.memmove m dst.toNat src.toNat size.toNat, ?_, moved_memmove hdst hsrc m⟩
  intro rounds hrounds
  exact memmove_eq hdst hsrc hrounds m

/-- Memory that holds its own addresses. -/
def ramp : Memory := { byte := fun a => UInt8.ofNat a, accessed := [] }

/-- Four bytes moved up by one, over three of themselves. -/
theorem memmove_moves_overlap :
    ∃ m', (∀ rounds, (4 : BitVec 64).toNat < rounds →
        memmove rounds ramp (0x1001 : BitVec 64) 0x1000 4 = some (0x1001, m'))
      ∧ Moved ramp m' (0x1001 : BitVec 64) 0x1000 4 :=
  memmove_moves (by unfold InSpace; decide) (by unfold InSpace; decide) ramp

end Overlap

end Hippos.Libc.Machine
