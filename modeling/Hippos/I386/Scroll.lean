/-
  Hippos.I386.Scroll — what the i386 `terminal_scroll` does to the cells.

  The source pointer is two rows below the destination and the clearing loop stops one column early.
  Both are visible only in the content: the screen moves up by two rows, the second of them read
  from behind the buffer, and the last cell keeps what it had.

  The content is followed cell by cell.  The move is that of `memmove` on bytes, over 24 rows; the
  clearing loop is an induction on its columns; and what a scroll leaves in a cell is then a
  function of its index alone.

  Main results:
    * `cell_terminal_scroll` — the cells after a scroll.
    * `terminal_scroll_machine` — the move is the one the machine makes with 32-bit pointers.
    * `scrolled_up_iff` — when all this amounts to one row up.
-/
import Hippos.I386.Tty
import Hippos.Libc.Memmove

namespace Hippos.I386

open Hippos.Lib
open Hippos.Libc

/-! ## §1. Cells by content. -/

/-- Cell `i`, counted row by row from the top left corner. -/
def cell (t : Terminal) (i : ℕ) : UInt16 := t.memory.word16 (terminal_buffer + 2 * i)

/-- The character of a cell is its low byte. -/
def character (entry : UInt16) : UInt8 := entry.toUInt8

/-- Cells are read from memory alone. -/
theorem cell_congr {t t' : Terminal} (h : t.memory = t'.memory) (i : ℕ) : cell t i = cell t' i := by
  rw [cell, cell, h]

/-- A cell write writes one cell. -/
theorem cell_putentryat (t : Terminal) (c color : UInt8) {x y : UInt32} (hy : y.toNat ≤ 25)
    (hx : x.toNat ≤ 80) (i : ℕ) :
    cell (terminal_putentryat t c color x y) i
      = if i = y.toNat * 80 + x.toNat then vga_entry c color else cell t i := by
  show (t.memory.store16 (terminal_buffer + 2 * (y * VGA_WIDTH + x).toNat)
    (vga_entry c color)).word16 (terminal_buffer + 2 * i) = _
  rw [index_toNat hy hx]
  by_cases hi : i = y.toNat * 80 + x.toNat
  · rw [if_pos hi, hi, Memory.word16_store16]
  · rw [if_neg hi, Memory.word16_store16_other _ _ (by omega)]
    rfl

/-- The entry the clearing loop writes. -/
def blank : UInt16 := vga_entry 0x20 (vga_entry_color VGA_COLOR_BLACK VGA_COLOR_BLACK)

/-- It is a space. -/
theorem character_blank : character blank = 0x20 := by decide

/-- The clearing loop blanks the first `x` cells of the last row, and no others. -/
theorem cell_clear_last_line (t : Terminal) (x : ℕ) (hx : x ≤ 80) (i : ℕ) :
    cell (clear_last_line t x) i = if 1920 ≤ i ∧ i < 1920 + x then blank else cell t i := by
  induction x with
  | zero =>
    rw [clear_last_line, if_neg (by omega)]
  | succ x ih =>
    have hrow : (VGA_HEIGHT - 1).toNat = 24 := rfl
    have hcol : (UInt32.ofNat x).toNat = x := by
      rw [UInt32.toNat_ofNat']
      omega
    rw [clear_last_line, cell_putentryat _ _ _ (by omega) (by omega), hrow, hcol, ih (by omega)]
    by_cases hlast : i = 24 * 80 + x
    · -- the cell of this round
      rw [if_pos hlast, if_pos (by omega)]
      rfl
    · rw [if_neg hlast]
      by_cases hin : 1920 ≤ i ∧ i < 1920 + x
      · rw [if_pos hin, if_pos (by omega)]
      · rw [if_neg hin, if_neg (by omega)]

/-- Memory after `terminal_scroll`: the move, then the clearing loop. -/
theorem terminal_scroll_memory (t : Terminal) :
    (terminal_scroll t).memory
      = (clear_last_line
          { t with
            memory := memmove t.memory terminal_buffer (terminal_buffer + 2 * (2 * VGA_WIDTH).toNat)
              (VGA_WIDTH * (VGA_HEIGHT - 1) * 2).toNat }
          (VGA_WIDTH - 1).toNat).memory := rfl

/-- **The cells after `terminal_scroll`**: two rows up, then 79 blanks, then what there was.  The
    first 24 rows are read from row 2 on, so the last of these is read from behind the screen. -/
theorem cell_terminal_scroll (t : Terminal) (i : ℕ) :
    cell (terminal_scroll t) i
      = if i < 1920 then cell t (i + 160) else if i < 1999 then blank else cell t i := by
  have hcols : (VGA_WIDTH - 1).toNat = 79 := rfl
  have hrows : (2 * VGA_WIDTH).toNat = 160 := rfl
  have hbytes : (VGA_WIDTH * (VGA_HEIGHT - 1) * 2).toNat = 3840 := rfl
  rw [cell_congr (terminal_scroll_memory t)]
  -- the three constants stay symbols: they are the lengths of the loops
  generalize (VGA_WIDTH - 1).toNat = cols at hcols
  generalize (2 * VGA_WIDTH).toNat = rows at hrows
  generalize (VGA_WIDTH * (VGA_HEIGHT - 1) * 2).toNat = bytes at hbytes
  rw [cell_clear_last_line _ cols (by omega)]
  unfold cell
  dsimp only
  by_cases hrow : i < 1920
  · -- moved
    rw [if_neg (by omega), if_pos hrow]
    apply Memory.word16_congr
    intro j hj
    rw [Nat.add_assoc, byte_memmove_of_lt _ (by omega)]
    congr 1
    omega
  · rw [if_neg hrow]
    by_cases hclear : i < 1999
    · rw [if_pos (by omega), if_pos hclear]
    · -- neither moved nor cleared
      rw [if_neg (by omega), if_neg hclear]
      apply Memory.word16_congr
      intro j hj
      exact byte_memmove_other _ (by omega)

/-- **The move of `terminal_scroll` is the one the machine makes**, with 32-bit pointers.  The
    buffer at 0xB8000 and the two rows behind its start are constants, so that neither range wraps
    is a matter of computing. -/
theorem terminal_scroll_machine (t : Terminal) {rounds : ℕ}
    (hrounds : (VGA_WIDTH * (VGA_HEIGHT - 1) * 2).toNat < rounds) :
    ∃ memory,
      Machine.memmove rounds t.memory (BitVec.ofNat 32 terminal_buffer)
          (BitVec.ofNat 32 (terminal_buffer + 2 * (2 * VGA_WIDTH).toNat))
          (VGA_WIDTH * (VGA_HEIGHT - 1) * 2).toBitVec
        = some (BitVec.ofNat 32 terminal_buffer, memory)
      ∧ (terminal_scroll t).memory
        = (clear_last_line { t with memory := memory } (VGA_WIDTH - 1).toNat).memory := by
  have hdst : Machine.InSpace (BitVec.ofNat 32 terminal_buffer)
      (VGA_WIDTH * (VGA_HEIGHT - 1) * 2).toBitVec := by
    unfold Machine.InSpace
    decide
  have hsrc : Machine.InSpace (BitVec.ofNat 32 (terminal_buffer + 2 * (2 * VGA_WIDTH).toNat))
      (VGA_WIDTH * (VGA_HEIGHT - 1) * 2).toBitVec := by
    unfold Machine.InSpace
    decide
  have hto : (BitVec.ofNat 32 terminal_buffer).toNat = terminal_buffer := by decide
  have hfrom : (BitVec.ofNat 32 (terminal_buffer + 2 * (2 * VGA_WIDTH).toNat)).toNat
      = terminal_buffer + 2 * (2 * VGA_WIDTH).toNat := by decide
  have hmove := Machine.memmove_eq hdst hsrc hrounds t.memory
  rw [hto, hfrom, UInt32.toNat_toBitVec] at hmove
  exact ⟨_, hmove, terminal_scroll_memory t⟩

/-! ## §2. One row up. -/

/-- **The screen moved up by one row**, the cursor to the start of the last. -/
structure ScrolledUp (t t' : Terminal) : Prop where
  moved : ∀ r < VGA_HEIGHT.toNat - 1, ∀ c < VGA_WIDTH.toNat,
    cell t' (r * VGA_WIDTH.toNat + c) = cell t ((r + 1) * VGA_WIDTH.toNat + c)
  blanked : ∀ c < VGA_WIDTH.toNat,
    character (cell t' ((VGA_HEIGHT.toNat - 1) * VGA_WIDTH.toNat + c)) = 0x20
  row : t'.terminal_row = VGA_HEIGHT - 1
  column : t'.terminal_column = 0

/-- **The screen moves up by one row exactly when every row below the first equals the next**, with
    the memory behind the buffer as the row after the last, and the last cell is already blank.
    Then two rows up are one row up. -/
theorem scrolled_up_iff (t : Terminal) :
    ScrolledUp t (terminal_scroll t)
      ↔ (∀ i, 80 ≤ i → i < 2000 → cell t i = cell t (i + 80))
        ∧ character (cell t 1999) = 0x20 := by
  have hwidth : VGA_WIDTH.toNat = 80 := rfl
  have hheight : VGA_HEIGHT.toNat = 25 := rfl
  constructor
  · intro h
    refine ⟨?_, ?_⟩
    · -- cell `i` should have moved to `i - 80`, where `i + 80` went
      intro i hi hlt
      have hmoved := h.moved ((i - 80) / 80) (by omega) ((i - 80) % 80) (by omega)
      rw [cell_terminal_scroll, hwidth, if_pos (by omega)] at hmoved
      rw [show (i - 80) / 80 * 80 + (i - 80) % 80 + 160 = i + 80 by omega,
          show ((i - 80) / 80 + 1) * 80 + (i - 80) % 80 = i by omega] at hmoved
      exact hmoved.symm
    · have hlast := h.blanked 79 (by omega)
      rw [cell_terminal_scroll, hheight, hwidth, if_neg (by omega), if_neg (by omega)] at hlast
      exact hlast
  · intro hex
    obtain ⟨hrows, hlast⟩ := hex
    refine ⟨?_, ?_, rfl, rfl⟩
    -- what moved here is two rows below, and equal to what is one row below
    · intro r hr c hc
      rw [hheight] at hr
      rw [hwidth] at hc ⊢
      rw [cell_terminal_scroll, if_pos (by omega), hrows ((r + 1) * 80 + c) (by omega) (by omega)]
      congr 1
      omega
    · -- the loop clears all but the last column
      intro c hc
      rw [hwidth] at hc
      rw [cell_terminal_scroll, hheight, hwidth, if_neg (by omega)]
      by_cases hcol : c < 79
      · rw [if_pos (by omega)]
        exact character_blank
      · rw [if_neg (by omega)]
        obtain rfl : c = 79 := by omega
        exact hlast

/-- A blank screen with the letter A at the start of the second row. -/
def letter_screen : Terminal where
  terminal_row := 24
  terminal_column := 0
  terminal_color := 7
  memory :=
    { byte := fun a => if a = VGA_MEMORY + 160 then 0x41 else if a % 2 = 0 then 0x20 else 7
      accessed := [] }
  crtc := home_crtc

/-- The letter does not reach the first row: it is gone. -/
theorem letter_screen_loses_letter :
    cell letter_screen 80 = vga_entry 0x41 7
      ∧ cell (terminal_scroll letter_screen) 0 = vga_entry 0x20 7
      ∧ ¬ ScrolledUp letter_screen (terminal_scroll letter_screen) := by
  have hold : cell letter_screen 80 = vga_entry 0x41 7 := by decide
  have hnew : cell (terminal_scroll letter_screen) 0 = vga_entry 0x20 7 := by
    rw [cell_terminal_scroll, if_pos (by omega)]
    decide
  refine ⟨hold, hnew, ?_⟩
  intro h
  have hmoved := h.moved 0 (by decide) 0 (by decide)
  rw [Nat.zero_mul, Nat.add_zero, hnew] at hmoved
  have hcell : vga_entry 0x20 7 = cell letter_screen 80 := hmoved
  rw [hold] at hcell
  exact absurd hcell (by decide)

end Hippos.I386
