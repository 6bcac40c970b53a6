/-
  Hippos.I386.Tty — the VGA text terminal, `kernel/arch/i386/tty.c`.

  The screen is 80 x 25 cells of 16 bits at 0xB8000; the hardware cursor is two registers of the CRT
  controller.  `size_t` is 32 bits on this machine, so rows, columns and the cell index are
  `UInt32`.  Memory records every access, so that the cells a run touches can be compared with the
  cells there are.

  A terminal is `OnScreen` when all it touched are cells of the screen and both its own position and
  the hardware cursor are inside.  `terminal_putchar` keeps that for every character but one: a
  newline on the last row writes the cell below it before it looks whether there is a row, and the
  scroll that follows comes too late.  Such an access is never forgotten, so a run stays inside its
  screen as long as it meets the condition `CallKeepsRow` at each step, and no longer.

  Main results:
    * `hardware_cursor_setcursor` — the controller returns the position last set.
    * `putchar_advance_inside` — which characters keep the terminal inside.
    * `newline_outside` — what a newline on the last row touches.
    * `inside_iff_keepsRow` — over all runs of the interface, the exact condition.
-/
import Hippos.Libc.String
import Hippos.Lib.Reach

namespace Hippos.I386

open Hippos.Lib
open Hippos.Libc

/-- Cells of a row. -/
def VGA_WIDTH : UInt32 := 80
/-- Rows of the screen. -/
def VGA_HEIGHT : UInt32 := 25
/-- The address of the first cell. -/
def VGA_MEMORY : ℕ := 0xB8000

/-! ## §1. The CRT controller. -/

/-- The port that selects a register of the controller. -/
def TTY_COMMAND_PORT : UInt16 := 0x3D4
/-- The port of the register selected. -/
def TTY_DATA_PORT : UInt16 := 0x3D5
/-- The register of the upper half of the cursor position. -/
def TTY_HIGH_BYTE_COMMAND : UInt8 := 0x0E
/-- The register of the lower half. -/
def TTY_LOW_BYTE_COMMAND : UInt8 := 0x0F

/-- The CRT controller: the register selected, and the register file. -/
structure Crtc where
  index : UInt8
  reg : UInt8 → UInt8

namespace Crtc

/-- A byte written to one of the two ports: it selects a register, or is stored in the one
    selected. -/
def outb (d : Crtc) (port : UInt16) (val : UInt8) : Crtc :=
  if port = TTY_COMMAND_PORT then { d with index := val }
  else if port = TTY_DATA_PORT then
    { d with reg := fun r => if r = d.index then val else d.reg r }
  else d

/-- A byte read back; only the data port answers. -/
def inb (d : Crtc) (port : UInt16) : UInt8 := if port = TTY_DATA_PORT then d.reg d.index else 0

end Crtc

/-! ## §2. The terminal. -/

/-- Colour 0 of the palette. -/
def VGA_COLOR_BLACK : UInt8 := 0
/-- Colour 7 of the palette. -/
def VGA_COLOR_LIGHT_GREY : UInt8 := 7

/-- Foreground in the lower nibble of an attribute, background in the upper one. -/
def vga_entry_color (fg bg : UInt8) : UInt8 := fg ||| (bg <<< 4)

/-- A cell: the character and above it its attribute. -/
def vga_entry (uc color : UInt8) : UInt16 := uc.toUInt16 ||| (color.toUInt16 <<< 8)

/-- The static variables, memory and the controller.  `terminal_buffer` is `VGA_MEMORY` from
    `terminal_initialize` on, so it is no field. -/
structure Terminal where
  terminal_row : UInt32
  terminal_column : UInt32
  terminal_color : UInt8
  memory : Memory
  crtc : Crtc

/-- The pointer to the cells. -/
def terminal_buffer : ℕ := VGA_MEMORY

/-- Both halves of the position go to their registers, the lower one first.  The position is cut to
    16 bits. -/
def terminal_setcursor (t : Terminal) (x y : UInt32) : Terminal :=
  let index : UInt16 := (y * VGA_WIDTH + x).toUInt16
  { t with
    crtc := (((t.crtc.outb TTY_COMMAND_PORT TTY_LOW_BYTE_COMMAND).outb TTY_DATA_PORT
      (index &&& 0xFF).toUInt8).outb TTY_COMMAND_PORT TTY_HIGH_BYTE_COMMAND).outb TTY_DATA_PORT
      (index >>> 8 &&& 0xFF).toUInt8 }

/-- Both halves are read back, in the same order. -/
def terminal_getcursor (t : Terminal) : UInt16 × Terminal :=
  let low := t.crtc.outb TTY_COMMAND_PORT TTY_LOW_BYTE_COMMAND
  let high := low.outb TTY_COMMAND_PORT TTY_HIGH_BYTE_COMMAND
  ((low.inb TTY_DATA_PORT).toUInt16 ||| ((high.inb TTY_DATA_PORT).toUInt16 <<< 8),
    { t with crtc := high })

/-- The inner loop of `terminal_initialize`: the first `x` cells of row `y`. -/
def fill_row (entry : UInt16) (y : ℕ) (m : Memory) : (x : ℕ) → Memory
  | 0 => m
  | x + 1 =>
    (fill_row entry y m x).store16 (terminal_buffer + 2 * (y * VGA_WIDTH.toNat + x)) entry

/-- The outer loop: the first `y` rows. -/
def fill_rows (entry : UInt16) (m : Memory) : (y : ℕ) → Memory
  | 0 => m
  | y + 1 => fill_row entry y (fill_rows entry m y) VGA_WIDTH.toNat

/-- `terminal_initialize`, with whatever memory and the controller hold.  The hardware cursor is
    left where it is. -/
def terminal_initialize (byte : ℕ → UInt8) (crtc : Crtc) : Terminal :=
  let terminal_color := vga_entry_color VGA_COLOR_LIGHT_GREY VGA_COLOR_BLACK
  { terminal_row := 0
    terminal_column := 0
    terminal_color := terminal_color
    memory := fill_rows (vga_entry 0x20 terminal_color) { byte := byte, accessed := [] }
      VGA_HEIGHT.toNat
    crtc := crtc }

/-- A cell is written where the index says, without a look at the size of the screen. -/
def terminal_putentryat (t : Terminal) (c color : UInt8) (x y : UInt32) : Terminal :=
  let index := y * VGA_WIDTH + x
  { t with memory := t.memory.store16 (terminal_buffer + 2 * index.toNat) (vga_entry c color) }

/-- The clearing loop of `terminal_scroll`, the first `x` columns. -/
def clear_last_line (t : Terminal) : (x : ℕ) → Terminal
  | 0 => t
  | x + 1 => terminal_putentryat (clear_last_line t x) 0x20
      (vga_entry_color VGA_COLOR_BLACK VGA_COLOR_BLACK) (UInt32.ofNat x) (VGA_HEIGHT - 1)

/-- The pointer arithmetic is on 16-bit cells, the size in bytes: `2 * VGA_WIDTH` cells are two
    rows, and the size is that of 24.  The loop stops one column short. -/
def terminal_scroll (t : Terminal) : Terminal :=
  -- from row 2 on, up to row 0
  let t := { t with
    memory := memmove t.memory terminal_buffer (terminal_buffer + 2 * (2 * VGA_WIDTH).toNat)
      (VGA_WIDTH * (VGA_HEIGHT - 1) * 2).toNat }
  let t := clear_last_line t (VGA_WIDTH - 1).toNat
  let t := { t with terminal_row := VGA_HEIGHT - 1, terminal_column := 0 }
  terminal_setcursor t t.terminal_column t.terminal_row

/-- `'\n'`. -/
def newline : UInt8 := 0x0A

/-- `terminal_putchar` up to its bounds check: the character is written and the position moved. -/
def putchar_advance (t : Terminal) (c : UInt8) : Terminal :=
  if c = newline then
    let t := { t with terminal_column := 0, terminal_row := t.terminal_row + 1 }
    -- the cell below, which need not be on the screen
    let t := terminal_putentryat t 0x20 t.terminal_color t.terminal_column t.terminal_row
    terminal_setcursor t t.terminal_column t.terminal_row
  else
    let t := terminal_putentryat t c t.terminal_color t.terminal_column t.terminal_row
    let t := terminal_setcursor t (t.terminal_column + 1) t.terminal_row
    let t := { t with terminal_column := t.terminal_column + 1 }
    if t.terminal_column = VGA_WIDTH then
      let t := { t with terminal_column := 0, terminal_row := t.terminal_row + 1 }
      -- a full last row goes on at the top, without a scroll
      if t.terminal_row = VGA_HEIGHT then { t with terminal_row := 0 } else t
    else t

/-- A row below the screen is scrolled away, after the cell in it has been written. -/
def terminal_putchar (t : Terminal) (c : UInt8) : Terminal :=
  let t := putchar_advance t c
  let t := if t.terminal_row ≥ VGA_HEIGHT then terminal_scroll t else t
  terminal_setcursor t t.terminal_column t.terminal_row

/-- `data` holds the first `size` bytes. -/
def terminal_write (t : Terminal) (data : List UInt8) : Terminal := data.foldl terminal_putchar t

/-- The first two lines of `terminal_writestring`: the position comes from the hardware. -/
def fetch_cursor (t : Terminal) : Terminal :=
  let (pos, t) := terminal_getcursor t
  { t with
    terminal_row := pos.toUInt32 / VGA_WIDTH
    terminal_column := pos.toUInt32 % VGA_WIDTH }

/-- A string is written from the hardware cursor on, which follows at the end. -/
def terminal_writestring (t : Terminal) (data : List UInt8) : Terminal :=
  let t := terminal_write (fetch_cursor t) (data.take (strlen data))
  terminal_setcursor t t.terminal_column t.terminal_row

/-- A call of the terminal's interface. -/
inductive Call where
  | putchar (c : UInt8)
  | write (data : List UInt8)
  | writestring (data : List UInt8)
  deriving Repr, DecidableEq

/-- What a call does. -/
def Call.run (t : Terminal) : Call → Terminal
  | .putchar c => terminal_putchar t c
  | .write data => terminal_write t data
  | .writestring data => terminal_writestring t data

/-- A sequence of calls, from the left. -/
def run (t : Terminal) (calls : List Call) : Terminal := calls.foldl Call.run t

/-! ## §3. The hardware cursor. -/

/-- The position the controller holds. -/
def hardware_cursor (t : Terminal) : UInt16 := (terminal_getcursor t).1

/-- Two bytes written to the two registers read back as the word they came from. -/
theorem halves_join (i : UInt16) :
    (i &&& 0xFF).toUInt8.toUInt16 ||| ((i >>> 8 &&& 0xFF).toUInt8.toUInt16 <<< 8) = i := by
  have hi := i.toNat_lt
  rw [← UInt16.toNat_inj, UInt16.or_comm, join_bytes_toNat, masked_byte_toNat, masked_byte_toNat,
      UInt16.toNat_shiftRight]
  simp only [UInt16.reduceToNat, Nat.shiftRight_eq_div_pow, Nat.reduceMod, Nat.reducePow]
  omega

/-- **The controller returns the position last set.**  Its two halves go through one pair of ports,
    each behind a command byte that selects the register; reading selects both again, so no other
    access in between matters. -/
theorem hardware_cursor_setcursor (t : Terminal) (x y : UInt32) :
    hardware_cursor (terminal_setcursor t x y) = (y * VGA_WIDTH + x).toUInt16 := by
  rw [← halves_join (y * VGA_WIDTH + x).toUInt16]
  simp [hardware_cursor, terminal_getcursor, terminal_setcursor, Crtc.outb, Crtc.inb,
    TTY_COMMAND_PORT, TTY_DATA_PORT, TTY_LOW_BYTE_COMMAND, TTY_HIGH_BYTE_COMMAND]

/-- Reading the position does not move it. -/
theorem hardware_cursor_fetch (t : Terminal) :
    hardware_cursor (fetch_cursor t) = hardware_cursor t := by
  simp [hardware_cursor, fetch_cursor, terminal_getcursor, Crtc.outb, Crtc.inb,
    TTY_COMMAND_PORT, TTY_DATA_PORT, TTY_LOW_BYTE_COMMAND, TTY_HIGH_BYTE_COMMAND]

/-- The cursor is no memory. -/
@[simp] theorem setcursor_memory (t : Terminal) (x y : UInt32) :
    (terminal_setcursor t x y).memory = t.memory := rfl

/-! ## §4. Cells. -/

/-- The byte belongs to a cell of the screen. -/
def InBuffer (a : ℕ) : Prop :=
  VGA_MEMORY ≤ a ∧ (a - VGA_MEMORY) / 2 < (VGA_WIDTH * VGA_HEIGHT).toNat

/-- **The terminal is inside its screen**: so are all cells it touched, and the position. -/
structure Inside (t : Terminal) : Prop where
  cells : ∀ a ∈ t.memory.accessed, InBuffer a
  row : t.terminal_row < VGA_HEIGHT
  column : t.terminal_column < VGA_WIDTH

/-- `Inside`, and the hardware cursor is too, from where the next `terminal_writestring` starts. -/
structure OnScreen (t : Terminal) : Prop extends Inside t where
  cursor : (hardware_cursor t).toNat < (VGA_WIDTH * VGA_HEIGHT).toNat

/-- 2000 cells. -/
theorem cell_count : (VGA_WIDTH * VGA_HEIGHT).toNat = 2000 := rfl

/-- The 32-bit index of a cell on the screen, or just below it, does not wrap. -/
theorem index_toNat {x y : UInt32} (hy : y.toNat ≤ 25) (hx : x.toNat ≤ 80) :
    (y * VGA_WIDTH + x).toNat = y.toNat * 80 + x.toNat := by
  rw [UInt32.toNat_add, UInt32.toNat_mul]
  simp only [VGA_WIDTH, UInt32.reduceToNat]
  omega

/-- A cell write touches the two bytes of the cell. -/
theorem putentryat_accessed (t : Terminal) (c color : UInt8) {x y : UInt32} (hy : y.toNat ≤ 25)
    (hx : x.toNat ≤ 80) :
    (terminal_putentryat t c color x y).memory.accessed
      = (VGA_MEMORY + 2 * (y.toNat * 80 + x.toNat) + 1)
        :: (VGA_MEMORY + 2 * (y.toNat * 80 + x.toNat)) :: t.memory.accessed := by
  rw [← index_toNat hy hx]
  rfl

/-- A cell of the screen is inside it. -/
theorem putentryat_inside {t : Terminal} (h : ∀ a ∈ t.memory.accessed, InBuffer a) (c color : UInt8)
    {x y : UInt32} (hy : y < VGA_HEIGHT) (hx : x < VGA_WIDTH) :
    ∀ a ∈ (terminal_putentryat t c color x y).memory.accessed, InBuffer a := by
  rw [UInt32.lt_iff_toNat_lt] at hx hy
  simp only [VGA_HEIGHT, VGA_WIDTH, UInt32.reduceToNat] at hx hy
  intro a ha
  rw [putentryat_accessed t c color (by omega) (by omega), List.mem_cons, List.mem_cons] at ha
  unfold InBuffer
  rw [cell_count]
  -- the two bytes of the cell, or an earlier access
  rcases ha with rfl | rfl | ha
  · omega
  · omega
  · exact h a ha

/-- Setting the hardware cursor to the position makes the terminal consistent. -/
theorem Inside.setcursor {t : Terminal} (h : Inside t) :
    OnScreen (terminal_setcursor t t.terminal_column t.terminal_row) where
  cells := h.cells
  row := h.row
  column := h.column
  cursor := by
    have hx := h.column
    have hy := h.row
    rw [UInt32.lt_iff_toNat_lt] at hx hy
    simp only [VGA_HEIGHT, VGA_WIDTH, UInt32.reduceToNat] at hx hy
    have hlt : t.terminal_row.toNat * 80 + t.terminal_column.toNat < 2000 := by omega
    rw [hardware_cursor_setcursor, UInt32.toNat_toUInt16, index_toNat (by omega) (by omega),
        cell_count, Nat.mod_eq_of_lt (by omega)]
    exact hlt

/-- Fetching the hardware cursor keeps the terminal on screen. -/
theorem OnScreen.fetch {t : Terminal} (h : OnScreen t) : OnScreen (fetch_cursor t) := by
  have hpos := h.cursor
  rw [cell_count] at hpos
  have hrow : (fetch_cursor t).terminal_row = (hardware_cursor t).toUInt32 / VGA_WIDTH := rfl
  have hcol : (fetch_cursor t).terminal_column = (hardware_cursor t).toUInt32 % VGA_WIDTH := rfl
  -- a position below 2000 splits into a row below 25 and a column below 80
  refine ⟨⟨h.cells, ?_, ?_⟩, ?_⟩
  · rw [hrow, UInt32.lt_iff_toNat_lt, UInt32.toNat_div, UInt16.toNat_toUInt32]
    simp only [VGA_HEIGHT, VGA_WIDTH, UInt32.reduceToNat]
    omega
  · rw [hcol, UInt32.lt_iff_toNat_lt, UInt32.toNat_mod, UInt16.toNat_toUInt32]
    simp only [VGA_WIDTH, UInt32.reduceToNat]
    omega
  · rw [hardware_cursor_fetch, cell_count]
    exact hpos

/-! ## §5. One character. -/

/-- **A character printed before the last row, or any but a newline on it, stays inside.**  The
    newline on the last row is the one way out: it blanks the cell below the cursor, which is then
    below the screen, before `terminal_putchar` looks at the row. -/
theorem putchar_advance_inside {t : Terminal} (h : Inside t) {c : UInt8}
    (hc : c = newline → t.terminal_row ≠ VGA_HEIGHT - 1) : Inside (putchar_advance t c) := by
  have hx := h.column
  have hy := h.row
  rw [UInt32.lt_iff_toNat_lt] at hx hy
  simp only [VGA_HEIGHT, VGA_WIDTH, UInt32.reduceToNat] at hx hy
  have hzero : (0 : UInt32) < VGA_WIDTH := by decide
  have htop : (0 : UInt32) < VGA_HEIGHT := by decide
  unfold putchar_advance
  dsimp only [terminal_setcursor, terminal_putentryat]
  split_ifs with hn hwrap hlast
  · -- newline: the row below is still on the screen
    have hne := hc hn
    rw [ne_eq, ← UInt32.toNat_inj] at hne
    have hrow : t.terminal_row + 1 < VGA_HEIGHT := by
      rw [UInt32.lt_iff_toNat_lt, UInt32.toNat_add]
      simp only [VGA_HEIGHT, UInt32.reduceToNat] at hne ⊢
      have h24 : (25 - 1 : UInt32).toNat = 24 := rfl
      omega
    exact ⟨putentryat_inside h.cells _ _ hrow hzero, hrow, hzero⟩
  · -- wrap on the last row: back to the top
    exact ⟨putentryat_inside h.cells _ _ h.row h.column, htop, hzero⟩
  · -- wrap above the last row
    have hne : t.terminal_row + 1 ≠ VGA_HEIGHT := hlast
    refine ⟨putentryat_inside h.cells _ _ h.row h.column, ?_, hzero⟩
    show t.terminal_row + 1 < VGA_HEIGHT
    rw [ne_eq, ← UInt32.toNat_inj, UInt32.toNat_add] at hne
    rw [UInt32.lt_iff_toNat_lt, UInt32.toNat_add]
    simp only [VGA_HEIGHT, UInt32.reduceToNat] at hne ⊢
    omega
  · -- one column to the right
    have hne : t.terminal_column + 1 ≠ VGA_WIDTH := hwrap
    refine ⟨putentryat_inside h.cells _ _ h.row h.column, h.row, ?_⟩
    show t.terminal_column + 1 < VGA_WIDTH
    rw [ne_eq, ← UInt32.toNat_inj, UInt32.toNat_add] at hne
    rw [UInt32.lt_iff_toNat_lt, UInt32.toNat_add]
    simp only [VGA_WIDTH, UInt32.reduceToNat] at hne ⊢
    omega

/-- What keeps the terminal inside needs no scroll, and the hardware cursor follows. -/
theorem putchar_onScreen {t : Terminal} (h : Inside t) {c : UInt8}
    (hc : c = newline → t.terminal_row ≠ VGA_HEIGHT - 1) : OnScreen (terminal_putchar t c) := by
  have hadv := putchar_advance_inside h hc
  unfold terminal_putchar
  dsimp only
  rw [if_neg (UInt32.not_le.mpr hadv.row)]
  exact hadv.setcursor

/-! ## §6. Accesses are never forgotten. -/

/-- The clearing loop drops no access. -/
theorem clear_accessed (t : Terminal) (x : ℕ) :
    ∀ a ∈ t.memory.accessed, a ∈ (clear_last_line t x).memory.accessed := by
  induction x with
  | zero => exact fun a ha => ha
  | succ x ih =>
    intro a ha
    rw [clear_last_line]
    exact List.mem_cons_of_mem _ (List.mem_cons_of_mem _ (ih a ha))

/-- Nor does a scroll. -/
theorem scroll_accessed (t : Terminal) :
    ∀ a ∈ t.memory.accessed, a ∈ (terminal_scroll t).memory.accessed := by
  intro a ha
  unfold terminal_scroll
  dsimp only
  rw [setcursor_memory]
  -- neither the move nor the clearing loop drops an access
  apply clear_accessed _ _ a
  rw [mem_memmove_accessed]
  exact Or.inl ha

/-- Nor does a character. -/
theorem advance_accessed (t : Terminal) (c : UInt8) :
    ∀ a ∈ t.memory.accessed, a ∈ (putchar_advance t c).memory.accessed := by
  intro a ha
  unfold putchar_advance
  dsimp only [terminal_setcursor, terminal_putentryat]
  split_ifs <;> exact List.mem_cons_of_mem _ (List.mem_cons_of_mem _ ha)

/-- What `putchar_advance` touched stays touched through a scroll. -/
theorem putchar_of_advance {t : Terminal} {c : UInt8} {a : ℕ}
    (h : a ∈ (putchar_advance t c).memory.accessed) :
    a ∈ (terminal_putchar t c).memory.accessed := by
  unfold terminal_putchar
  dsimp only
  rw [setcursor_memory]
  split_ifs
  · exact scroll_accessed _ a h
  · exact h

/-- So no call of `terminal_putchar` forgets what was touched. -/
theorem putchar_accessed (t : Terminal) (c : UInt8) :
    ∀ a ∈ t.memory.accessed, a ∈ (terminal_putchar t c).memory.accessed :=
  fun a ha => putchar_of_advance (advance_accessed t c a ha)

/-- **A newline on the last row writes the cell after the last one.**  The row counter is 25 by
    then, and the scroll that brings it back comes after the write. -/
theorem newline_outside {t : Terminal} (h : t.terminal_row = VGA_HEIGHT - 1) :
    VGA_MEMORY + 2 * 2000 ∈ (terminal_putchar t newline).memory.accessed := by
  have hrow : (t.terminal_row + 1).toNat = 25 := by rw [h]; rfl
  apply putchar_of_advance
  unfold putchar_advance
  rw [if_pos rfl]
  dsimp only
  rw [setcursor_memory, putentryat_accessed _ _ _ (by omega) (by simp), hrow]
  exact List.mem_cons_of_mem _ List.mem_cons_self

/-- The byte behind the last cell is not in the buffer. -/
theorem outside_of_mem {t : Terminal} (h : VGA_MEMORY + 2 * 2000 ∈ t.memory.accessed) :
    ¬ Inside t := by
  intro hin
  have hbuf := hin.cells _ h
  unfold InBuffer at hbuf
  rw [cell_count] at hbuf
  omega

/-! ## §7. Runs. -/

/-- No newline is printed on the last row: the condition on one character, in the state it meets. -/
def KeepsRow (t : Terminal) (c : UInt8) : Prop :=
  c = newline → t.terminal_row ≠ VGA_HEIGHT - 1

/-- The condition on a call: every character it prints meets it where it is printed.  A string
    starts where the hardware cursor is. -/
def CallKeepsRow (t : Terminal) : Call → Prop
  | .putchar c => KeepsRow t c
  | .write data => Guarded terminal_putchar KeepsRow t data
  | .writestring data =>
    Guarded terminal_putchar KeepsRow (fetch_cursor t) (data.take (strlen data))

/-- The cell after the last one has been touched. -/
def Escaped (t : Terminal) : Prop := VGA_MEMORY + 2 * 2000 ∈ t.memory.accessed

/-- A character that misses the condition touches it. -/
theorem putchar_escapes (t : Terminal) (c : UInt8) (h : ¬ KeepsRow t c) :
    Escaped (terminal_putchar t c) := by
  unfold KeepsRow at h
  push Not at h
  obtain ⟨rfl, hrow⟩ := h
  exact newline_outside hrow

/-- A write whose characters all meet the condition stays on screen, by induction on them. -/
theorem write_onScreen {t : Terminal} (h : OnScreen t) {data : List UInt8}
    (hg : Guarded terminal_putchar KeepsRow t data) : OnScreen (terminal_write t data) :=
  foldl_invariant (fun _ _ h hc => putchar_onScreen h.toInside hc) data t h hg

/-- Once touched, always touched. -/
theorem write_stays_escaped {t : Terminal} (h : Escaped t) (data : List UInt8) :
    Escaped (terminal_write t data) :=
  foldl_stays (fun t c h => putchar_accessed t c _ h) data t h

/-- One character that misses the condition is enough. -/
theorem write_escapes {t : Terminal} {data : List UInt8}
    (hg : ¬ Guarded terminal_putchar KeepsRow t data) : Escaped (terminal_write t data) :=
  foldl_violates (fun t c h => putchar_accessed t c _ h) putchar_escapes data t hg

/-- A call that meets the condition stays on screen. -/
theorem call_onScreen (t : Terminal) (call : Call) (h : OnScreen t) (hc : CallKeepsRow t call) :
    OnScreen (call.run t) := by
  cases call with
  | putchar c => exact putchar_onScreen h.toInside hc
  | write data => exact write_onScreen h hc
  | writestring data => exact (write_onScreen h.fetch hc).toInside.setcursor

/-- No call forgets. -/
theorem call_stays_escaped (t : Terminal) (call : Call) (h : Escaped t) :
    Escaped (call.run t) := by
  cases call with
  | putchar c => exact putchar_accessed t c _ h
  | write data => exact write_stays_escaped h data
  | writestring data =>
    have hfetch : Escaped (fetch_cursor t) := h
    exact write_stays_escaped hfetch _

/-- A call that does not meet it escapes. -/
theorem call_escapes (t : Terminal) (call : Call) (h : ¬ CallKeepsRow t call) :
    Escaped (call.run t) := by
  cases call with
  | putchar c => exact putchar_escapes t c h
  | write data => exact write_escapes h
  | writestring data =>
    have hwrite : Escaped (terminal_write (fetch_cursor t) (data.take (strlen data))) :=
      write_escapes h
    exact hwrite

/-! ## §8. From `terminal_initialize` on. -/

/-- The inner loop of `terminal_initialize` touches the cells of its row. -/
theorem mem_fill_row (entry : UInt16) (y : ℕ) (m : Memory) (x a : ℕ) :
    a ∈ (fill_row entry y m x).accessed → a ∈ m.accessed
      ∨ ∃ j < x, a = VGA_MEMORY + 2 * (y * 80 + j) ∨ a = VGA_MEMORY + 2 * (y * 80 + j) + 1 := by
  induction x with
  | zero => exact Or.inl
  | succ x ih =>
    intro h
    rw [fill_row, Memory.store16_accessed, List.mem_cons, List.mem_cons] at h
    rcases h with h | h | h
    · exact Or.inr ⟨x, Nat.lt_succ_self x, Or.inr h⟩
    · exact Or.inr ⟨x, Nat.lt_succ_self x, Or.inl h⟩
    · exact (ih h).imp_right fun ⟨j, hj, hor⟩ => ⟨j, by omega, hor⟩

/-- Both loops stay on the screen. -/
theorem fill_rows_inBuffer (entry : UInt16) (m : Memory) (y : ℕ) (hy : y ≤ 25)
    (h : ∀ a ∈ m.accessed, InBuffer a) : ∀ a ∈ (fill_rows entry m y).accessed, InBuffer a := by
  induction y with
  | zero => exact h
  | succ y ih =>
    intro a ha
    -- an earlier row, or a cell of this one
    rcases mem_fill_row entry y _ _ a ha with ha | ⟨j, hj, ha⟩
    · exact ih (by omega) a ha
    · have hj80 : j < 80 := hj
      unfold InBuffer
      rw [cell_count]
      omega

/-- `terminal_initialize` leaves the terminal on screen if the firmware left the cursor there. -/
theorem initialize_onScreen (byte : ℕ → UInt8) (crtc : Crtc)
    (h : (hardware_cursor (I386.terminal_initialize byte crtc)).toNat
      < (VGA_WIDTH * VGA_HEIGHT).toNat) : OnScreen (I386.terminal_initialize byte crtc) where
  cells := by
    apply fill_rows_inBuffer _ _ _ (Nat.le_refl 25)
    intro a ha
    exact absurd ha List.not_mem_nil
  row := by
    show (0 : UInt32) < VGA_HEIGHT
    decide
  column := by
    show (0 : UInt32) < VGA_WIDTH
    decide
  cursor := h

/-- **The terminal stays inside its screen exactly as long as no newline is printed on the last
    row.**  From `terminal_initialize` on, over every sequence of calls; the cursor the firmware
    left has to be on the screen, since `terminal_writestring` starts from it. -/
theorem inside_iff_keepsRow (byte : ℕ → UInt8) (crtc : Crtc)
    (hcursor : (hardware_cursor (I386.terminal_initialize byte crtc)).toNat
      < (VGA_WIDTH * VGA_HEIGHT).toNat) (calls : List Call) :
    (∀ done, done <+: calls → Inside (run (I386.terminal_initialize byte crtc) done))
      ↔ Guarded Call.run CallKeepsRow (I386.terminal_initialize byte crtc) calls := by
  constructor
  · intro h
    -- a newline on the last row leaves a trace for good
    by_contra hg
    exact outside_of_mem (foldl_violates call_stays_escaped call_escapes calls _ hg)
      (h calls List.prefix_rfl)
  · intro hg done hex
    obtain ⟨rest, rfl⟩ := hex
    rw [guarded_append] at hg
    -- a part of a run that meets the condition meets it
    exact (foldl_invariant call_onScreen done _ (initialize_onScreen byte crtc hcursor)
      hg.1).toInside

/-- A controller with both cursor registers zero. -/
def home_crtc : Crtc := { index := 0, reg := fun _ => 0 }

/-- Position 0 is on the screen. -/
theorem home_cursor :
    (hardware_cursor (I386.terminal_initialize (fun _ => 0) home_crtc)).toNat
      < (VGA_WIDTH * VGA_HEIGHT).toNat := by decide +kernel

/-- A run of one character, from a cursor in the top left corner. -/
theorem inside_iff_keepsRow_home :
    (∀ done, done <+: [Call.putchar 0x41] →
        Inside (run (I386.terminal_initialize (fun _ => 0) home_crtc) done))
      ↔ Guarded Call.run CallKeepsRow (I386.terminal_initialize (fun _ => 0) home_crtc)
          [Call.putchar 0x41] :=
  inside_iff_keepsRow (fun _ => 0) home_crtc home_cursor [Call.putchar 0x41]

/-- The last call of a run is the last to act. -/
theorem run_putchar (t : Terminal) (calls : List Call) (c : UInt8) :
    run t (calls ++ [Call.putchar c]) = terminal_putchar (run t calls) c := by
  rw [run, List.foldl_append]
  rfl

/-- Twenty-five newlines from the top: the last one writes cell 2000. -/
theorem newlines_leave_screen :
    (hardware_cursor (I386.terminal_initialize (fun _ => 0) home_crtc)).toNat
        < (VGA_WIDTH * VGA_HEIGHT).toNat
      ∧ ¬ Inside (run (I386.terminal_initialize (fun _ => 0) home_crtc)
          ([Call.write (List.replicate 24 newline)] ++ [Call.putchar newline])) := by
  have hrow : (run (I386.terminal_initialize (fun _ => 0) home_crtc)
      [Call.write (List.replicate 24 newline)]).terminal_row = VGA_HEIGHT - 1 := by
    decide +kernel
  refine ⟨home_cursor, ?_⟩
  rw [run_putchar]
  exact outside_of_mem (newline_outside hrow)

end Hippos.I386
