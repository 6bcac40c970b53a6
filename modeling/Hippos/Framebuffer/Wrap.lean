/-
  Hippos.Framebuffer.Wrap — the right margin against the newline.

  Both ways to the next line go through `next_line`, but the margin then tests whether the pen has
  arrived exactly at the bottom edge and, if so, goes back to the top, before the test that would
  have scrolled.  A line that is full on the last row of a screen that whole text lines fill
  therefore continues over the oldest text.

  The two paths are compared on cursor and screen.  Away from the bottom edge they are the same
  term.  On it one has gone to the top and the other has scrolled, and these agree only on a screen
  of a single text line, where a scroll ends on the first line too, and there only if what a scroll
  clears was blank before.

  Main results:
    * `scroll_keeps_iff_blank` — on a screen of one line a scroll changes nothing exactly when the
      screen is blank.
    * `edge_agrees_iff` — the two paths at the bottom edge.
    * `margin_iff_newline` — at every cursor a run reaches, when margin and newline agree.
-/
import Hippos.Framebuffer.Scroll

namespace Hippos.Framebuffer

open Hippos.Lib
open Hippos.Libc

/-- What is assumed of the renderer here: it moves the pen as `Advances` says, and the framebuffer
    stays the bootloader's. -/
structure Draws (ssfn_putc : Terminal → UInt32 → Terminal) : Prop extends Advances ssfn_putc where
  framebuffer : ∀ t c, (ssfn_putc t c).framebuffer = t.framebuffer

/-- **Same cursor, same screen**: the pen, and every byte of memory. -/
structure SameScreen (t t' : Terminal) : Prop where
  x : t.ssfn_dst.x = t'.ssfn_dst.x
  y : t.ssfn_dst.y = t'.ssfn_dst.y
  bytes : ∀ a, t.memory.byte a = t'.memory.byte a

/-- Every pixel that the clearing loops address is background already. -/
def Blank (t : Terminal) : Prop :=
  ∀ n < t.framebuffer.width.toNat * t.framebuffer.height.toNat,
    t.memory.word32 (t.framebuffer.address.toNat + 4 * n) = COLORS_BG

/-- Put the pen on line 0. -/
def to_top (t : Terminal) : Terminal := { t with ssfn_dst := { t.ssfn_dst with y := 0 } }

section Wrap

variable {ssfn_putc : Terminal → UInt32 → Terminal} {t : Terminal} {c : UInt8}

/-! ## §1. The two paths. -/

/-- A newline: the next line, or a scroll. -/
theorem putchar_newline (t : Terminal) :
    terminal_putchar ssfn_putc t newline
      = if (next_line t).ssfn_dst.y ≥ (next_line t).ssfn_dst.h then terminal_scroll (next_line t)
        else next_line t := by
  rw [terminal_putchar, putchar_advance, if_pos rfl]

/-- A glyph that reaches the margin: the next line, or the top, or a scroll. -/
theorem putchar_margin (hc : c ≠ newline)
    (hmargin : (ssfn_putc t c.toUInt32).ssfn_dst.x ≥ (ssfn_putc t c.toUInt32).ssfn_dst.w) :
    putchar_advance ssfn_putc t c
      = if (next_line (ssfn_putc t c.toUInt32)).ssfn_dst.y
            = (next_line (ssfn_putc t c.toUInt32)).ssfn_dst.h
        then to_top (next_line (ssfn_putc t c.toUInt32))
        else next_line (ssfn_putc t c.toUInt32) := by
  rw [putchar_advance, if_neg hc]
  -- the test for the bottom edge comes first
  dsimp only
  rw [if_pos hmargin]
  rfl

/-- Scrolling forgets the line the pen was on. -/
theorem terminal_scroll_to_top (t : Terminal) :
    terminal_scroll (to_top t) = terminal_scroll t := rfl

/-! ## §2. A screen of one text line. -/

/-- On such a screen everything the move writes is then cleared. -/
theorem scroll_one_line_memory
    (hline : (t.font_height.toNat : ℤ) = to_int t.framebuffer.height)
    (hroom : t.framebuffer.address.toNat
      + 4 * (t.framebuffer.width.toNat * t.framebuffer.height.toNat) ≤ 2 ^ 64) :
    ∃ src size, size ≤ 4 * (t.framebuffer.width.toNat * t.framebuffer.height.toNat)
      ∧ (terminal_scroll t).memory
        = (memmove t.memory t.framebuffer.address.toNat src size).fill32
            t.framebuffer.address.toNat COLORS_BG
            (t.framebuffer.width.toNat * t.framebuffer.height.toNat) := by
  have hfont : t.font_height.toNat < 256 := t.font_height.toNat_lt
  -- the height is the font height, up to a multiple of 2^32
  have hmod : t.framebuffer.height.toNat % 2 ^ 32 = t.font_height.toNat := by
    rw [to_int_eq] at hline
    split_ifs at hline <;> omega
  have hle : t.font_height.toUInt64 ≤ t.framebuffer.height := by
    rw [UInt64.le_iff_toNat_le, UInt8.toNat_toUInt64]
    omega
  have hlines : (t.framebuffer.height - t.font_height.toUInt64).toNat
      = t.framebuffer.height.toNat - t.font_height.toNat := by
    rw [UInt64.toNat_sub_of_le _ _ hle, UInt8.toNat_toUInt64]
  have hfrom : to_int (t.framebuffer.height - t.font_height.toUInt64) = ((0 : ℕ) : ℤ) := by
    have hzero : (t.framebuffer.height.toNat - t.font_height.toNat) % 2 ^ 32 = 0 := by omega
    rw [to_int_eq, hlines, hzero]
    rfl
  have hsize : (t.framebuffer.width * (t.framebuffer.height - t.font_height.toUInt64) * 4).toNat
      ≤ 4 * (t.framebuffer.width.toNat * t.framebuffer.height.toNat) := by
    have hfour : (4 : UInt64).toNat = 4 := rfl
    have hless : t.framebuffer.width.toNat
        * (t.framebuffer.height.toNat - t.font_height.toNat)
          ≤ t.framebuffer.width.toNat * t.framebuffer.height.toNat :=
      Nat.mul_le_mul_left _ (Nat.sub_le _ _)
    rw [UInt64.toNat_mul, UInt64.toNat_mul, hlines, hfour]
    omega
  refine ⟨(t.framebuffer.address
    + (t.font_height.toUInt64 * (t.framebuffer.pitch / 4) + 0) * 4).toNat, _, hsize, ?_⟩
  unfold terminal_scroll
  dsimp only
  rw [dst_address, hfrom, clear_from_eq hroom (Nat.zero_le _), Nat.zero_mul, Nat.mul_zero,
      Nat.add_zero, Nat.sub_zero, Nat.mul_comm t.framebuffer.height.toNat]

/-- **On a screen of one text line scrolling clears it**, and so changes nothing exactly when it was
    blank.  There is nothing to move on such a screen, and what is left of the call is a fill of all
    its words with the background. -/
theorem scroll_keeps_iff_blank (hline : (t.font_height.toNat : ℤ) = to_int t.framebuffer.height)
    (hroom : t.framebuffer.address.toNat
      + 4 * (t.framebuffer.width.toNat * t.framebuffer.height.toNat) ≤ 2 ^ 64) :
    (∀ a, t.memory.byte a = (terminal_scroll t).memory.byte a) ↔ Blank t := by
  obtain ⟨src, size, hsize, hmem⟩ := scroll_one_line_memory hline hroom
  rw [hmem]
  constructor
  · -- the fill is what is read
    intro h n hn
    rw [Memory.word32_congr fun i _ => h (t.framebuffer.address.toNat + 4 * n + i)]
    exact Memory.word32_fill32 _ _ _ hn
  · -- the move stays inside of what is filled
    intro hblank a
    refine (Memory.fill32_eq_of_words hblank ?_ a).symm
    intro b hb
    exact byte_memmove_other _ (by omega)

/-! ## §3. When they agree. -/

/-- On the bottom edge the margin goes to the top and the newline scrolls: the same only on a screen
    of one text line that is blank.  The cursors already tell the two apart on every screen with
    more lines than one. -/
theorem edge_agrees_iff (u : Terminal)
    (hinit : u.ssfn_dst.h = to_int u.framebuffer.height)
    (hroom : u.framebuffer.address.toNat
      + 4 * (u.framebuffer.width.toNat * u.framebuffer.height.toNat) ≤ 2 ^ 64) :
    SameScreen (to_top (next_line u)) (terminal_scroll (next_line u))
      ↔ u.ssfn_dst.h = u.font_height.toNat ∧ Blank u := by
  have htop : (to_top (next_line u)).ssfn_dst.y = 0 := rfl
  have hscroll : (terminal_scroll (next_line u)).ssfn_dst.y
      = u.ssfn_dst.h - u.font_height.toNat := rfl
  have hkeeps : u.ssfn_dst.h = u.font_height.toNat →
      ((∀ a, (to_top (next_line u)).memory.byte a
        = (terminal_scroll (next_line u)).memory.byte a) ↔ Blank u) := by
    intro hline
    refine scroll_keeps_iff_blank (t := next_line u) ?_ hroom
    show (u.font_height.toNat : ℤ) = to_int u.framebuffer.height
    rw [← hline, hinit]
  -- the cursors agree when the last line is the first
  constructor
  · intro h
    have hline := h.y
    rw [htop, hscroll] at hline
    exact ⟨by omega, (hkeeps (by omega)).mp h.bytes⟩
  · intro h
    obtain ⟨hline, hblank⟩ := h
    refine ⟨rfl, ?_, (hkeeps hline).mpr hblank⟩
    rw [htop, hscroll]
    omega

/-- Margin and newline agree on any terminal set up for its framebuffer exactly when the line does
    not end at the bottom edge, except on a screen of one text line that is blank, and on one
    without any height, where both scroll. -/
theorem margin_agrees_iff (hdraws : Draws ssfn_putc) (hc : c ≠ newline)
    (hmargin : (ssfn_putc t c.toUInt32).ssfn_dst.x ≥ (ssfn_putc t c.toUInt32).ssfn_dst.w)
    (hinit : t.ssfn_dst.h = to_int t.framebuffer.height)
    (hroom : t.framebuffer.address.toNat
      + 4 * (t.framebuffer.width.toNat * t.framebuffer.height.toNat) ≤ 2 ^ 64) :
    SameScreen (terminal_putchar ssfn_putc t c)
        (terminal_putchar ssfn_putc (ssfn_putc t c.toUInt32) newline)
      ↔ t.ssfn_dst.y + t.font_height.toNat ≠ t.ssfn_dst.h ∨ t.ssfn_dst.h ≤ 0
        ∨ (t.ssfn_dst.h = t.font_height.toNat ∧ Blank (ssfn_putc t c.toUInt32)) := by
  obtain ⟨glyph, hdst⟩ := hdraws.advance t c.toUInt32
  have hfont := hdraws.font_height t c.toUInt32
  have hfb := hdraws.framebuffer t c.toUInt32
  have hput : terminal_putchar ssfn_putc t c
      = if (putchar_advance ssfn_putc t c).ssfn_dst.y ≥ (putchar_advance ssfn_putc t c).ssfn_dst.h
        then terminal_scroll (putchar_advance ssfn_putc t c)
        else putchar_advance ssfn_putc t c := rfl
  rw [hput, putchar_margin hc hmargin, putchar_newline]
  -- what the renderer left
  generalize ssfn_putc t c.toUInt32 = u at hdst hfont hfb
  have hy : (next_line u).ssfn_dst.y = t.ssfn_dst.y + t.font_height.toNat := by
    show u.ssfn_dst.y + u.font_height.toNat = _
    rw [hdst, hfont]
  have hh : (next_line u).ssfn_dst.h = t.ssfn_dst.h := by
    show u.ssfn_dst.h = _
    rw [hdst]
  rw [hy, hh]
  by_cases hedge : t.ssfn_dst.y + t.font_height.toNat = t.ssfn_dst.h
  · have htop : (to_top (next_line u)).ssfn_dst.y = 0 := rfl
    have htoph : (to_top (next_line u)).ssfn_dst.h = t.ssfn_dst.h := hh
    rw [if_pos hedge, if_pos (ge_of_eq hedge), htop, htoph]
    by_cases hempty : t.ssfn_dst.h ≤ 0
    · -- no line at all: the top is past the end
      rw [if_pos hempty, terminal_scroll_to_top]
      exact ⟨fun _ => Or.inr (Or.inl hempty), fun _ => ⟨rfl, rfl, fun _ => rfl⟩⟩
    · have huh : u.ssfn_dst.h = t.ssfn_dst.h := hh
      rw [← hfb] at hinit hroom
      rw [if_neg hempty, edge_agrees_iff u (huh.trans hinit) hroom, huh, hfont]
      constructor
      · intro h
        exact Or.inr (Or.inr h)
      · intro h
        rcases h with h | h | h
        · exact absurd hedge h
        · exact absurd h hempty
        · exact h
  · -- the two paths are the same
    rw [if_neg hedge, hy, hh]
    exact ⟨fun _ => Or.inl hedge, fun _ => ⟨rfl, rfl, fun _ => rfl⟩⟩

/-- The terminal was set up for `fb`: it is the framebuffer of the terminal, and the pen knows its
    height as an `int`. -/
structure SetUp (fb : LimineFramebuffer) (t : Terminal) : Prop where
  framebuffer : t.framebuffer = fb
  height : t.ssfn_dst.h = to_int fb.height

/-- **One character leaves the terminal set up.** -/
theorem putchar_setUp (hdraws : Draws ssfn_putc) {fb : LimineFramebuffer} (t : Terminal)
    (c : UInt8) (h : SetUp fb t) : SetUp fb (terminal_putchar ssfn_putc t c) := by
  obtain ⟨glyph, hdst⟩ := hdraws.advance t c.toUInt32
  have hglyph : SetUp fb (ssfn_putc t c.toUInt32) := by
    refine ⟨(hdraws.framebuffer t c.toUInt32).trans h.framebuffer, ?_⟩
    rw [hdst]
    exact h.height
  have hadvance : SetUp fb (putchar_advance ssfn_putc t c) := by
    -- newline, margin at the edge, margin, and a plain glyph
    unfold putchar_advance
    dsimp only
    split_ifs
    · exact ⟨h.framebuffer, h.height⟩
    · exact ⟨hglyph.framebuffer, hglyph.height⟩
    · exact ⟨hglyph.framebuffer, hglyph.height⟩
    · exact hglyph
  unfold terminal_putchar
  dsimp only
  split_ifs
  · exact ⟨hadvance.framebuffer, hadvance.height⟩
  · exact hadvance

/-- So every run leaves it set up. -/
theorem run_setUp (hdraws : Draws ssfn_putc) (fb : LimineFramebuffer) (font_height : UInt8)
    (bg : UInt32) (byte : ℕ → UInt8) (calls : List Call) :
    SetUp fb (run ssfn_putc (Framebuffer.terminal_initialize fb font_height bg byte) calls) := by
  refine foldl_stays ?_ calls _ ⟨rfl, rfl⟩
  intro t call h
  have hwrite : ∀ data : List UInt8, SetUp fb (terminal_write ssfn_putc t data) :=
    fun data => foldl_stays (putchar_setUp hdraws) data t h
  cases call with
  | putchar c => exact putchar_setUp hdraws t c h
  | write data => exact hwrite data
  | writestring data => exact hwrite _

/-- **Margin and newline agree, at every cursor position a run reaches and whatever the screen
    shows, exactly when the line does not end at the bottom edge**, except on a screen of one text
    line that is blank, or of no height.  The framebuffer must not wrap around the address space;
    the height is compared as an `int`, so it is that of the framebuffer below 2^31. -/
theorem margin_iff_newline (hdraws : Draws ssfn_putc) (fb : LimineFramebuffer)
    (hroom : fb.address.toNat + 4 * (fb.width.toNat * fb.height.toNat) ≤ 2 ^ 64)
    (font_height : UInt8) (bg : UInt32) (byte : ℕ → UInt8) (calls : List Call)
    (screen : Memory) (hc : c ≠ newline)
    (ht : t = { run ssfn_putc (Framebuffer.terminal_initialize fb font_height bg byte) calls with
      memory := screen })
    (hmargin : (ssfn_putc t c.toUInt32).ssfn_dst.x ≥ (ssfn_putc t c.toUInt32).ssfn_dst.w) :
    SameScreen (terminal_putchar ssfn_putc t c)
        (terminal_putchar ssfn_putc (ssfn_putc t c.toUInt32) newline)
      ↔ t.ssfn_dst.y + t.font_height.toNat ≠ t.ssfn_dst.h ∨ t.ssfn_dst.h ≤ 0
        ∨ (t.ssfn_dst.h = t.font_height.toNat ∧ Blank (ssfn_putc t c.toUInt32)) := by
  obtain ⟨hfb, hheight⟩ := run_setUp hdraws fb font_height bg byte calls
  have hfb' : t.framebuffer = fb := by
    rw [ht]
    exact hfb
  have hinit : t.ssfn_dst.h = to_int t.framebuffer.height := by
    rw [hfb', ht]
    exact hheight
  -- the cursor of a run is all that is used of it
  rw [← hfb'] at hroom
  exact margin_agrees_iff hdraws hc hmargin hinit hroom

end Wrap

/-! ## §4. A full line on the last row. -/

/-- The renderer of the example draws nothing. -/
theorem fixed_width_draws : Draws fixed_width where
  toAdvances := fixed_width_advances
  framebuffer _ _ := rfl

/-- 640 x 480 with 32-bit pixels. -/
def vga_screen : LimineFramebuffer :=
  { address := 0xffff8000fd000000, width := 640, height := 480, pitch := 2560 }

/-- The screen after 29 newlines and a line of 79 letters. -/
def full_line : Terminal :=
  run fixed_width (Framebuffer.terminal_initialize vga_screen 16 COLORS_BG fun _ => 0)
    [Call.write (List.replicate 29 newline ++ List.replicate 79 0x41)]

/-- It is what a run leaves, with the memory that it leaves. -/
theorem full_line_memory : full_line
    = { run fixed_width (Framebuffer.terminal_initialize vga_screen 16 COLORS_BG fun _ => 0)
          [Call.write (List.replicate 29 newline ++ List.replicate 79 0x41)] with
        memory := full_line.memory } := by
  unfold full_line
  generalize run fixed_width _ _ = t
  rfl

/-- The condition for one more letter on that line. -/
theorem margin_iff_newline_full_line :
    SameScreen (terminal_putchar fixed_width full_line 0x41)
        (terminal_putchar fixed_width (fixed_width full_line 0x41) newline)
      ↔ full_line.ssfn_dst.y + full_line.font_height.toNat ≠ full_line.ssfn_dst.h
        ∨ full_line.ssfn_dst.h ≤ 0
        ∨ (full_line.ssfn_dst.h = full_line.font_height.toNat
          ∧ Blank (fixed_width full_line 0x41)) :=
  margin_iff_newline fixed_width_draws vga_screen (by decide) 16 COLORS_BG (fun _ => 0)
    [Call.write (List.replicate 29 newline ++ List.replicate 79 0x41)] full_line.memory (by decide)
    full_line_memory (by decide +kernel)

/-- The 80th letter of the last row puts the pen on the first row; a newline in its place scrolls
    and stays on the last. -/
theorem full_line_wraps_to_top :
    Draws fixed_width
      ∧ (fixed_width full_line 0x41).ssfn_dst.x ≥ (fixed_width full_line 0x41).ssfn_dst.w
      ∧ (terminal_putchar fixed_width full_line 0x41).ssfn_dst.y = 0
      ∧ (terminal_putchar fixed_width (fixed_width full_line 0x41) newline).ssfn_dst.y = 464
      ∧ ¬ SameScreen (terminal_putchar fixed_width full_line 0x41)
          (terminal_putchar fixed_width (fixed_width full_line 0x41) newline) := by
  have hwrap : (terminal_putchar fixed_width full_line 0x41).ssfn_dst.y = 0 := by decide +kernel
  have hnewline : (terminal_putchar fixed_width (fixed_width full_line 0x41) newline).ssfn_dst.y
      = 464 := by decide +kernel
  refine ⟨fixed_width_draws, by decide +kernel, hwrap, hnewline, ?_⟩
  intro h
  have hy := h.y
  rw [hwrap, hnewline] at hy
  exact absurd hy (by decide)

end Hippos.Framebuffer
