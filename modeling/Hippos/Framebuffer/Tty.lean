/-
  Hippos.Framebuffer.Tty — the graphical terminal, `arch/x86_64/framebuffer/tty.c`.

  The pen position lives in `ssfn_dst`, whose size fields are `int`; the framebuffer's own fields
  are 64-bit.  The glyph renderer `ssfn_putc` is a parameter: of it the cursor results use only that
  it advances `x` and leaves the rest of `ssfn_dst` alone.  Signed arithmetic is exact, since C
  leaves its overflow undefined.

  The cursor results are about lines of text.  `OnGrid` is the invariant: the pen is on the grid of
  lines of the font's height, and the last of these lines ends with the screen.  A newline, a full
  line and a scroll each keep it, and for that the height of the screen has to be a multiple of the
  height of a line.  Where it is not, as many newlines as whole lines fit put the pen on a line that
  the screen cuts off.

  Main results:
    * `putchar_onGrid` — one character keeps the cursor on the grid.
    * `newlines_y` — newlines count lines until they reach the end of the screen.
    * `visible_iff` — when the cursor is on a visible line in every run.
-/
import Hippos.Libc.String
import Hippos.Lib.Reach
import Mathlib.Data.Int.Notation

namespace Hippos.Framebuffer

open Hippos.Lib
open Hippos.Libc

/-- The colour of text. -/
def COLORS_TEXT_FG : UInt32 := 0xF0F6FC
/-- The colour of the background. -/
def COLORS_BG : UInt32 := 0x0D1117

/-! ## §1. The state. -/

/-- What the bootloader says of the framebuffer. -/
structure LimineFramebuffer where
  address : UInt64
  width : UInt64
  height : UInt64
  pitch : UInt64
  deriving Repr, DecidableEq

/-- `ssfn_buf_t`. -/
structure SsfnBuf where
  ptr : UInt64
  w : ℤ
  h : ℤ
  p : UInt16
  x : ℤ
  y : ℤ
  fg : UInt32
  bg : UInt32
  deriving Repr, DecidableEq

/-- `font_height` is `ssfn_src->height`. -/
structure Terminal where
  framebuffer : LimineFramebuffer
  font_height : UInt8
  ssfn_dst : SsfnBuf
  memory : Memory

/-- Conversion of a 64-bit field to `int`: the low 32 bits, with sign.  Below 2^31 it is the number
    itself. -/
def to_int (v : UInt64) : ℤ := v.toUInt32.toInt32.toInt

/-! ## §2. Scrolling. -/

/-- `fb_ptr[x + y * framebuffer->width]`. -/
def pixel_address (fb : LimineFramebuffer) (x : ℕ) (y : ℤ) : ℕ :=
  (fb.address + 4 * (UInt64.ofNat x + UInt64.ofInt y * fb.width)).toNat

/-- The inner clearing loop: the first `x` pixels of line `y`. -/
def clear_line (fb : LimineFramebuffer) (y : ℤ) (m : Memory) : (x : ℕ) → Memory
  | 0 => m
  | x + 1 => (clear_line fb y m x).store32 (pixel_address fb x y) COLORS_BG

/-- The outer one: the first `rounds` lines from `y`. -/
def clear_lines (fb : LimineFramebuffer) (y : ℤ) (m : Memory) : (rounds : ℕ) → Memory
  | 0 => m
  | k + 1 => clear_line fb (y + k) (clear_lines fb y m k) fb.width.toNat

/-- `for (int y = …; y < framebuffer->height; y++)`: the comparison is unsigned. -/
def clear_from (fb : LimineFramebuffer) (y : ℤ) (m : Memory) : Memory :=
  clear_lines fb y m (fb.height.toNat - (UInt64.ofInt y).toNat)

/-- `terminal_scroll`: the text below the first line is moved up, the lines from there on are
    cleared, and the pen goes to the last line. -/
def terminal_scroll (t : Terminal) : Terminal :=
  let fb := t.framebuffer
  let src_x : UInt64 := 0
  let src_y : UInt64 := t.font_height.toUInt64
  let dst_x : UInt64 := 0
  let dst_y : UInt64 := 0
  -- the addresses count the pitch
  let src_ptr := fb.address + (src_y * (fb.pitch / 4) + src_x) * 4
  let dst_ptr := fb.address + (dst_y * (fb.pitch / 4) + dst_x) * 4
  -- the size counts the width
  let total_size := fb.width * (fb.height - t.font_height.toUInt64) * 4
  let memory := memmove t.memory dst_ptr.toNat src_ptr.toNat total_size.toNat
  { t with
    memory := clear_from fb (to_int (fb.height - t.font_height.toUInt64)) memory
    ssfn_dst := { t.ssfn_dst with x := 0, y := t.ssfn_dst.h - t.font_height.toNat } }

/-! ## §3. Printing. -/

/-- `'\n'`. -/
def newline : UInt8 := 0x0A

/-- The colour of the text that follows. -/
def terminal_set_text_color (t : Terminal) (c : UInt32) : Terminal :=
  { t with ssfn_dst := { t.ssfn_dst with fg := c } }

/-- Back to the colour of text. -/
def terminal_reset_text_color (t : Terminal) : Terminal :=
  terminal_set_text_color t COLORS_TEXT_FG

/-- The background of the text that follows; 0 stands for none. -/
def terminal_set_background_color (t : Terminal) (c : UInt32) : Terminal :=
  { t with ssfn_dst := { t.ssfn_dst with bg := c } }

/-- Back to the colour of the background, which is not 0. -/
def terminal_reset_background_color (t : Terminal) : Terminal :=
  terminal_set_background_color t COLORS_BG

section Printing

variable (ssfn_putc : Terminal → UInt32 → Terminal)

/-- `ssfn_dst.x = 0; ssfn_dst.y += ssfn_src->height;`. -/
def next_line (t : Terminal) : Terminal :=
  { t with ssfn_dst := { t.ssfn_dst with x := 0, y := t.ssfn_dst.y + t.font_height.toNat } }

/-- `terminal_putchar` up to its last comparison: a newline, or a glyph and the next line when it
    has reached the margin. -/
def putchar_advance (t : Terminal) (c : UInt8) : Terminal :=
  if c = newline then next_line t
  else
    let t := ssfn_putc t c.toUInt32
    if t.ssfn_dst.x ≥ t.ssfn_dst.w then
      let t := next_line t
      -- at the bottom edge back to the top, without a scroll
      if t.ssfn_dst.y = t.ssfn_dst.h then { t with ssfn_dst := { t.ssfn_dst with y := 0 } } else t
    else t

/-- A pen below the screen scrolls it. -/
def terminal_putchar (t : Terminal) (c : UInt8) : Terminal :=
  let t := putchar_advance ssfn_putc t c
  if t.ssfn_dst.y ≥ t.ssfn_dst.h then terminal_scroll t else t

/-- `data` holds the first `size` bytes. -/
def terminal_write (t : Terminal) (data : List UInt8) : Terminal :=
  data.foldl (terminal_putchar ssfn_putc) t

/-- A string is written up to its NUL. -/
def terminal_writestring (t : Terminal) (data : List UInt8) : Terminal :=
  terminal_write ssfn_putc t (data.take (strlen data))

/-- A character at a position in pixels, in a colour of its own.  The pen stays behind it. -/
def terminal_putentryat (t : Terminal) (c color : UInt32) (x y : UInt64) : Terminal :=
  ssfn_putc { t with ssfn_dst := { t.ssfn_dst with fg := color, x := to_int x, y := to_int y } } c

/-- `terminal_initialize` up to the title card, which it prints like any other text.  The sizes of
    the framebuffer are converted to `int`, its pitch to 16 bits. -/
def terminal_initialize (fb : LimineFramebuffer) (font_height : UInt8) (bg : UInt32)
    (byte : ℕ → UInt8) : Terminal where
  framebuffer := fb
  font_height := font_height
  ssfn_dst :=
    { ptr := fb.address, w := to_int fb.width, h := to_int fb.height, p := fb.pitch.toUInt16,
      x := 0, y := 0, fg := COLORS_TEXT_FG, bg := bg }
  memory := clear_from fb 0 { byte := byte, accessed := [] }

/-- A call of the terminal's interface. -/
inductive Call where
  | putchar (c : UInt8)
  | write (data : List UInt8)
  | writestring (data : List UInt8)
  deriving Repr, DecidableEq

/-- What a call does. -/
def Call.run (t : Terminal) : Call → Terminal
  | .putchar c => terminal_putchar ssfn_putc t c
  | .write data => terminal_write ssfn_putc t data
  | .writestring data => terminal_writestring ssfn_putc t data

/-- A sequence of calls, from the left. -/
def run (t : Terminal) (calls : List Call) : Terminal := calls.foldl (Call.run ssfn_putc) t

/-- What is assumed of the renderer: of the pen it moves `x` alone, never back, and the font
    stays.  What it draws is left open. -/
structure Advances : Prop where
  advance : ∀ t c, ∃ glyph : ℕ,
    (ssfn_putc t c).ssfn_dst = { t.ssfn_dst with x := t.ssfn_dst.x + glyph }
  font_height : ∀ t c, (ssfn_putc t c).font_height = t.font_height

end Printing

/-! ## §4. The cursor. -/

/-- **The cursor addresses a fully visible text line**, in a column of the screen. -/
structure Visible (t : Terminal) : Prop where
  x_nonneg : 0 ≤ t.ssfn_dst.x
  x_lt : t.ssfn_dst.x < t.ssfn_dst.w
  y_nonneg : 0 ≤ t.ssfn_dst.y
  y_le : t.ssfn_dst.y + t.font_height.toNat ≤ t.ssfn_dst.h

/-- `Visible` on a grid of text lines that fills the screen, `w` by `h` with lines of `fh`. -/
structure OnGrid (w h : ℤ) (fh : UInt8) (t : Terminal) : Prop extends Visible t where
  width : t.ssfn_dst.w = w
  height : t.ssfn_dst.h = h
  font : t.font_height = fh
  line : (fh.toNat : ℤ) ∣ t.ssfn_dst.y

section Cursor

variable {ssfn_putc : Terminal → UInt32 → Terminal} {w h : ℤ} {fh : UInt8} {t : Terminal}

/-- Below a line of the grid there is another one, or the end of the screen. -/
theorem line_below {y : ℤ} (hdvd : (fh.toNat : ℤ) ∣ h) (hline : (fh.toNat : ℤ) ∣ y) (hy : y < h) :
    y + fh.toNat ≤ h := by
  have hle : (fh.toNat : ℤ) ≤ h - y := Int.le_of_dvd (by omega) (Int.dvd_sub hdvd hline)
  omega

/-- A grid cursor moved to column 0 of the line `y`. -/
theorem OnGrid.move {u : Terminal} (hw : 0 < w) (hwidth : u.ssfn_dst.w = w)
    (hheight : u.ssfn_dst.h = h) (hfont : u.font_height = fh) (hx : u.ssfn_dst.x = 0)
    (hy0 : 0 ≤ u.ssfn_dst.y) (hyh : u.ssfn_dst.y + fh.toNat ≤ h)
    (hline : (fh.toNat : ℤ) ∣ u.ssfn_dst.y) : OnGrid w h fh u where
  x_nonneg := by omega
  x_lt := by omega
  y_nonneg := hy0
  y_le := by
    rw [hfont, hheight]
    exact hyh
  width := hwidth
  height := hheight
  font := hfont
  line := hline

/-- Scrolling goes to the last line. -/
theorem scroll_onGrid {u : Terminal} (hw : 0 < w) (hle : fh.toNat ≤ h)
    (hdvd : (fh.toNat : ℤ) ∣ h) (hwidth : u.ssfn_dst.w = w) (hheight : u.ssfn_dst.h = h)
    (hfont : u.font_height = fh) : OnGrid w h fh (terminal_scroll u) := by
  have hy : (terminal_scroll u).ssfn_dst.y = h - fh.toNat := by
    rw [← hheight, ← hfont]
    rfl
  refine OnGrid.move hw hwidth hheight hfont rfl ?_ ?_ ?_
  · omega
  · omega
  · rw [hy]
    exact Int.dvd_sub hdvd (Int.dvd_refl _)

/-- A glyph, with its wrap, keeps the cursor on the grid: it moves along the line, or goes to the
    next one, or from the last one to the first. -/
theorem glyph_onGrid (hadv : Advances ssfn_putc) (hfh : 0 < fh.toNat) (hw : 0 < w)
    (hdvd : (fh.toNat : ℤ) ∣ h) (g : OnGrid w h fh t) {c : UInt8} (hc : c ≠ newline) :
    OnGrid w h fh (putchar_advance ssfn_putc t c) := by
  obtain ⟨⟨hx0, hxw, hy0, hyh⟩, hwidth, hheight, hfont, hline⟩ := g
  rw [hheight, hfont] at hyh
  obtain ⟨glyph, hdst⟩ := hadv.advance t c.toUInt32
  have hfont' := hadv.font_height t c.toUInt32
  unfold putchar_advance
  rw [if_neg hc]
  dsimp only [next_line]
  -- what the renderer left
  generalize ssfn_putc t c.toUInt32 = u at hdst hfont'
  have hux : u.ssfn_dst.x = t.ssfn_dst.x + glyph := by rw [hdst]
  have huy : u.ssfn_dst.y = t.ssfn_dst.y := by rw [hdst]
  have huw : u.ssfn_dst.w = w := by rw [hdst]; exact hwidth
  have huh : u.ssfn_dst.h = h := by rw [hdst]; exact hheight
  have huf : u.font_height = fh := hfont'.trans hfont
  have hnext : (fh.toNat : ℤ) ∣ u.ssfn_dst.y + fh.toNat := by
    rw [huy]
    exact Int.dvd_add hline (Int.dvd_refl _)
  rw [huh, huf, huw]
  split_ifs with hmargin hbottom
  · -- wrap on the last line: back to the top
    refine OnGrid.move hw rfl rfl rfl rfl (Int.le_refl 0) ?_ (Int.dvd_zero _)
    show 0 + (fh.toNat : ℤ) ≤ h
    omega
  · -- wrap above it
    have hbelow : u.ssfn_dst.y + fh.toNat < h := by
      have hne : u.ssfn_dst.y + fh.toNat ≠ h := hbottom
      omega
    refine OnGrid.move hw rfl rfl rfl rfl ?_ (line_below hdvd hnext hbelow) hnext
    show 0 ≤ u.ssfn_dst.y + fh.toNat
    omega
  · -- room on the line
    refine ⟨⟨by omega, by omega, by omega, ?_⟩, huw, huh, huf, ?_⟩
    · rw [huf, huy, huh]
      exact hyh
    · rw [huy]
      exact hline

/-- **One character keeps the cursor on the grid.**  The cases are those of the source: a newline, a
    glyph that leaves room on the line, one that reaches the margin, and each of these with a scroll
    behind it or without.  This is the step; a run is a fold over it. -/
theorem putchar_onGrid (hadv : Advances ssfn_putc) (hfh : 0 < fh.toNat) (hw : 0 < w)
    (hle : fh.toNat ≤ h) (hdvd : (fh.toNat : ℤ) ∣ h) (t : Terminal) (c : UInt8)
    (g : OnGrid w h fh t) : OnGrid w h fh (terminal_putchar ssfn_putc t c) := by
  unfold terminal_putchar
  dsimp only
  by_cases hc : c = newline
  · -- newline: the next line, or a scroll
    have hnl : putchar_advance ssfn_putc t c = next_line t := by rw [putchar_advance, if_pos hc]
    have hy : (next_line t).ssfn_dst.y = t.ssfn_dst.y + fh.toNat := by
      rw [← g.font]
      rfl
    have hnext : (fh.toNat : ℤ) ∣ t.ssfn_dst.y + fh.toNat := Int.dvd_add g.line (Int.dvd_refl _)
    have hh : (next_line t).ssfn_dst.h = h := g.height
    have hy0 := g.y_nonneg
    rw [hnl, hy, hh]
    split_ifs with hend
    · exact scroll_onGrid hw hle hdvd g.width g.height g.font
    · refine OnGrid.move hw g.width g.height g.font rfl (by omega) ?_ (by rwa [hy])
      rw [hy]
      exact line_below hdvd hnext (by omega)
  · have g' := glyph_onGrid hadv hfh hw hdvd g hc
    have hyh := g'.y_le
    rw [g'.font] at hyh
    rw [if_neg (by omega)]
    exact g'

/-- Every call keeps the cursor on the grid. -/
theorem call_onGrid (hadv : Advances ssfn_putc) (hfh : 0 < fh.toNat) (hw : 0 < w)
    (hle : fh.toNat ≤ h) (hdvd : (fh.toNat : ℤ) ∣ h) (t : Terminal) (call : Call)
    (g : OnGrid w h fh t) : OnGrid w h fh (call.run ssfn_putc t) := by
  have hwrite : ∀ (data : List UInt8), OnGrid w h fh (terminal_write ssfn_putc t data) :=
    fun data => foldl_stays (putchar_onGrid hadv hfh hw hle hdvd) data t g
  cases call with
  | putchar c => exact putchar_onGrid hadv hfh hw hle hdvd t c g
  | write data => exact hwrite data
  | writestring data => exact hwrite _

variable (ssfn_putc) in
/-- **Newlines count lines** until they reach the end of the screen.  By induction on their number;
    a newline before the last line does not scroll, so the row is the number of newlines times the
    height of the font. -/
theorem newlines_y (t : Terminal) (hy : t.ssfn_dst.y = 0) (k : ℕ)
    (hk : (k * t.font_height.toNat : ℤ) < t.ssfn_dst.h) :
    (terminal_write ssfn_putc t (List.replicate k newline)).ssfn_dst.y = k * t.font_height.toNat
      ∧ (terminal_write ssfn_putc t (List.replicate k newline)).ssfn_dst.h = t.ssfn_dst.h
      ∧ (terminal_write ssfn_putc t (List.replicate k newline)).font_height = t.font_height := by
  induction k with
  | zero =>
    refine ⟨?_, rfl, rfl⟩
    rw [List.replicate_zero, Int.natCast_zero, Int.zero_mul]
    exact hy
  | succ k ih =>
    rw [Int.natCast_succ, Int.add_mul, Int.one_mul] at hk ⊢
    obtain ⟨hyk, hhk, hfk⟩ := ih (by omega)
    rw [List.replicate_succ', terminal_write, List.foldl_append]
    rw [terminal_write] at hyk hhk hfk
    generalize List.foldl (terminal_putchar ssfn_putc) t (List.replicate k newline) = u
      at hyk hhk hfk
    -- the next line is still on the screen, so nothing scrolls
    have hadv : putchar_advance ssfn_putc u newline = next_line u := by
      rw [putchar_advance, if_pos rfl]
    have hput : terminal_putchar ssfn_putc u newline = next_line u := by
      rw [terminal_putchar, hadv]
      apply if_neg
      show ¬ u.ssfn_dst.y + u.font_height.toNat ≥ u.ssfn_dst.h
      rw [hyk, hhk, hfk]
      omega
    rw [List.foldl_cons, List.foldl_nil, hput]
    refine ⟨?_, hhk, hfk⟩
    show u.ssfn_dst.y + u.font_height.toNat = _
    rw [hyk, hfk]

/-- A run of one call. -/
theorem run_write (t : Terminal) (data : List UInt8) :
    run ssfn_putc t [Call.write data] = terminal_write ssfn_putc t data := rfl

end Cursor

/-- **The cursor is always on a visible line exactly when the text lines fill the screen**: the
    width is positive, and the height a positive multiple of the height of a line.  Both are taken
    as `int`, as the terminal does, so below 2^31 they are those of the framebuffer. -/
theorem visible_iff (ssfn_putc : Terminal → UInt32 → Terminal) (hadv : Advances ssfn_putc)
    (fb : LimineFramebuffer) (font_height : UInt8) (hfh : 0 < font_height.toNat) (bg : UInt32)
    (byte : ℕ → UInt8) :
    (∀ calls, Visible
        (run ssfn_putc (Framebuffer.terminal_initialize fb font_height bg byte) calls))
      ↔ 0 < to_int fb.width ∧ (font_height.toNat : ℤ) ≤ to_int fb.height
        ∧ (font_height.toNat : ℤ) ∣ to_int fb.height := by
  constructor
  · intro h
    have h0 := h []
    have hw : 0 < to_int fb.width := h0.x_lt
    have hle : (0 : ℤ) + font_height.toNat ≤ to_int fb.height := h0.y_le
    refine ⟨hw, by omega, ?_⟩
    -- as many newlines as whole lines fit, when they do not fill the screen
    by_contra hdvd
    have hmod : to_int fb.height % font_height.toNat ≠ 0 :=
      fun heq => hdvd (Int.dvd_of_emod_eq_zero heq)
    have hnonneg : 0 ≤ to_int fb.height % font_height.toNat :=
      Int.emod_nonneg _ (by omega)
    have hdiv := Int.mul_ediv_add_emod (to_int fb.height) font_height.toNat
    have hlt := Int.emod_lt_of_pos (to_int fb.height)
      (by omega : (0 : ℤ) < (font_height.toNat : ℤ))
    -- `k` is the number of whole lines
    obtain ⟨k, hk⟩ := Int.eq_ofNat_of_zero_le
      (Int.ediv_nonneg (by omega : 0 ≤ to_int fb.height) (Int.natCast_nonneg font_height.toNat))
    rw [hk, Int.mul_comm] at hdiv
    obtain ⟨hy, hh, hf⟩ := newlines_y ssfn_putc
      (Framebuffer.terminal_initialize fb font_height bg byte) rfl k
      (by show (k * font_height.toNat : ℤ) < to_int fb.height; omega)
    have hvis := (h [Call.write (List.replicate k newline)]).y_le
    rw [run_write, hy, hh, hf] at hvis
    have hvis' : (k * font_height.toNat : ℤ) + font_height.toNat ≤ to_int fb.height := hvis
    omega
  · intro hex calls
    obtain ⟨hw, hle, hdvd⟩ := hex
    have hstart : OnGrid (to_int fb.width) (to_int fb.height) font_height
        (Framebuffer.terminal_initialize fb font_height bg byte) :=
      OnGrid.move hw rfl rfl rfl rfl (Int.le_refl 0)
        (by show (0 : ℤ) + font_height.toNat ≤ to_int fb.height; omega) (Int.dvd_zero _)
    exact (foldl_stays (call_onGrid hadv hfh hw hle hdvd) calls _ hstart).toVisible

/-! ## §5. A full-HD screen. -/

/-- A renderer that draws nothing and advances by eight, except for the missing glyph 0. -/
def fixed_width (t : Terminal) (c : UInt32) : Terminal :=
  { t with ssfn_dst := { t.ssfn_dst with x := t.ssfn_dst.x + if c = 0 then 0 else 8 } }

/-- It meets the assumption on the renderer. -/
theorem fixed_width_advances : Advances fixed_width where
  advance t c := ⟨if c = 0 then 0 else 8, by unfold fixed_width; split_ifs <;> rfl⟩
  font_height _ _ := rfl

/-- 1920 x 1080 with 32-bit pixels. -/
def full_hd : LimineFramebuffer :=
  { address := 0xffff8000fd000000, width := 1920, height := 1080, pitch := 7680 }

/-- The condition on such a screen. -/
theorem visible_iff_full_hd :
    (∀ calls, Visible
        (run fixed_width (Framebuffer.terminal_initialize full_hd 16 0 fun _ => 0) calls))
      ↔ 0 < to_int full_hd.width ∧ (16 : ℤ) ≤ to_int full_hd.height
        ∧ (16 : ℤ) ∣ to_int full_hd.height :=
  visible_iff fixed_width fixed_width_advances full_hd 16 (by decide) 0 fun _ => 0

/-- 67 newlines put a 16-pixel line at 1072, eight pixels short of fitting. -/
theorem full_hd_cut_line :
    Advances fixed_width ∧ full_hd.width > 0 ∧ full_hd.height ≥ 16
      ∧ ¬ Visible (run fixed_width (Framebuffer.terminal_initialize full_hd 16 0 fun _ => 0)
          [Call.write (List.replicate 67 newline)]) := by
  refine ⟨fixed_width_advances, by decide, by decide, ?_⟩
  intro h
  obtain ⟨hy, hh, hf⟩ := newlines_y fixed_width
    (Framebuffer.terminal_initialize full_hd 16 0 fun _ => 0) rfl 67 (by decide)
  have hle := h.y_le
  rw [run_write, hy, hh, hf] at hle
  revert hle
  decide

end Hippos.Framebuffer
