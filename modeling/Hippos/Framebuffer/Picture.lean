/-
  Hippos.Framebuffer.Picture — what the terminal shows.

  Above the memory a terminal is a picture with a pen: glyphs are stamped on it, and scrolling moves
  it up.  With the real renderer the framebuffer holds that picture after every run, whatever is
  printed and whatever the font says; and no run leaves the framebuffer.

  The pen is a pair of `int`s, which the model keeps as exact integers.  A `Screen` is small enough,
  and an entry is put on the screen itself, so that no run brings the pen to where an `int` of the
  source would overflow; `PenFits` says so, and is proved of every run beside the memory.

  Main results:
    * `terminal_inside` — no run touches a byte outside the framebuffer or overflows an `int`.
    * `terminal_displays` — without row padding the framebuffer shows the picture of the calls.
    * `line_shown` — the pixels of a text that fits on its line.
-/
import Hippos.Framebuffer.Characters

namespace Hippos.Framebuffer

open Hippos.Lib
open Hippos.Libc

/-! ## §1. The picture. -/

/-- The colours, the pen, and the colour it writes in. -/
structure Picture where
  pixel : ℕ → ℕ → UInt32
  x : ℕ
  y : ℕ
  color : UInt32

namespace Picture

/-- The glyph where the pen is, and the pen behind it. -/
def draw (p : Picture) : Option Glyph → Picture
  | none => p
  | some g => { p with
      pixel := Raster.overlay p.pixel p.x p.y fun x y => if g.ink x y then some p.color else none
      x := p.x + g.advance_x
      y := p.y + g.advance_y }

section Screen

variable (f : Font) (w h : ℕ)

/-- To the start of the next text line. -/
def next_line (p : Picture) : Picture := { p with x := 0, y := p.y + f.height.toNat }

/-- Up by one text line, with an empty one below. -/
def scroll (p : Picture) : Picture where
  pixel := fun x y =>
    if y < h - f.height.toNat then p.pixel x (y + f.height.toNat) else COLORS_BG
  x := 0
  y := h - f.height.toNat
  color := p.color

/-- A character before the bottom is tested: a new line, or a glyph and a new line where that has
    reached the right margin.  Such a line just below the screen is the first one again. -/
def advance (p : Picture) (c : UInt8) : Picture :=
  if c = newline then p.next_line f
  else
    let p := p.draw (f.glyph c.toUInt32)
    if p.x ≥ w then
      let p := p.next_line f
      if p.y = h then { p with y := 0 } else p
    else p

/-- A character, with a test of the bottom behind it: only there does the picture scroll. -/
def put (p : Picture) (c : UInt8) : Picture :=
  let p := p.advance f w h c
  if p.y ≥ h then p.scroll f h else p

/-- One character after the other. -/
def write (p : Picture) (data : List UInt8) : Picture := data.foldl (put f w h) p

end Screen

end Picture

/-! ## §2. What is called. -/

/-- A call that prints or sets a colour.  `terminal_putentryat` puts its two numbers into the `int`s
    of the pen; runs are about places on the screen (`Action.Placeable`). -/
inductive Action where
  | call (c : Call)
  | putentryat (c color : UInt32) (x y : UInt64)
  | set_text_color (c : UInt32)
  | reset_text_color
  | set_background_color (c : UInt32)
  | reset_background_color
  deriving Repr, DecidableEq

/-- The call on the terminal, with the renderer of the kernel. -/
def Action.run (f : Font) (t : Terminal) : Action → Terminal
  | .call c => c.run (renderer f) t
  | .putentryat c color x y => terminal_putentryat (renderer f) t c color x y
  | .set_text_color c => terminal_set_text_color t c
  | .reset_text_color => terminal_reset_text_color t
  | .set_background_color c => terminal_set_background_color t c
  | .reset_background_color => terminal_reset_background_color t

/-- An entry is put on the screen.  Far away from it the conversion to `int` can give a negative
    place, and the next glyph can overflow the pen. -/
def Action.Placeable (fb : LimineFramebuffer) : Action → Prop
  | .putentryat _ _ x y => x < fb.width ∧ y < fb.height
  | _ => True

/-- Nothing is drawn behind the text. -/
def Action.Transparent : Action → Prop
  | .set_background_color _ => False
  | .reset_background_color => False
  | _ => True

/-- What a call does to the picture. -/
def Action.meaning (f : Font) (w h : ℕ) (p : Picture) : Action → Picture
  | .call (.putchar c) => p.put f w h c
  | .call (.write data) => p.write f w h data
  | .call (.writestring data) => p.write f w h (data.take (strlen data))
  | .putentryat c color x y =>
    Picture.draw { p with x := (to_int x).toNat, y := (to_int y).toNat, color := color } (f.glyph c)
  | .set_text_color c => { p with color := c }
  | .reset_text_color => { p with color := COLORS_TEXT_FG }
  | _ => p

/-! ## §3. The framebuffer as a raster. -/

/-- A framebuffer that `ssfn_dst` can describe: the pitch fits its 16 bits, and up to a glyph below
    the screen the offset of a row, `ssfn_dst.y * ssfn_dst.p`, is an `int`. -/
structure Screen (fb : LimineFramebuffer) (fh : UInt8) : Prop extends Geometry fb fh where
  there : fb.address ≠ 0
  width_pos : 0 < fb.width.toNat
  pitch_fits : fb.pitch.toNat < 2 ^ 16
  rows_fit : (fb.height.toNat + 255) * fb.pitch.toNat < 2 ^ 31

section Screen

variable {fb : LimineFramebuffer} {fh : UInt8} {f : Font} {t : Terminal} {m₀ : Memory}

/-- Where the pixels of the screen are in memory. -/
def Screen.raster (scr : Screen fb fh) : Raster where
  base := fb.address.toNat
  pitch := fb.pitch.toNat
  width := fb.width.toNat
  height := fb.height.toNat
  apart := scr.pitch_covers

/-- `ssfn_dst` was set up for `fb` and has the pen at `(x, y)`. -/
structure Placed (fb : LimineFramebuffer) (x y : ℕ) (d : SsfnBuf) : Prop where
  ptr : d.ptr = fb.address
  p : d.p = fb.pitch.toUInt16
  w : d.w = to_int fb.width
  h : d.h = to_int fb.height
  x : d.x = x
  y : d.y = y

/-- Its height is an `int`. -/
theorem Screen.height_fits (scr : Screen fb fh) : fb.height.toNat < 2 ^ 31 := by
  have hrows := scr.rows_fit
  have hcovers := scr.pitch_covers
  have hwidth := scr.width_pos
  have hle : (fb.height.toNat + 255) * 1 ≤ (fb.height.toNat + 255) * fb.pitch.toNat :=
    Nat.mul_le_mul_left _ (by omega)
  omega

/-- The width that `ssfn_dst` gets is that of the framebuffer. -/
theorem Screen.width_eq (scr : Screen fb fh) : to_int fb.width = fb.width.toNat := by
  have hcovers := scr.pitch_covers
  have hpitch := scr.pitch_fits
  exact to_int_of_lt (by omega)

/-- And so is the height. -/
theorem Screen.height_eq (scr : Screen fb fh) : to_int fb.height = fb.height.toNat :=
  to_int_of_lt scr.height_fits

/-- A place on the screen is an `int`. -/
theorem Screen.place_x (scr : Screen fb fh) {x : UInt64} (hx : x < fb.width) :
    to_int x = x.toNat := by
  have hcovers := scr.pitch_covers
  have hpitch := scr.pitch_fits
  rw [UInt64.lt_iff_toNat_lt] at hx
  exact to_int_of_lt (by omega)

theorem Screen.place_y (scr : Screen fb fh) {y : UInt64} (hy : y < fb.height) :
    to_int y = y.toNat := by
  have hheight := scr.height_fits
  rw [UInt64.lt_iff_toNat_lt] at hy
  exact to_int_of_lt (by omega)

/-- The pitch survives the conversion to 16 bits. -/
theorem Screen.pitch_eq (scr : Screen fb fh) : fb.pitch.toUInt16.toNat = fb.pitch.toNat := by
  rw [UInt64.toNat_toUInt16]
  exact Nat.mod_eq_of_lt scr.pitch_fits

/-- The renderer draws on the framebuffer. -/
theorem Placed.on {x y : ℕ} {d : SsfnBuf} (scr : Screen fb fh) (h : Placed fb x y d) :
    On scr.raster d x y where
  ptr := by rw [h.ptr]; rfl
  there := by rw [h.ptr]; exact scr.there
  pitch := by rw [h.p]; exact scr.pitch_eq
  words := scr.pitch_words
  width := by rw [h.w]; exact scr.width_eq
  height := by rw [h.h]; exact scr.height_eq
  width_pos := scr.width_pos
  height_pos := by
    show 0 < fb.height.toNat
    have hpos := scr.font_pos
    have hfits := scr.font_fits
    omega
  x := h.x
  y := h.y
  addressable := scr.addressable

/-- Another place for the pen. -/
theorem Placed.move {x y : ℕ} {d : SsfnBuf} (h : Placed fb x y d) {x' y' : ℤ} {u v : ℕ}
    (hx : x' = u) (hy : y' = v) : Placed fb u v { d with x := x', y := y' } where
  ptr := h.ptr
  p := h.p
  w := h.w
  h := h.h
  x := hx
  y := hy

/-- Other colours. -/
theorem Placed.colors {x y : ℕ} {d : SsfnBuf} (h : Placed fb x y d) (fg bg : UInt32) :
    Placed fb x y { d with fg := fg, bg := bg } where
  ptr := h.ptr
  p := h.p
  w := h.w
  h := h.h
  x := h.x
  y := h.y

/-- The pen moves by the glyph. -/
theorem Placed.advanced {x y : ℕ} {d : SsfnBuf} (h : Placed fb x y d) (g : Option Glyph) :
    Placed fb (x + g.elim 0 Glyph.advance_x) (y + g.elim 0 Glyph.advance_y)
      (Framebuffer.advanced d g) := by
  cases g with
  | none => exact h
  | some g =>
    refine h.move ?_ ?_
    · rw [h.x]
      exact (Int.natCast_add x g.advance_x).symm
    · rw [h.y]
      exact (Int.natCast_add y g.advance_y).symm

/-- The terminal is on `fb`, has its pen where the picture has, and the framebuffer shows the
    picture. -/
structure Displays (scr : Screen fb fh) (m₀ : Memory) (t : Terminal) (p : Picture) : Prop where
  framebuffer : t.framebuffer = fb
  font_height : t.font_height = fh
  placed : Placed fb p.x p.y t.ssfn_dst
  color : t.ssfn_dst.fg = p.color
  shows : scr.raster.Shows m₀ t.memory p.pixel

/-! ## §4. Nothing is touched outside. -/

/-- The terminal came about without leaving the framebuffer. -/
def Stays (scr : Screen fb fh) (m₀ : Memory) (t : Terminal) : Prop := ∃ p, Displays scr m₀ t p

/-- A terminal that shows a picture is one that stays. -/
theorem Displays.stays {scr : Screen fb fh} {p : Picture} (h : Displays scr m₀ t p) :
    Stays scr m₀ t := ⟨p, h⟩

/-- Only that the pen is somewhere on or behind the screen matters: the picture is then what memory
    shows. -/
theorem stays_of_inside {scr : Screen fb fh} {u : Terminal} {x y : ℕ} (hfb : u.framebuffer = fb)
    (hfont : u.font_height = fh) (hplaced : Placed fb x y u.ssfn_dst)
    (hin : scr.raster.Inside m₀ u.memory) : Stays scr m₀ u :=
  ⟨⟨scr.raster.word u.memory, x, y, u.ssfn_dst.fg⟩, hfb, hfont, hplaced, rfl, hin.shows⟩

/-- A glyph touches the framebuffer alone, whatever the font says, and moves the pen by its
    advances. -/
theorem renderer_stays {scr : Screen fb fh} (h : Stays scr m₀ t) (f : Font) (c : UInt32) :
    Stays scr m₀ (renderer f t c) := by
  obtain ⟨p, hp⟩ := h
  have hon := hp.placed.on scr
  have hplaced := hp.placed.advanced (f.glyph c)
  rw [← renderer_dst hon] at hplaced
  exact stays_of_inside ((renderer_framebuffer f t c).trans hp.framebuffer)
    ((renderer_font_height f t c).trans hp.font_height) hplaced
    (renderer_inside hon f c hp.shows.toInside)

/-- The pen goes elsewhere. -/
theorem Stays.move {scr : Screen fb fh} (h : Stays scr m₀ t) {x y : ℤ} (hx : 0 ≤ x) (hy : 0 ≤ y) :
    Stays scr m₀ { t with ssfn_dst := { t.ssfn_dst with x := x, y := y } } := by
  obtain ⟨p, hp⟩ := h
  exact stays_of_inside hp.framebuffer hp.font_height
    (hp.placed.move (Int.toNat_of_nonneg hx).symm (Int.toNat_of_nonneg hy).symm)
    hp.shows.toInside

/-- The words of the screen, without padding, are in the window. -/
theorem Screen.words_le (scr : Screen fb fh) :
    scr.raster.base + 4 * (fb.width.toNat * fb.height.toNat) ≤ scr.raster.limit := by
  have hfits := scr.font_fits
  have hpos := scr.font_pos
  obtain ⟨h, hh⟩ : ∃ h, fb.height.toNat = h + 1 := ⟨fb.height.toNat - 1, by omega⟩
  have hrows : h * (4 * fb.width.toNat) ≤ h * fb.pitch.toNat :=
    Nat.mul_le_mul_left h scr.pitch_covers
  show fb.address.toNat + _
    ≤ fb.address.toNat + (fb.height.toNat - 1) * fb.pitch.toNat + 4 * fb.width.toNat
  rw [hh, Nat.add_sub_cancel,
      show 4 * (fb.width.toNat * (h + 1)) = h * (4 * fb.width.toNat) + 4 * fb.width.toNat by ring]
  omega

/-- **Scrolling touches the framebuffer alone**, also where rows are padded: what is moved and what
    is cleared are counted by the width, which is at most the pitch. -/
theorem scroll_inside (scr : Screen fb fh) (hfb : t.framebuffer = fb) (hfont : t.font_height = fh)
    (hin : scr.raster.Inside m₀ t.memory) :
    scr.raster.Inside m₀ (terminal_scroll t).memory := by
  subst hfb hfont
  have hbase : scr.raster.base = t.framebuffer.address.toNat := rfl
  have hwords := scr.words_le
  have hsplit := scr.pixels_split
  rw [terminal_scroll_memory scr.toGeometry scr.height_fits]
  refine Raster.Inside.fill32 ⟨?_, ?_⟩ (by omega) (by omega) COLORS_BG
  · intro a ha
    rw [mem_memmove_accessed] at ha
    rcases ha with ha | ⟨j, hj, rfl | rfl⟩
    · exact hin.accessed a ha
    · -- what is moved is read below the first text line
      right
      have hlt : t.font_height.toNat < t.framebuffer.height.toNat := by
        by_contra hle
        rw [Nat.sub_eq_zero_of_le (Nat.le_of_not_lt hle), Nat.zero_mul] at hj
        omega
      have hend := scr.src_end hlt
      have hlimit : scr.raster.limit = t.framebuffer.address.toNat
        + (t.framebuffer.height.toNat - 1) * t.framebuffer.pitch.toNat
        + 4 * t.framebuffer.width.toNat := rfl
      rw [scr.src_toNat scr.width_pos hlt]
      omega
    · right
      omega
  · intro a ha
    rw [byte_memmove_other _ (by omega)]
    exact hin.outside a ha

/-- Scrolling stays on the framebuffer and puts the pen on its last line. -/
theorem scroll_stays {scr : Screen fb fh} (h : Stays scr m₀ t) :
    Stays scr m₀ (terminal_scroll t) := by
  obtain ⟨p, hp⟩ := h
  have hfits := scr.font_fits
  have hy : t.ssfn_dst.h - t.font_height.toNat = ((fb.height.toNat - fh.toNat : ℕ) : ℤ) := by
    rw [hp.placed.h, scr.height_eq, hp.font_height]
    omega
  exact stays_of_inside (u := terminal_scroll t) hp.framebuffer hp.font_height
    (hp.placed.move (u := 0) rfl hy)
    (scroll_inside scr hp.framebuffer hp.font_height hp.shows.toInside)

/-- A new line moves the pen only. -/
theorem next_line_stays {scr : Screen fb fh} (h : Stays scr m₀ t) :
    Stays scr m₀ (next_line t) := by
  have hy : 0 ≤ t.ssfn_dst.y := by
    obtain ⟨p, hp⟩ := h
    rw [hp.placed.y]
    omega
  exact h.move (Int.le_refl 0) (by omega)

/-- A character stays, before the bottom is tested. -/
theorem advance_stays {scr : Screen fb fh} (f : Font) (t : Terminal) (c : UInt8)
    (h : Stays scr m₀ t) : Stays scr m₀ (putchar_advance (renderer f) t c) := by
  have hglyph := renderer_stays h f c.toUInt32
  unfold putchar_advance
  dsimp only
  split_ifs
  · exact next_line_stays h
  · exact (next_line_stays hglyph).move (Int.le_refl 0) (Int.le_refl 0)
  · exact next_line_stays hglyph
  · exact hglyph

/-- And after. -/
theorem putchar_stays {scr : Screen fb fh} (f : Font) (t : Terminal) (c : UInt8)
    (h : Stays scr m₀ t) : Stays scr m₀ (terminal_putchar (renderer f) t c) := by
  have hadvance := advance_stays f t c h
  unfold terminal_putchar
  dsimp only
  split_ifs
  · exact scroll_stays hadvance
  · exact hadvance

/-- Colours move nothing. -/
theorem Stays.colors {scr : Screen fb fh} (h : Stays scr m₀ t) (fg bg : UInt32) :
    Stays scr m₀ { t with ssfn_dst := { t.ssfn_dst with fg := fg, bg := bg } } := by
  obtain ⟨p, hp⟩ := h
  exact stays_of_inside hp.framebuffer hp.font_height (hp.placed.colors fg bg) hp.shows.toInside

/-- **One call** stays on the framebuffer; an entry does because its place is on the screen. -/
theorem action_stays {scr : Screen fb fh} (f : Font) (t : Terminal) (a : Action)
    (ha : a.Placeable fb) (h : Stays scr m₀ t) : Stays scr m₀ (a.run f t) := by
  have hwrite : ∀ data : List UInt8, Stays scr m₀ (terminal_write (renderer f) t data) :=
    fun data => foldl_stays (putchar_stays f) data t h
  cases a with
  | call c =>
    cases c with
    | putchar c => exact putchar_stays f t c h
    | write data => exact hwrite data
    | writestring data => exact hwrite _
  | putentryat c color x y =>
    have hx : 0 ≤ to_int x := by
      rw [scr.place_x ha.1]
      omega
    have hy : 0 ≤ to_int y := by
      rw [scr.place_y ha.2]
      omega
    exact renderer_stays ((h.colors color t.ssfn_dst.bg).move hx hy) f c
  | set_text_color c => exact h.colors c t.ssfn_dst.bg
  | reset_text_color => exact h.colors COLORS_TEXT_FG t.ssfn_dst.bg
  | set_background_color c => exact h.colors t.ssfn_dst.fg c
  | reset_background_color => exact h.colors t.ssfn_dst.fg COLORS_BG

/-! ## §5. The pen stays an `int`. -/

/-- What is computed from the pen is an `int`: the columns and rows of a cell, at most 255 and 510
    further, the pen behind a glyph and below a line, 255 and 510 further, and the product
    `ssfn_dst.y * ssfn_dst.p`. -/
structure PenFits (d : SsfnBuf) : Prop where
  x_nonneg : 0 ≤ d.x
  y_nonneg : 0 ≤ d.y
  x_fits : d.x + 511 < 2 ^ 31
  y_fits : d.y + 511 < 2 ^ 31
  row_fits : d.y * d.p.toNat < 2 ^ 31

/-- The pen is not further from the screen than by a glyph. -/
def Near (fb : LimineFramebuffer) (d : SsfnBuf) : Prop :=
  d.x < fb.width.toNat + 255 ∧ d.y < fb.height.toNat + 255

/-- A pen near a screen is an `int` with room for what is computed from it: `Screen` bounds height
    and pitch for just this. -/
theorem Near.penFits {scr : Screen fb fh} {t : Terminal} (h : Stays scr m₀ t)
    (hnear : Near fb t.ssfn_dst) : PenFits t.ssfn_dst := by
  obtain ⟨p, hp⟩ := h
  obtain ⟨hx, hy⟩ := hnear
  have hrows := scr.rows_fit
  have hcovers := scr.pitch_covers
  have hwidth := scr.width_pos
  have hpitch := scr.pitch_fits
  rw [hp.placed.x] at hx
  rw [hp.placed.y] at hy
  have hle : (fb.height.toNat + 255) * 4 ≤ (fb.height.toNat + 255) * fb.pitch.toNat :=
    Nat.mul_le_mul_left _ (by omega)
  have hrow : p.y * fb.pitch.toNat ≤ (fb.height.toNat + 255) * fb.pitch.toNat :=
    Nat.mul_le_mul_right _ (by omega)
  constructor
  case x_nonneg =>
    rw [hp.placed.x]
    omega
  case y_nonneg =>
    rw [hp.placed.y]
    omega
  case x_fits =>
    rw [hp.placed.x]
    omega
  case y_fits =>
    rw [hp.placed.y]
    omega
  case row_fits =>
    have hp16 : t.ssfn_dst.p.toNat = fb.pitch.toNat := by
      rw [hp.placed.p]
      exact scr.pitch_eq
    rw [hp.placed.y, hp16]
    exact_mod_cast Nat.lt_of_le_of_lt hrow hrows

/-- The advances of a glyph are bytes of the font. -/
theorem Font.glyph_advance_le {f : Font} {c : UInt32} {g : Glyph} (h : f.glyph c = some g) :
    g.advance_x ≤ 255 ∧ g.advance_y ≤ 255 := by
  unfold Font.glyph at h
  split_ifs at h
  obtain ⟨chr, -, rfl⟩ := Option.map_eq_some_iff.mp h
  have hx := (f.byte (chr + 4)).toNat_lt
  have hy := (f.byte (chr + 5)).toNat_lt
  exact ⟨Nat.le_of_lt_succ hx, Nat.le_of_lt_succ hy⟩

/-- A glyph drawn on the screen leaves the pen near it. -/
theorem renderer_near {scr : Screen fb fh} (h : Stays scr m₀ t) (f : Font) (c : UInt32)
    (hx : t.ssfn_dst.x < fb.width.toNat) (hy : t.ssfn_dst.y < fb.height.toNat) :
    Near fb (renderer f t c).ssfn_dst := by
  obtain ⟨p, hp⟩ := h
  unfold Near
  rw [renderer_dst (hp.placed.on scr)]
  cases hg : f.glyph c with
  | none => exact ⟨by rw [advanced]; omega, by rw [advanced]; omega⟩
  | some g =>
    obtain ⟨hgx, hgy⟩ := Font.glyph_advance_le hg
    rw [advanced]
    exact ⟨by dsimp only; omega, by dsimp only; omega⟩

/-- After a character the pen is on the screen: the margin and the bottom have been tested. -/
theorem putchar_on_screen {scr : Screen fb fh} (f : Font) (c : UInt8) (h : Stays scr m₀ t) :
    (terminal_putchar (renderer f) t c).ssfn_dst.x < fb.width.toNat
      ∧ (terminal_putchar (renderer f) t c).ssfn_dst.y < fb.height.toNat := by
  have hwidth := scr.width_pos
  have hcolumn : (putchar_advance (renderer f) t c).ssfn_dst.x < fb.width.toNat := by
    obtain ⟨p, hp⟩ := renderer_stays h f c.toUInt32
    have hw : (renderer f t c.toUInt32).ssfn_dst.w = fb.width.toNat := by
      rw [hp.placed.w]
      exact scr.width_eq
    unfold putchar_advance next_line
    dsimp only
    split_ifs with hc hmargin hedge
    · exact Int.natCast_pos.mpr hwidth
    · exact Int.natCast_pos.mpr hwidth
    · exact Int.natCast_pos.mpr hwidth
    · omega
  obtain ⟨p, hp⟩ := advance_stays f t c h
  have hh : (putchar_advance (renderer f) t c).ssfn_dst.h = fb.height.toNat := by
    rw [hp.placed.h]
    exact scr.height_eq
  have hfont := scr.font_pos
  unfold terminal_putchar
  dsimp only
  split_ifs with hbottom
  · -- scrolling puts the pen on the last line
    unfold terminal_scroll
    dsimp only
    rw [hh, hp.font_height]
    omega
  · exact ⟨hcolumn, by omega⟩

/-- The terminal stays, and its pen near the screen. -/
def Within (scr : Screen fb fh) (m₀ : Memory) (t : Terminal) : Prop :=
  Stays scr m₀ t ∧ Near fb t.ssfn_dst

/-- A character keeps the pen near the screen, since it leaves it on the screen. -/
theorem putchar_within {scr : Screen fb fh} (f : Font) (t : Terminal) (c : UInt8)
    (h : Within scr m₀ t) : Within scr m₀ (terminal_putchar (renderer f) t c) := by
  obtain ⟨hx, hy⟩ := putchar_on_screen f c h.1
  exact ⟨putchar_stays f t c h.1, by omega, by omega⟩

/-- **One call** keeps the pen near the screen: a text ends with a character, an entry starts on the
    screen, and the rest does not move it. -/
theorem action_within {scr : Screen fb fh} (f : Font) (t : Terminal) (a : Action)
    (ha : a.Placeable fb) (h : Within scr m₀ t) : Within scr m₀ (a.run f t) := by
  have hstays := action_stays f t a ha h.1
  have hwrite : ∀ data : List UInt8, Within scr m₀ (terminal_write (renderer f) t data) :=
    fun data => foldl_stays (putchar_within f) data t h
  cases a with
  | call c =>
    cases c with
    | putchar c => exact putchar_within f t c h
    | write data => exact hwrite data
    | writestring data => exact hwrite _
  | putentryat c color x y =>
    have hx := scr.place_x ha.1
    have hy := scr.place_y ha.2
    have hxlt := UInt64.lt_iff_toNat_lt.mp ha.1
    have hylt := UInt64.lt_iff_toNat_lt.mp ha.2
    have hmoved : Stays scr m₀ { t with ssfn_dst :=
        { t.ssfn_dst with fg := color, x := to_int x, y := to_int y } } :=
      (h.1.colors color t.ssfn_dst.bg).move (by rw [hx]; omega) (by rw [hy]; omega)
    refine ⟨hstays, renderer_near hmoved f c ?_ ?_⟩
    · show to_int x < _
      rw [hx]
      omega
    · show to_int y < _
      rw [hy]
      omega
  | set_text_color c => exact ⟨hstays, h.2⟩
  | reset_text_color => exact ⟨hstays, h.2⟩
  | set_background_color c => exact ⟨hstays, h.2⟩
  | reset_background_color => exact ⟨hstays, h.2⟩

/-! ## §6. Nothing outside, in any run. -/

/-- An empty screen. -/
def blank : Picture := ⟨fun _ _ => COLORS_BG, 0, 0, COLORS_TEXT_FG⟩

/-- The screen is cleared, and nothing else. -/
theorem initialize_inside (scr : Screen fb fh) (bg : UInt32) (byte : ℕ → UInt8) :
    scr.raster.Inside ⟨byte, []⟩ (Framebuffer.terminal_initialize fb fh bg byte).memory := by
  have hwords := scr.words_le
  rw [Nat.mul_comm fb.width.toNat] at hwords
  show scr.raster.Inside _ (clear_from fb (0 : ℕ) ⟨byte, []⟩)
  rw [clear_from_eq scr.room (Nat.zero_le _), Nat.zero_mul, Nat.mul_zero, Nat.add_zero,
      Nat.sub_zero]
  exact (Raster.Inside.refl _ _).fill32 (Nat.le_refl _) hwords COLORS_BG

/-- The pen starts in the first corner. -/
theorem initialize_placed (fb : LimineFramebuffer) (fh : UInt8) (bg : UInt32) (byte : ℕ → UInt8) :
    Placed fb 0 0 (Framebuffer.terminal_initialize fb fh bg byte).ssfn_dst :=
  ⟨rfl, rfl, rfl, rfl, rfl, rfl⟩

/-- **The terminal never leaves the framebuffer**, whatever the font says, whatever is printed, and
    also where rows are padded: no byte elsewhere is read or written, and the pen is always where
    the next call computes with `int`s alone. -/
theorem terminal_inside (scr : Screen fb fh) (f : Font) (bg : UInt32) (byte : ℕ → UInt8)
    (as : List Action) (has : ∀ a ∈ as, a.Placeable fb) :
    scr.raster.Inside ⟨byte, []⟩
        (as.foldl (Action.run f) (Framebuffer.terminal_initialize fb fh bg byte)).memory
      ∧ PenFits (as.foldl (Action.run f)
          (Framebuffer.terminal_initialize fb fh bg byte)).ssfn_dst := by
  have hstart : Within scr ⟨byte, []⟩ (Framebuffer.terminal_initialize fb fh bg byte) := by
    refine ⟨stays_of_inside rfl rfl (initialize_placed fb fh bg byte)
      (initialize_inside scr bg byte), ?_, ?_⟩
    · show (0 : ℤ) < _
      omega
    · show (0 : ℤ) < _
      omega
  -- the run: each call keeps the terminal within
  have hrun : Within scr ⟨byte, []⟩
      (as.foldl (Action.run f) (Framebuffer.terminal_initialize fb fh bg byte)) :=
    List.foldlRecOn as (Action.run f) hstart fun t ht a ha => action_within f t a (has a ha) ht
  obtain ⟨p, hp⟩ := hrun.1
  exact ⟨hp.shows.toInside, hrun.2.penFits hrun.1⟩

/-- A screen of 1920 x 1080 is one. -/
theorem full_hd_fits : Screen full_hd letter_font.height where
  pitch_words := by decide
  pitch_covers := by decide
  font_pos := by decide
  font_fits := by decide
  addressable := by decide
  there := by decide
  width_pos := by decide
  pitch_fits := by decide
  rows_fit := by decide

/-- Two letters over a background. -/
theorem terminal_inside_letters :
    full_hd_fits.raster.Inside ⟨fun _ => 0, []⟩
        ([Action.set_background_color 0xFF, .call (.write [0x41, 0x41])].foldl
          (Action.run letter_font)
            (Framebuffer.terminal_initialize full_hd letter_font.height 0 fun _ => 0)).memory
      ∧ PenFits ([Action.set_background_color 0xFF, .call (.write [0x41, 0x41])].foldl
          (Action.run letter_font)
            (Framebuffer.terminal_initialize full_hd letter_font.height 0 fun _ => 0)).ssfn_dst :=
  terminal_inside full_hd_fits letter_font 0 _ _ (by simp [Action.Placeable])

end Screen

/-! ## §7. The framebuffer shows the picture. -/

section Display

variable {fb : LimineFramebuffer} {f : Font} {scr : Screen fb f.height} {t : Terminal}
  {m₀ : Memory} {p : Picture}

/-- The pen goes elsewhere. -/
theorem Displays.move (h : Displays scr m₀ t p) {x y : ℤ} {u v : ℕ} (hx : x = u) (hy : y = v) :
    Displays scr m₀ { t with ssfn_dst := { t.ssfn_dst with x := x, y := y } }
      { p with x := u, y := v } where
  framebuffer := h.framebuffer
  font_height := h.font_height
  placed := h.placed.move hx hy
  color := h.color
  shows := h.shows

/-- Another colour to write in. -/
theorem Displays.recolor (h : Displays scr m₀ t p) (c : UInt32) :
    Displays scr m₀ { t with ssfn_dst := { t.ssfn_dst with fg := c } } { p with color := c } where
  framebuffer := h.framebuffer
  font_height := h.font_height
  placed := h.placed.colors c t.ssfn_dst.bg
  color := rfl
  shows := h.shows

/-- A glyph is stamped on the picture. -/
theorem Displays.draw (h : Displays scr m₀ t p) (hbg : t.ssfn_dst.bg = 0) (c : UInt32) :
    Displays scr m₀ (renderer f t c) (p.draw (f.glyph c)) := by
  have hon := h.placed.on scr
  have hshows := renderer_shows hon hbg f c h.shows
  have hplaced := h.placed.advanced (f.glyph c)
  rw [← renderer_dst hon] at hplaced
  have hcolor : (renderer f t c).ssfn_dst.fg = p.color := by
    rw [renderer_dst hon, ← h.color]
    cases f.glyph c <;> rfl
  refine ⟨(renderer_framebuffer f t c).trans h.framebuffer,
    (renderer_font_height f t c).trans h.font_height, ?_, ?_, ?_⟩
  all_goals unfold Picture.draw
  · cases hg : f.glyph c <;> rw [hg] at hplaced <;> exact hplaced
  · cases f.glyph c <;> exact hcolor
  · cases hg : f.glyph c with
    | none =>
      rw [hg, Option.elim_none, overlay_inked_none] at hshows
      exact hshows
    | some g =>
      rw [hg] at hshows
      unfold inked at hshows
      rw [h.color] at hshows
      exact hshows

/-- Rows that are not padded. -/
def Linear (fb : LimineFramebuffer) : Prop := fb.pitch.toNat = 4 * fb.width.toNat

/-- Without padding the picture scrolls with the framebuffer: `scrolledUp_of_linear` says of pixels
    what `Picture.scroll` says of the picture. -/
theorem Displays.scroll (h : Displays scr m₀ t p) (hlinear : Linear fb) :
    Displays scr m₀ (terminal_scroll t) (p.scroll f fb.height.toNat) := by
  have hfits := scr.font_fits
  have hy : t.ssfn_dst.h - t.font_height.toNat
      = ((fb.height.toNat - f.height.toNat : ℕ) : ℤ) := by
    rw [h.placed.h, scr.height_eq, h.font_height]
    omega
  refine ⟨h.framebuffer, h.font_height, h.placed.move (u := 0) rfl hy, h.color,
    scroll_inside scr h.framebuffer h.font_height h.shows.toInside, ?_⟩
  have hscrolled : ScrolledUp t (terminal_scroll t) := by
    obtain ⟨hfb, hfont⟩ := And.intro h.framebuffer h.font_height
    refine scrolledUp_of_linear (by rw [hfb, hfont]; exact scr.toGeometry)
      (by rw [hfb]; exact scr.height_fits) (by rw [hfb]; exact h.placed.h) fun _ y _ => ?_
    rw [hfb, show fb.pitch.toNat = 4 * fb.width.toNat from hlinear]
    ring
  intro x hx y hy
  have hpixel : ∀ (u : Terminal) (y : ℕ), u.framebuffer = fb →
      scr.raster.word u.memory x y = pixel u x y := by
    intro u y hu
    unfold pixel
    rw [hu]
    rfl
  rw [hpixel (terminal_scroll t) y h.framebuffer]
  unfold Picture.scroll
  dsimp only
  obtain ⟨hmoved, hcleared, -, -⟩ := hscrolled
  rw [h.framebuffer, h.font_height] at hmoved hcleared
  split_ifs with habove
  · rw [hmoved x hx y habove, ← hpixel t _ h.framebuffer]
    exact h.shows.shown x hx (y + f.height.toNat) (show _ < fb.height.toNat by omega)
  · exact hcleared x hx y (Nat.le_of_not_lt habove) hy

/-- The pen of the picture goes with that of the terminal. -/
theorem Displays.next_line (h : Displays scr m₀ t p) :
    Displays scr m₀ (next_line t) (p.next_line f) := by
  refine h.move (u := 0) rfl ?_
  rw [h.placed.y, h.font_height]
  exact (Int.natCast_add p.y f.height.toNat).symm

/-- The pen is at the right margin, or past it. -/
theorem Displays.margin (h : Displays scr m₀ t p) :
    t.ssfn_dst.x ≥ t.ssfn_dst.w ↔ p.x ≥ fb.width.toNat := by
  rw [h.placed.x, h.placed.w, scr.width_eq]
  exact Int.ofNat_le

/-- The pen is below the last row. -/
theorem Displays.bottom (h : Displays scr m₀ t p) :
    t.ssfn_dst.y ≥ t.ssfn_dst.h ↔ p.y ≥ fb.height.toNat := by
  rw [h.placed.y, h.placed.h, scr.height_eq]
  exact Int.ofNat_le

/-- Or just there. -/
theorem Displays.edge (h : Displays scr m₀ t p) :
    t.ssfn_dst.y = t.ssfn_dst.h ↔ p.y = fb.height.toNat := by
  rw [h.placed.y, h.placed.h, scr.height_eq]
  exact Int.ofNat_inj

/-- A character on the picture, before the bottom is tested.  The tests of the terminal are those of
    the picture, one by one. -/
theorem Displays.advance (h : Displays scr m₀ t p) (hbg : t.ssfn_dst.bg = 0) (c : UInt8) :
    Displays scr m₀ (putchar_advance (renderer f) t c)
      (p.advance f fb.width.toNat fb.height.toNat c) := by
  have hglyph := h.draw hbg c.toUInt32
  have hnext := hglyph.next_line
  unfold putchar_advance Picture.advance
  dsimp only
  by_cases hc : c = newline
  · rw [if_pos hc, if_pos hc]
    exact h.next_line
  · rw [if_neg hc, if_neg hc, if_congr hglyph.margin rfl rfl, if_congr hnext.edge rfl rfl]
    split_ifs
    · -- from the bottom edge back to the top
      exact hnext.move (u := 0) (v := 0) rfl rfl
    · exact hnext
    · exact hglyph

/-- **One character** on a screen without padding. -/
theorem Displays.putchar (h : Displays scr m₀ t p) (hbg : t.ssfn_dst.bg = 0)
    (hlinear : Linear fb) (c : UInt8) :
    Displays scr m₀ (terminal_putchar (renderer f) t c)
      (p.put f fb.width.toNat fb.height.toNat c) := by
  have hadvance := h.advance hbg c
  unfold terminal_putchar Picture.put
  dsimp only
  rw [if_congr hadvance.bottom rfl rfl]
  split_ifs
  · exact hadvance.scroll hlinear
  · exact hadvance

/-- No character changes the colour behind the text. -/
theorem putchar_bg (f : Font) (t : Terminal) (c : UInt8) :
    (terminal_putchar (renderer f) t c).ssfn_dst.bg = t.ssfn_dst.bg := by
  have hglyph := renderer_bg f t c.toUInt32
  have hscroll : ∀ u : Terminal, (terminal_scroll u).ssfn_dst.bg = u.ssfn_dst.bg := fun _ => rfl
  have hadvance : (putchar_advance (renderer f) t c).ssfn_dst.bg = t.ssfn_dst.bg := by
    unfold putchar_advance
    dsimp only
    split_ifs
    · rfl
    · exact hglyph
    · exact hglyph
    · exact hglyph
  unfold terminal_putchar
  dsimp only
  split_ifs
  · rw [hscroll]
    exact hadvance
  · exact hadvance

/-- `Displays`, with nothing behind the text. -/
def Shown (scr : Screen fb f.height) (m₀ : Memory) (t : Terminal) (p : Picture) : Prop :=
  Displays scr m₀ t p ∧ t.ssfn_dst.bg = 0

/-- **A text.** -/
theorem write_shown (hlinear : Linear fb) (h : Shown scr m₀ t p) (data : List UInt8) :
    Shown scr m₀ (terminal_write (renderer f) t data)
      (p.write f fb.width.toNat fb.height.toNat data) := by
  refine List.foldl_rel h fun c _ t p h => ?_
  exact ⟨h.1.putchar h.2 hlinear c, (putchar_bg f t c).trans h.2⟩

/-- **One call.** -/
theorem action_shown (hlinear : Linear fb) (h : Shown scr m₀ t p) (a : Action)
    (hplace : a.Placeable fb) (hback : a.Transparent) :
    Shown scr m₀ (a.run f t) (a.meaning f fb.width.toNat fb.height.toNat p) := by
  cases a with
  | call c =>
    cases c with
    | putchar c => exact ⟨h.1.putchar h.2 hlinear c, (putchar_bg f t c).trans h.2⟩
    | write data => exact write_shown hlinear h data
    | writestring data => exact write_shown hlinear h _
  | putentryat c color x y =>
    have hx : 0 ≤ to_int x := by
      rw [scr.place_x hplace.1]
      omega
    have hy : 0 ≤ to_int y := by
      rw [scr.place_y hplace.2]
      omega
    have hmoved := (h.1.recolor color).move (Int.toNat_of_nonneg hx).symm
      (Int.toNat_of_nonneg hy).symm
    exact ⟨hmoved.draw h.2 c, (renderer_bg f _ c).trans h.2⟩
  | set_text_color c => exact ⟨h.1.recolor c, h.2⟩
  | reset_text_color => exact ⟨h.1.recolor COLORS_TEXT_FG, h.2⟩
  | set_background_color c => exact hback.elim
  | reset_background_color => exact hback.elim

/-- The cleared framebuffer shows an empty screen. -/
theorem initialize_shown (scr : Screen fb f.height) (hlinear : Linear fb) (byte : ℕ → UInt8) :
    Shown scr ⟨byte, []⟩ (Framebuffer.terminal_initialize fb f.height 0 byte) blank := by
  have hinside := initialize_inside scr 0 byte
  refine ⟨⟨rfl, rfl, initialize_placed fb f.height 0 byte, rfl, hinside, ?_⟩, rfl⟩
  intro x hx y hy
  have hx' : x < fb.width.toNat := hx
  have hy' : y < fb.height.toNat := hy
  have hend := line_end (w := fb.width.toNat) hy'
  have haddress : scr.raster.address x y
      = fb.address.toNat + 4 * (y * fb.width.toNat + x) := by
    show fb.address.toNat + y * fb.pitch.toNat + 4 * x = _
    rw [hlinear]
    ring
  show (clear_from fb (0 : ℕ) ⟨byte, []⟩).word32 _ = COLORS_BG
  rw [clear_from_eq scr.room (Nat.zero_le _), Nat.zero_mul, Nat.mul_zero, Nat.add_zero,
      Nat.sub_zero, haddress]
  refine Memory.word32_fill32 _ _ _ ?_
  rw [Nat.mul_comm fb.height.toNat]
  omega

/-- **The framebuffer shows the picture of what was called**, after every run on a screen without
    row padding, whatever the font says: pixel by pixel, with the pen in the same place, and with
    the rest of the memory as it was. -/
theorem terminal_displays (scr : Screen fb f.height) (hlinear : Linear fb) (byte : ℕ → UInt8)
    (as : List Action) (has : ∀ a ∈ as, a.Placeable fb ∧ a.Transparent) :
    Displays scr ⟨byte, []⟩
      (as.foldl (Action.run f) (Framebuffer.terminal_initialize fb f.height 0 byte))
      (as.foldl (Action.meaning f fb.width.toNat fb.height.toNat) blank) := by
  have hrun : Shown scr ⟨byte, []⟩
      (as.foldl (Action.run f) (Framebuffer.terminal_initialize fb f.height 0 byte))
      (as.foldl (Action.meaning f fb.width.toNat fb.height.toNat) blank) := by
    refine List.foldl_rel (initialize_shown scr hlinear byte) fun a ha t p h => ?_
    exact action_shown hlinear h a (has a ha).1 (has a ha).2
  exact hrun.1

/-- A letter at the end of the last row, and another one. -/
theorem terminal_displays_letters :
    Displays full_hd_fits ⟨fun _ => 0, []⟩
      ([Action.putentryat 0x41 0xFF 1912 1064, .call (.write [0x41])].foldl
        (Action.run letter_font)
          (Framebuffer.terminal_initialize full_hd letter_font.height 0 fun _ => 0))
      ([Action.putentryat 0x41 0xFF 1912 1064, .call (.write [0x41])].foldl
        (Action.meaning letter_font 1920 1080) blank) :=
  terminal_displays full_hd_fits (by unfold Linear; decide) _ _ (by
    intro a ha
    rw [List.mem_cons, List.mem_singleton] at ha
    rcases ha with rfl | rfl
    · exact ⟨⟨by decide, by decide⟩, trivial⟩
    · exact ⟨trivial, trivial⟩)

end Display

/-! ## §8. A text on a line. -/

namespace Font

/-- How far a character moves the pen. -/
def advance (f : Font) (c : UInt8) : ℕ := (f.glyph c.toUInt32).elim 0 Glyph.advance_x

/-- And how far down. -/
def drop (f : Font) (c : UInt8) : ℕ := (f.glyph c.toUInt32).elim 0 Glyph.advance_y

/-- The pixels of a character's glyph; one without a glyph has none. -/
def ink (f : Font) (c : UInt8) : ℕ → ℕ → Bool :=
  (f.glyph c.toUInt32).elim (fun _ _ => false) Glyph.ink

/-- How far the characters move the pen together. -/
def line_width (f : Font) (s : List UInt8) : ℕ := (s.map f.advance).sum

/-- The glyphs side by side. -/
def line_ink (f : Font) : List UInt8 → ℕ → ℕ → Bool
  | [], _, _ => false
  | c :: s, x, y => f.ink c x y || (f.advance c ≤ x && line_ink f s (x - f.advance c) y)

end Font

section Line

variable {fb : LimineFramebuffer} {f : Font} {scr : Screen fb f.height} {m₀ : Memory}

/-- A character that fits on the line, with room behind it. -/
theorem putchar_on_line {t : Terminal} {p : Picture} (h : Shown scr m₀ t p) {c : UInt8}
    (hc : c ≠ newline) (hflat : f.drop c = 0) (hx : p.x + f.advance c < fb.width.toNat)
    (hy : p.y < fb.height.toNat) :
    Shown scr m₀ (terminal_putchar (renderer f) t c) { p with
      pixel := Raster.overlay p.pixel p.x p.y fun x y => if f.ink c x y then some p.color else none
      x := p.x + f.advance c } := by
  obtain ⟨hd, hbg⟩ := h
  have hglyph := hd.draw hbg c.toUInt32
  have hdraw : p.draw (f.glyph c.toUInt32) = { p with
      pixel := Raster.overlay p.pixel p.x p.y fun x y => if f.ink c x y then some p.color else none
      x := p.x + f.advance c } := by
    unfold Font.drop at hflat
    unfold Picture.draw Font.ink Font.advance
    cases hg : f.glyph c.toUInt32 with
    | none =>
      show p = _
      simp only [Option.elim_none, Bool.false_eq_true, if_false, Raster.overlay_none, Nat.add_zero]
    | some g =>
      rw [hg] at hflat
      have hdrop : g.advance_y = 0 := hflat
      dsimp only
      rw [hdrop]
      rfl
  rw [hdraw] at hglyph
  have hroom : ¬ (renderer f t c.toUInt32).ssfn_dst.x ≥ (renderer f t c.toUInt32).ssfn_dst.w := by
    rw [hglyph.margin]
    exact Nat.not_le_of_lt hx
  have hadvance : putchar_advance (renderer f) t c = renderer f t c.toUInt32 := by
    unfold putchar_advance
    rw [if_neg hc, if_neg hroom]
  have hput : terminal_putchar (renderer f) t c = renderer f t c.toUInt32 := by
    unfold terminal_putchar
    rw [hadvance, if_neg]
    rw [hglyph.bottom]
    exact Nat.not_le_of_lt hy
  rw [hput]
  exact ⟨hglyph, (renderer_bg f t _).trans hbg⟩

/-- **The characters of a line stand side by side.**  By induction on the text: the overlay of the
    first glyph and that of the rest, moved by its advance, are one overlay. -/
theorem write_on_line (s : List UInt8) :
    ∀ {t : Terminal} {p : Picture}, Shown scr m₀ t p → (∀ c ∈ s, c ≠ newline ∧ f.drop c = 0) →
      p.x + f.line_width s < fb.width.toNat → p.y < fb.height.toNat →
        Shown scr m₀ (terminal_write (renderer f) t s) { p with
          pixel := Raster.overlay p.pixel p.x p.y fun x y =>
            if f.line_ink s x y then some p.color else none
          x := p.x + f.line_width s } := by
  induction s with
  | nil =>
    intro t p h _ _ _
    have hnone := Raster.overlay_none p.pixel p.x p.y
    simp only [Font.line_ink, Bool.false_eq_true, if_false]
    rw [hnone]
    exact h
  | cons c s ih =>
    intro t p h hs hx hy
    rw [Font.line_width, List.map_cons, List.sum_cons] at hx
    obtain ⟨hc, hflat⟩ := hs c List.mem_cons_self
    have hfirst := putchar_on_line h hc hflat (by omega) hy
    have hrest := ih hfirst (fun c hmem => hs c (List.mem_cons_of_mem _ hmem))
      (by show p.x + f.advance c + _ < _; rw [Font.line_width]; omega) hy
    dsimp only at hrest
    -- the rest is drawn where the first glyph has put the pen
    rw [Raster.overlay_right, Raster.overlay_overlay] at hrest
    have hpicture : (fun x y => if f.line_ink (c :: s) x y then some p.color else none)
        = fun x y => (if f.advance c ≤ x then
            if f.line_ink s (x - f.advance c) y then some p.color else none else none).or
              (if f.ink c x y then some p.color else none) := by
      funext x y
      rw [Font.line_ink]
      by_cases h₁ : f.ink c x y = true <;> by_cases h₂ : f.advance c ≤ x <;>
        by_cases h₃ : f.line_ink s (x - f.advance c) y = true <;> simp [h₁, h₂, h₃]
    have hwidth : p.x + f.line_width (c :: s) = p.x + f.advance c + f.line_width s := by
      rw [Font.line_width, List.map_cons, List.sum_cons, ← Nat.add_assoc]
      rfl
    rw [hpicture, hwidth]
    exact hrest

/-- The pixels of a text that fits on its line, and the pen behind it: nothing else on the screen
    changes.  The text has no newline and no glyph of it moves the pen down; behind it there is a
    column left, so that the margin is not reached.  Nothing is drawn behind the glyphs, which is
    what `hbg` says. -/
theorem line_shown (scr : Screen fb f.height) {t : Terminal} {x y : ℕ} (hfb : t.framebuffer = fb)
    (hfont : t.font_height = f.height) (hplaced : Placed fb x y t.ssfn_dst)
    (hbg : t.ssfn_dst.bg = 0) (s : List UInt8) (hs : ∀ c ∈ s, c ≠ newline ∧ f.drop c = 0)
    (hx : x + f.line_width s < fb.width.toNat) (hy : y < fb.height.toNat) :
    (∀ x' < fb.width.toNat, ∀ y' < fb.height.toNat,
        pixel (terminal_write (renderer f) t s) x' y'
          = if (x ≤ x' ∧ y ≤ y') ∧ f.line_ink s (x' - x) (y' - y) then t.ssfn_dst.fg
            else pixel t x' y')
      ∧ Placed fb (x + f.line_width s) y (terminal_write (renderer f) t s).ssfn_dst := by
  have hstart : Shown scr t.memory t ⟨scr.raster.word t.memory, x, y, t.ssfn_dst.fg⟩ :=
    ⟨⟨hfb, hfont, hplaced, rfl, (Raster.Inside.refl _ _).shows⟩, hbg⟩
  obtain ⟨hd, -⟩ := write_on_line s hstart hs hx hy
  refine ⟨fun x' hx' y' hy' => ?_, hd.placed⟩
  have hpixel : ∀ u : Terminal, u.framebuffer = fb →
      pixel u x' y' = scr.raster.word u.memory x' y' := by
    intro u hu
    unfold pixel
    rw [hu]
    rfl
  rw [hpixel _ hd.framebuffer, hpixel _ hfb, hd.shows.shown x' hx' y' hy']
  unfold Raster.overlay
  dsimp only
  -- left of the text or above it nothing is drawn
  by_cases hin : x ≤ x' ∧ y ≤ y'
  · rw [if_pos hin]
    by_cases hink : f.line_ink s (x' - x) (y' - y) = true
    · rw [if_pos hink, if_pos ⟨hin, hink⟩]
      rfl
    · rw [if_neg hink, if_neg fun h => hink h.2]
      rfl
  · rw [if_neg hin, if_neg fun h => hin h.1]

/-- Of two letters the second is eight pixels to the right. -/
theorem line_shown_letters :
    pixel (terminal_write (renderer letter_font)
      (Framebuffer.terminal_initialize full_hd letter_font.height 0 fun _ => 0) [0x41, 0x41]) 11 4
        = COLORS_TEXT_FG := by
  obtain ⟨hpixel, -⟩ := line_shown full_hd_fits
    (t := terminal_initialize full_hd letter_font.height 0 fun _ => 0) rfl rfl
    (initialize_placed full_hd letter_font.height 0 fun _ => 0) rfl [0x41, 0x41]
    (by decide +kernel) (by decide +kernel) (by decide)
  rw [hpixel 11 (by decide) 4 (by decide), if_pos (by decide +kernel)]
  rfl

end Line

end Hippos.Framebuffer
