/-
  Hippos.Framebuffer.Scroll — what the graphical `terminal_scroll` does to the pixels.

  Source and destination of the move are computed from the pitch, its length and the clearing loop
  from the width.  With row padding the two disagree, and rows of the picture slide into each
  other.  Without it the move and the loop are a shift of words followed by a fill.

  The clearing loops count rows and columns in `int`s.  `terminal_scroll_int` carries these counters
  and has no result where one of them overflows; where it has one, it is that of `terminal_scroll`.

  Main results:
    * `clear_from_eq` — the clearing loops as a fill of consecutive words.
    * `terminal_scroll_memory` — memory after the call, as a move and a fill.
    * `scrolledUp_of_linear` — without row padding the picture moves up by one text line.
    * `scrolls_one_line_iff` — the framebuffers on which that is what happens.
-/
import Hippos.Framebuffer.Tty
import Hippos.Libc.Memmove
import Mathlib.Tactic.Ring

namespace Hippos.Framebuffer

open Hippos.Lib
open Hippos.Libc

/-! ## §1. Conversions. -/

/-- Conversion to `int`, case by case. -/
theorem to_int_eq (v : UInt64) :
    to_int v = if v.toNat % 2 ^ 32 < 2 ^ 31 then ((v.toNat % 2 ^ 32 : ℕ) : ℤ)
      else ((v.toNat % 2 ^ 32 : ℕ) : ℤ) - 2 ^ 32 := by
  have hlow : v.toUInt32.toBitVec.toNat = v.toNat % 2 ^ 32 := UInt64.toNat_toUInt32 v
  show v.toUInt32.toBitVec.toInt = _
  rw [BitVec.toInt_eq_toNat_cond, hlow]
  split_ifs <;> omega

/-- A number below 2^31 is its own `int`. -/
theorem to_int_of_lt {v : UInt64} (h : v.toNat < 2 ^ 31) : to_int v = v.toNat := by
  rw [to_int_eq, if_pos (by omega), Nat.mod_eq_of_lt (by omega)]

/-- No `int` is larger. -/
theorem to_int_lt (v : UInt64) : to_int v < 2 ^ 31 := by
  rw [to_int_eq]
  split_ifs <;> omega

/-- A number below 2^64 survives the conversion to 64 bits. -/
theorem ofInt_toNat {k : ℕ} (h : k < 2 ^ 64) : (UInt64.ofInt (k : ℤ)).toNat = k := by
  rw [UInt64.ofInt, UInt64.toNat_ofNat']
  omega

/-! ## §2. The clearing loops. -/

section Clearing

variable {fb : LimineFramebuffer}

/-- Line `k` has its `w` pixels among the first `w * h`. -/
theorem line_end {w h k : ℕ} (hk : k < h) : k * w + w ≤ w * h := by
  calc k * w + w = w * (k + 1) := by ring
    _ ≤ w * h := Nat.mul_le_mul_left w hk

/-- Where the clearing loop stores a pixel: rows are as long as the width, not as the pitch.  The
    sum does not wrap while the visible pixels end before the address space does. -/
theorem pixel_address_eq
    (hroom : fb.address.toNat + 4 * (fb.width.toNat * fb.height.toNat) ≤ 2 ^ 64) {x k : ℕ}
    (hx : x < fb.width.toNat) (hk : k < fb.height.toNat) :
    pixel_address fb x (k : ℤ) = fb.address.toNat + 4 * (k * fb.width.toNat) + 4 * x := by
  have hend := line_end (w := fb.width.toNat) hk
  have hwlt := fb.width.toNat_lt
  have hklt : k < 2 ^ 64 := Nat.lt_trans hk fb.height.toNat_lt
  have hfour : (4 : UInt64).toNat = 4 := rfl
  rw [pixel_address, UInt64.toNat_add, UInt64.toNat_mul, UInt64.toNat_add, UInt64.toNat_mul,
      ofInt_toNat hklt, UInt64.toNat_ofNat', hfour]
  generalize k * fb.width.toNat = n at hend
  omega

/-- The inner loop fills the start of a line. -/
theorem clear_line_eq
    (hroom : fb.address.toNat + 4 * (fb.width.toNat * fb.height.toNat) ≤ 2 ^ 64) {k : ℕ}
    (hk : k < fb.height.toNat) (m : Memory) (x : ℕ) (hx : x ≤ fb.width.toNat) :
    clear_line fb (k : ℤ) m x
      = m.fill32 (fb.address.toNat + 4 * (k * fb.width.toNat)) COLORS_BG x := by
  induction x with
  | zero => rfl
  | succ x ih => rw [clear_line, ih (by omega), pixel_address_eq hroom (by omega) hk, Memory.fill32]

/-- The outer loop fills whole lines, one after the other, so that one fill does for all of them. -/
theorem clear_lines_eq
    (hroom : fb.address.toNat + 4 * (fb.width.toNat * fb.height.toNat) ≤ 2 ^ 64) {y : ℕ}
    (m : Memory) (n : ℕ) (hn : y + n ≤ fb.height.toNat) :
    clear_lines fb (y : ℤ) m n
      = m.fill32 (fb.address.toNat + 4 * (y * fb.width.toNat)) COLORS_BG (n * fb.width.toNat) := by
  induction n with
  | zero =>
    rw [clear_lines, Nat.zero_mul]
    rfl
  | succ n ih =>
    have hline : fb.address.toNat + 4 * ((y + n) * fb.width.toNat)
        = fb.address.toNat + 4 * (y * fb.width.toNat) + 4 * (n * fb.width.toNat) := by ring
    rw [clear_lines, ih (by omega), ← Int.natCast_add, clear_line_eq hroom (by omega) _ _ le_rfl,
        hline, Memory.fill32_append, Nat.add_mul n 1, Nat.one_mul]

/-- **The clearing loops fill from line `y` to the end.**  Lines are as long as the width for these
    loops, so the fill is one of consecutive words, and ends with the last of `width * height` of
    them. -/
theorem clear_from_eq
    (hroom : fb.address.toNat + 4 * (fb.width.toNat * fb.height.toNat) ≤ 2 ^ 64) {y : ℕ}
    (hy : y ≤ fb.height.toNat) (m : Memory) :
    clear_from fb (y : ℤ) m
      = m.fill32 (fb.address.toNat + 4 * (y * fb.width.toNat)) COLORS_BG
          ((fb.height.toNat - y) * fb.width.toNat) := by
  have hylt : y < 2 ^ 64 := Nat.lt_of_le_of_lt hy fb.height.toNat_lt
  rw [clear_from, ofInt_toNat hylt, clear_lines_eq hroom m _ (by omega)]

end Clearing

/-! ## §3. The counters of the loops. -/

/-- The inner loop with its `int` counter at `x` and `left` columns to go: `none` when `x++`
    overflows, which C leaves undefined. -/
def clear_line_int (fb : LimineFramebuffer) (y : ℤ) : (left : ℕ) → (x : ℕ) → Memory → Option Memory
  | 0, _, m => some m
  | left + 1, x, m =>
    let m := m.store32 (pixel_address fb x y) COLORS_BG
    if x = 2 ^ 31 - 1 then none else clear_line_int fb y left (x + 1) m

/-- The outer loop with its counter at `y`. -/
def clear_lines_int (fb : LimineFramebuffer) : (left : ℕ) → (y : ℤ) → Memory → Option Memory
  | 0, _, m => some m
  | left + 1, y, m =>
    match clear_line_int fb y fb.width.toNat 0 m with
    | none => none
    | some m => if y = 2 ^ 31 - 1 then none else clear_lines_int fb left (y + 1) m

/-- `terminal_scroll` with both counters. -/
def terminal_scroll_int (t : Terminal) : Option Terminal :=
  let fb := t.framebuffer
  let src_ptr := fb.address + (t.font_height.toUInt64 * (fb.pitch / 4) + 0) * 4
  let dst_ptr := fb.address + (0 * (fb.pitch / 4) + 0) * 4
  let total_size := fb.width * (fb.height - t.font_height.toUInt64) * 4
  let memory := memmove t.memory dst_ptr.toNat src_ptr.toNat total_size.toNat
  let y := to_int (fb.height - t.font_height.toUInt64)
  (clear_lines_int fb (fb.height.toNat - (UInt64.ofInt y).toNat) y memory).map fun memory =>
    { t with
      memory := memory
      ssfn_dst := { t.ssfn_dst with x := 0, y := t.ssfn_dst.h - t.font_height.toNat } }

section Counters

variable {fb : LimineFramebuffer} {y : ℤ}

/-- As far as the inner loop comes, it does what the one without a counter does. -/
theorem clear_line_int_some (m : Memory) (left : ℕ) :
    ∀ {x : ℕ} {m' : Memory}, clear_line_int fb y left x (clear_line fb y m x) = some m' →
      m' = clear_line fb y m (x + left) := by
  induction left with
  | zero => exact fun h => (Option.some.inj h).symm
  | succ left ih =>
    intro x m' h
    rw [clear_line_int] at h
    split_ifs at h
    rw [Nat.add_comm left 1, ← Nat.add_assoc]
    exact ih h

/-- It comes to its end exactly when the last value of the counter is an `int`. -/
theorem clear_line_int_iff (left : ℕ) :
    ∀ {x : ℕ} {m : Memory}, x < 2 ^ 31 →
      ((∃ m', clear_line_int fb y left x m = some m') ↔ x + left < 2 ^ 31) := by
  induction left with
  | zero => exact fun hx => iff_of_true ⟨_, rfl⟩ hx
  | succ left ih =>
    intro x m hx
    rw [clear_line_int]
    split_ifs with hmax
    · exact iff_of_false (fun h => by obtain ⟨m', h⟩ := h; cases h) (by omega)
    · rw [ih (by omega), Nat.add_assoc, Nat.add_comm 1 left]

/-- The same for the outer loop, of which the inner one is a round. -/
theorem clear_lines_int_some (m : Memory) (left : ℕ) :
    ∀ {k : ℕ} {m' : Memory}, clear_lines_int fb left (y + k) (clear_lines fb y m k) = some m' →
      m' = clear_lines fb y m (k + left) := by
  induction left with
  | zero => exact fun h => (Option.some.inj h).symm
  | succ left ih =>
    intro k m' h
    rw [clear_lines_int] at h
    cases hline : clear_line_int fb (y + k) fb.width.toNat 0 (clear_lines fb y m k) with
    | none =>
      rw [hline] at h
      cases h
    | some m₁ =>
      rw [hline] at h
      dsimp only at h
      split_ifs at h
      -- one line further
      have hm₁ : m₁ = clear_lines fb y m (k + 1) := by
        rw [clear_line_int_some (clear_lines fb y m k) _ hline, Nat.zero_add, clear_lines]
      rw [hm₁, Int.add_assoc, show (k : ℤ) + 1 = ((k + 1 : ℕ) : ℤ) from rfl] at h
      rw [Nat.add_comm left 1, ← Nat.add_assoc]
      exact ih h

theorem clear_lines_int_start {left : ℕ} {m m' : Memory}
    (h : clear_lines_int fb left y m = some m') : m' = clear_lines fb y m left := by
  have hstart : clear_lines_int fb left (y + (0 : ℕ)) (clear_lines fb y m 0) = some m' →
      m' = clear_lines fb y m (0 + left) := clear_lines_int_some m left
  rw [Int.natCast_zero, Int.add_zero, Nat.zero_add] at hstart
  exact hstart h

/-- Both loops come to their ends when rows and columns are counted by `int`s. -/
theorem clear_lines_int_exists (hw : fb.width.toNat < 2 ^ 31) (left : ℕ) :
    ∀ {y : ℤ} {m : Memory}, y + left < 2 ^ 31 → ∃ m', clear_lines_int fb left y m = some m' := by
  induction left with
  | zero => exact fun _ => ⟨_, rfl⟩
  | succ left ih =>
    intro y m hy
    obtain ⟨m₁, hline⟩ : ∃ m₁, clear_line_int fb y fb.width.toNat 0 m = some m₁ :=
      (clear_line_int_iff _ (by decide)).mpr (by omega)
    rw [clear_lines_int, hline]
    dsimp only
    -- the counter is below the last line's, so its increment is an `int`
    rw [if_neg (by omega)]
    exact ih (by omega)

/-- A single line shows whether the columns can be counted. -/
theorem clear_lines_int_columns {left : ℕ} {m m' : Memory}
    (h : clear_lines_int fb (left + 1) y m = some m') : fb.width.toNat < 2 ^ 31 := by
  rw [clear_lines_int] at h
  cases hline : clear_line_int fb y fb.width.toNat 0 m with
  | none =>
    rw [hline] at h
    cases h
  | some m₁ =>
    have hcolumns := (clear_line_int_iff fb.width.toNat (by decide)).mp ⟨m₁, hline⟩
    omega

end Counters

/-- **Where the counters do not overflow, scrolling does what `terminal_scroll` does.** -/
theorem terminal_scroll_int_some {t t' : Terminal} (h : terminal_scroll_int t = some t') :
    t' = terminal_scroll t := by
  obtain ⟨memory, hmemory, rfl⟩ := Option.map_eq_some_iff.mp h
  rw [clear_lines_int_start hmemory]
  rfl

/-! ## §4. Scrolling by content. -/

/-- Pixel `(x, y)`, addressed by the pitch as the renderer does. -/
def pixel (t : Terminal) (x y : ℕ) : UInt32 :=
  t.memory.word32 (t.framebuffer.address.toNat + y * t.framebuffer.pitch.toNat + 4 * x)

/-- A 32-bit framebuffer in memory, and a font that fits on it. -/
structure Geometry (fb : LimineFramebuffer) (font_height : UInt8) : Prop where
  pitch_words : fb.pitch.toNat % 4 = 0
  pitch_covers : 4 * fb.width.toNat ≤ fb.pitch.toNat
  font_pos : 0 < font_height.toNat
  font_fits : font_height.toNat ≤ fb.height.toNat
  addressable : fb.address.toNat + (fb.height.toNat - 1) * fb.pitch.toNat + 4 * fb.width.toNat
    ≤ 2 ^ 64

/-- The picture of `t'` is that of `t` moved up by one text line, with an empty line below. -/
structure ScrolledUp (t t' : Terminal) : Prop where
  moved : ∀ x < t.framebuffer.width.toNat,
    ∀ y < t.framebuffer.height.toNat - t.font_height.toNat,
      pixel t' x y = pixel t x (y + t.font_height.toNat)
  cleared : ∀ x < t.framebuffer.width.toNat,
    ∀ y, t.framebuffer.height.toNat - t.font_height.toNat ≤ y → y < t.framebuffer.height.toNat →
      pixel t' x y = COLORS_BG
  cursor_x : t'.ssfn_dst.x = 0
  cursor_y : t'.ssfn_dst.y = t.framebuffer.height.toNat - t.font_height.toNat

/-- Every column has an `int` for its number. -/
def ColumnsFit (fb : LimineFramebuffer) : Prop := fb.width.toNat < 2 ^ 31

/-- **`terminal_scroll` scrolls by one text line**: on terminals that were initialised for this
    framebuffer, and whatever the picture shows, no counter overflows and the picture moves up. -/
def ScrollsOneLine (fb : LimineFramebuffer) (font_height : UInt8) : Prop :=
  ∀ t : Terminal, t.framebuffer = fb → t.font_height = font_height →
    t.ssfn_dst.h = to_int fb.height → ∃ t', terminal_scroll_int t = some t' ∧ ScrolledUp t t'

section Content

variable {t : Terminal}

/-- The visible pixels, without padding, end before the address space does. -/
theorem Geometry.room {fb : LimineFramebuffer} {fh : UInt8} (g : Geometry fb fh) :
    fb.address.toNat + 4 * (fb.width.toNat * fb.height.toNat) ≤ 2 ^ 64 := by
  have hfit := g.font_fits
  have hpos := g.font_pos
  have haddr := g.addressable
  -- all rows but the last are as long as the pitch
  obtain ⟨h, hh⟩ : ∃ h, fb.height.toNat = h + 1 := ⟨fb.height.toNat - 1, by omega⟩
  rw [hh, Nat.add_sub_cancel] at haddr
  have hrows : h * (4 * fb.width.toNat) ≤ h * fb.pitch.toNat :=
    Nat.mul_le_mul_left h g.pitch_covers
  have hsplit : 4 * (fb.width.toNat * (h + 1)) = h * (4 * fb.width.toNat) + 4 * fb.width.toNat := by
    ring
  rw [hh, hsplit]
  omega

/-- The height less the font, as the code computes it. -/
theorem Geometry.lines_toNat {fb : LimineFramebuffer} {fh : UInt8} (g : Geometry fb fh) :
    (fb.height - fh.toUInt64).toNat = fb.height.toNat - fh.toNat := by
  have hle : fh.toUInt64 ≤ fb.height := by
    rw [UInt64.le_iff_toNat_le, UInt8.toNat_toUInt64]
    exact g.font_fits
  rw [UInt64.toNat_sub_of_le _ _ hle, UInt8.toNat_toUInt64]

/-- The pixels are those above the last text line and those in it. -/
theorem Geometry.pixels_split {fb : LimineFramebuffer} {fh : UInt8} (g : Geometry fb fh) :
    fb.width.toNat * fb.height.toNat
      = (fb.height.toNat - fh.toNat) * fb.width.toNat + fh.toNat * fb.width.toNat := by
  rw [← Nat.add_mul, Nat.sub_add_cancel g.font_fits, Nat.mul_comm]

/-- The number of bytes moved. -/
theorem Geometry.size_toNat {fb : LimineFramebuffer} {fh : UInt8} (g : Geometry fb fh) :
    (fb.width * (fb.height - fh.toUInt64) * 4).toNat
      = 4 * ((fb.height.toNat - fh.toNat) * fb.width.toNat) := by
  have hroom := g.room
  have hpos := g.font_pos
  have hfit := g.font_fits
  have hfour : (4 : UInt64).toNat = 4 := rfl
  -- at least one line is not moved, so the product stays below the whole screen
  have hless : (fb.height.toNat - fh.toNat) * fb.width.toNat + fb.width.toNat
      ≤ fb.width.toNat * fb.height.toNat := line_end (by omega)
  have hempty : fb.width.toNat = 0 → (fb.height.toNat - fh.toNat) * fb.width.toNat = 0 := by
    intro h
    rw [h, Nat.mul_zero]
  rw [UInt64.toNat_mul, UInt64.toNat_mul, g.lines_toNat, hfour,
      Nat.mul_comm fb.width.toNat (fb.height.toNat - fh.toNat)]
  generalize (fb.height.toNat - fh.toNat) * fb.width.toNat = n at hless hempty
  omega

/-- Where the move reads, while there is something to move. -/
theorem Geometry.src_toNat {fb : LimineFramebuffer} {fh : UInt8} (g : Geometry fb fh)
    (hw : 0 < fb.width.toNat) (hlt : fh.toNat < fb.height.toNat) :
    (fb.address + (fh.toUInt64 * (fb.pitch / 4) + 0) * 4).toNat
      = fb.address.toNat + fh.toNat * fb.pitch.toNat := by
  have haddr := g.addressable
  have hwords := g.pitch_words
  have hfour : (4 : UInt64).toNat = 4 := rfl
  have hpitch : fh.toNat * fb.pitch.toNat = 4 * (fh.toNat * (fb.pitch.toNat / 4)) := by
    calc fh.toNat * fb.pitch.toNat = fh.toNat * (4 * (fb.pitch.toNat / 4)) := by
          rw [Nat.mul_div_cancel' (Nat.dvd_of_mod_eq_zero hwords)]
      _ = 4 * (fh.toNat * (fb.pitch.toNat / 4)) := by ring
  have hrows : fh.toNat * fb.pitch.toNat ≤ (fb.height.toNat - 1) * fb.pitch.toNat :=
    Nat.mul_le_mul_right _ (by omega)
  rw [UInt64.toNat_add, UInt64.add_zero, UInt64.toNat_mul, UInt64.toNat_mul,
      UInt8.toNat_toUInt64, UInt64.toNat_div, hfour, hpitch]
  -- the product is below the end of the screen, hence below 2^64
  rw [hpitch] at hrows
  generalize fh.toNat * (fb.pitch.toNat / 4) = n at hrows
  omega

/-- The last byte read is on the screen. -/
theorem Geometry.src_end {fb : LimineFramebuffer} {fh : UInt8} (g : Geometry fb fh)
    (hlt : fh.toNat < fb.height.toNat) :
    fh.toNat * fb.pitch.toNat + 4 * ((fb.height.toNat - fh.toNat) * fb.width.toNat)
      ≤ (fb.height.toNat - 1) * fb.pitch.toNat + 4 * fb.width.toNat := by
  -- the rows moved, all but the last of them as long as the pitch
  obtain ⟨k, hk⟩ : ∃ k, fb.height.toNat = fh.toNat + k + 1 :=
    ⟨fb.height.toNat - fh.toNat - 1, by omega⟩
  have hrows : k * (4 * fb.width.toNat) ≤ k * fb.pitch.toNat :=
    Nat.mul_le_mul_left k g.pitch_covers
  rw [hk, Nat.add_sub_cancel, Nat.add_assoc, Nat.add_sub_cancel_left]
  calc fh.toNat * fb.pitch.toNat + 4 * ((k + 1) * fb.width.toNat)
      = fh.toNat * fb.pitch.toNat + k * (4 * fb.width.toNat) + 4 * fb.width.toNat := by ring
    _ ≤ fh.toNat * fb.pitch.toNat + k * fb.pitch.toNat + 4 * fb.width.toNat := by omega
    _ = (fh.toNat + k) * fb.pitch.toNat + 4 * fb.width.toNat := by ring

/-- **Neither range of the move wraps around the address space.** -/
theorem Geometry.move_inSpace {fb : LimineFramebuffer} {fh : UInt8} (g : Geometry fb fh) :
    Machine.InSpace fb.address.toBitVec (fb.width * (fb.height - fh.toUInt64) * 4).toBitVec
      ∧ Machine.InSpace (fb.address + (fh.toUInt64 * (fb.pitch / 4) + 0) * 4).toBitVec
        (fb.width * (fb.height - fh.toUInt64) * 4).toBitVec := by
  have hsize := g.size_toNat
  have haddr := g.addressable
  have hroom := g.room
  have hfit := g.font_fits
  constructor
  · have hpart : (fb.height.toNat - fh.toNat) * fb.width.toNat
        ≤ fb.width.toNat * fb.height.toNat := by
      rw [g.pixels_split]
      exact Nat.le_add_right _ _
    show fb.address.toNat + (fb.width * (fb.height - fh.toUInt64) * 4).toNat ≤ 2 ^ 64
    omega
  · show (fb.address + (fh.toUInt64 * (fb.pitch / 4) + 0) * 4).toNat
      + (fb.width * (fb.height - fh.toUInt64) * 4).toNat ≤ 2 ^ 64
    by_cases hmove : 0 < fb.width.toNat ∧ fh.toNat < fb.height.toNat
    · have hend := g.src_end hmove.2
      rw [g.src_toNat hmove.1 hmove.2]
      omega
    · -- nothing to move: the source may be anywhere
      have hsrc := (fb.address + (fh.toUInt64 * (fb.pitch / 4) + 0) * 4).toNat_lt
      have hnone : (fb.height.toNat - fh.toNat) * fb.width.toNat = 0 := by
        rw [Nat.mul_eq_zero]
        omega
      omega

/-- Scrolling leaves the screen as it was set up. -/
theorem terminal_scroll_framebuffer (t : Terminal) :
    (terminal_scroll t).framebuffer = t.framebuffer := rfl

/-- The destination of the move is the first pixel. -/
theorem dst_address (address pitch : UInt64) :
    address + (0 * (pitch / 4) + 0) * 4 = address := by
  rw [UInt64.zero_mul, UInt64.add_zero, UInt64.zero_mul, UInt64.add_zero]

/-- **The move of `terminal_scroll` is the one the machine makes**: neither range wraps, so the
    loops on words are those on numbers. -/
theorem terminal_scroll_machine (g : Geometry t.framebuffer t.font_height) {rounds : ℕ}
    (hrounds : (t.framebuffer.width * (t.framebuffer.height - t.font_height.toUInt64) * 4).toNat
      < rounds) :
    ∃ memory,
      Machine.memmove rounds t.memory t.framebuffer.address.toBitVec
          (t.framebuffer.address
            + (t.font_height.toUInt64 * (t.framebuffer.pitch / 4) + 0) * 4).toBitVec
          (t.framebuffer.width * (t.framebuffer.height - t.font_height.toUInt64) * 4).toBitVec
        = some (t.framebuffer.address.toBitVec, memory)
      ∧ (terminal_scroll t).memory = clear_from t.framebuffer
          (to_int (t.framebuffer.height - t.font_height.toUInt64)) memory := by
  obtain ⟨hdst, hsrc⟩ := g.move_inSpace
  refine ⟨_, Machine.memmove_eq hdst hsrc hrounds t.memory, ?_⟩
  unfold terminal_scroll
  dsimp only
  rw [dst_address]
  rfl

/-- Where the clearing loops start. -/
theorem scroll_start (g : Geometry t.framebuffer t.font_height)
    (hh : t.framebuffer.height.toNat < 2 ^ 31) :
    to_int (t.framebuffer.height - t.font_height.toUInt64)
      = ((t.framebuffer.height.toNat - t.font_height.toNat : ℕ) : ℤ) := by
  rw [to_int_of_lt (by rw [g.lines_toNat]; omega), g.lines_toNat]

/-- **Memory after `terminal_scroll`**: the move, then a fill of the last text line.  Both are
    counted in words of the width; the pitch is left in the address the move reads from, and nowhere
    else. -/
theorem terminal_scroll_memory (g : Geometry t.framebuffer t.font_height)
    (hh : t.framebuffer.height.toNat < 2 ^ 31) :
    (terminal_scroll t).memory
      = (memmove t.memory t.framebuffer.address.toNat
          (t.framebuffer.address
            + (t.font_height.toUInt64 * (t.framebuffer.pitch / 4) + 0) * 4).toNat
          (4 * ((t.framebuffer.height.toNat - t.font_height.toNat)
            * t.framebuffer.width.toNat))).fill32
        (t.framebuffer.address.toNat + 4 * ((t.framebuffer.height.toNat - t.font_height.toNat)
          * t.framebuffer.width.toNat)) COLORS_BG
        (t.font_height.toNat * t.framebuffer.width.toNat) := by
  have hfit := g.font_fits
  have hrest : t.framebuffer.height.toNat
      - (t.framebuffer.height.toNat - t.font_height.toNat) = t.font_height.toNat := by omega
  unfold terminal_scroll
  dsimp only
  rw [dst_address, scroll_start g hh, g.size_toNat, clear_from_eq g.room (by omega), hrest]

/-- How many lines they clear. -/
theorem scroll_rounds (g : Geometry t.framebuffer t.font_height)
    (hh : t.framebuffer.height.toNat < 2 ^ 31) :
    t.framebuffer.height.toNat
        - (UInt64.ofInt (to_int (t.framebuffer.height - t.font_height.toUInt64))).toNat
      = t.font_height.toNat := by
  have hfit := g.font_fits
  rw [scroll_start g hh, ofInt_toNat (by omega)]
  omega

/-- No counter overflows where rows and columns are counted by `int`s. -/
theorem scroll_defined (g : Geometry t.framebuffer t.font_height)
    (hh : t.framebuffer.height.toNat < 2 ^ 31) (hcolumns : ColumnsFit t.framebuffer) :
    ∃ t', terminal_scroll_int t = some t' := by
  have hfit := g.font_fits
  obtain ⟨memory, hmemory⟩ := clear_lines_int_exists hcolumns t.font_height.toNat
    (y := to_int (t.framebuffer.height - t.font_height.toUInt64))
    (by rw [scroll_start g hh]; omega)
  unfold terminal_scroll_int
  dsimp only
  rw [scroll_rounds g hh, hmemory]
  exact ⟨_, rfl⟩

/-- At least one line is cleared, so a call without overflow has counted all columns. -/
theorem scroll_columns (g : Geometry t.framebuffer t.font_height)
    (hh : t.framebuffer.height.toNat < 2 ^ 31) {t' : Terminal}
    (h : terminal_scroll_int t = some t') : ColumnsFit t.framebuffer := by
  obtain ⟨left, hleft⟩ := Nat.exists_eq_succ_of_ne_zero (Nat.ne_of_gt g.font_pos)
  unfold terminal_scroll_int at h
  dsimp only at h
  rw [scroll_rounds g hh, hleft] at h
  obtain ⟨memory, hmemory, -⟩ := Option.map_eq_some_iff.mp h
  exact clear_lines_int_columns hmemory

/-- **Without padding between the rows the picture moves up by one text line.**  A pixel above the
    last line is read from the move, whose source is one text line further; a pixel in it from the
    fill. -/
theorem scrolledUp_of_linear (g : Geometry t.framebuffer t.font_height)
    (hh : t.framebuffer.height.toNat < 2 ^ 31) (hinit : t.ssfn_dst.h = to_int t.framebuffer.height)
    (hlinear : 0 < t.framebuffer.width.toNat → ∀ y < t.framebuffer.height.toNat,
      y * t.framebuffer.pitch.toNat = 4 * (y * t.framebuffer.width.toNat)) :
    ScrolledUp t (terminal_scroll t) := by
  have hfit := g.font_fits
  have hmem := terminal_scroll_memory g hh
  have hsplit := g.pixels_split
  refine ⟨?_, ?_, rfl, ?_⟩
  · -- moved
    intro x hx y hy
    have hend := line_end (w := t.framebuffer.width.toNat) hy
    rw [Nat.mul_comm t.framebuffer.width.toNat] at hend
    have hsrc := g.src_toNat (by omega) (by omega)
    have hrow := hlinear (by omega) y (by omega)
    rw [pixel, pixel, terminal_scroll_framebuffer, hmem, hrow,
        Memory.word32_fill32_other _ _ _ (by omega)]
    apply Memory.word32_congr
    intro i hi
    rw [hsrc, Nat.add_assoc _ _ (4 * x), Nat.add_assoc _ _ i, byte_memmove_of_lt _ (by omega),
        Nat.add_mul, hrow]
    congr 1
    omega
  · -- cleared
    intro x hx y hge hlt
    have hstart : (t.framebuffer.height.toNat - t.font_height.toNat) * t.framebuffer.width.toNat
        ≤ y * t.framebuffer.width.toNat := Nat.mul_le_mul_right _ hge
    have hend := line_end (w := t.framebuffer.width.toNat) hlt
    rw [hsplit] at hend
    have hrow := hlinear (by omega) y hlt
    rw [pixel, terminal_scroll_framebuffer, hmem, hrow]
    generalize (t.framebuffer.height.toNat - t.font_height.toNat) * t.framebuffer.width.toNat
      = first at hstart hend
    rw [show t.framebuffer.address.toNat + 4 * (y * t.framebuffer.width.toNat) + 4 * x
        = t.framebuffer.address.toNat + 4 * first
          + 4 * (y * t.framebuffer.width.toNat + x - first) by omega]
    exact Memory.word32_fill32 _ _ _ (by omega)
  · -- cursor
    show t.ssfn_dst.h - t.font_height.toNat = _
    rw [hinit, to_int_of_lt hh]

/-- **With padding the last pixel of the screen is not reached.**  It lies behind everything the
    width accounts for, so neither the move nor the fill touches it. -/
theorem last_pixel_kept (g : Geometry t.framebuffer t.font_height)
    (hh : t.framebuffer.height.toNat < 2 ^ 31) (hw : 0 < t.framebuffer.width.toNat)
    (htwo : 2 ≤ t.framebuffer.height.toNat)
    (hpad : t.framebuffer.pitch.toNat ≠ 4 * t.framebuffer.width.toNat) :
    pixel (terminal_scroll t) (t.framebuffer.width.toNat - 1) (t.framebuffer.height.toNat - 1)
      = pixel t (t.framebuffer.width.toNat - 1) (t.framebuffer.height.toNat - 1) := by
  have hfit := g.font_fits
  have hcovers := g.pitch_covers
  have hwords := g.pitch_words
  have hsplit := g.pixels_split
  -- the pixel lies behind everything the width accounts for
  have hbehind : 4 * (t.framebuffer.width.toNat * t.framebuffer.height.toNat)
      ≤ (t.framebuffer.height.toNat - 1) * t.framebuffer.pitch.toNat
        + 4 * (t.framebuffer.width.toNat - 1) := by
    obtain ⟨k, hk⟩ : ∃ k, t.framebuffer.height.toNat = k + 2 :=
      ⟨t.framebuffer.height.toNat - 2, by omega⟩
    have hrows : (k + 1) * (4 * t.framebuffer.width.toNat + 4)
        ≤ (k + 1) * t.framebuffer.pitch.toNat := Nat.mul_le_mul_left _ (by omega)
    have hexpand : (k + 1) * (4 * t.framebuffer.width.toNat + 4)
        = 4 * (t.framebuffer.width.toNat * (k + 2)) - 4 * t.framebuffer.width.toNat
          + 4 * (k + 1) := by
      have hsum : t.framebuffer.width.toNat * (k + 2)
          = t.framebuffer.width.toNat * (k + 1) + t.framebuffer.width.toNat := by ring
      have hprod : (k + 1) * (4 * t.framebuffer.width.toNat + 4)
          = 4 * (t.framebuffer.width.toNat * (k + 1)) + 4 * (k + 1) := by ring
      omega
    rw [hk, show k + 2 - 1 = k + 1 by omega]
    omega
  rw [pixel, pixel, terminal_scroll_framebuffer, terminal_scroll_memory g hh]
  apply Memory.word32_congr
  intro i hi
  rw [Memory.byte_fill32_other _ _ _ (by omega), byte_memmove_other _ (by omega)]

end Content

/-! ## §5. When it scrolls by one line. -/

/-- A terminal whose memory is all zero. -/
def dark (fb : LimineFramebuffer) (font_height : UInt8) : Terminal where
  framebuffer := fb
  font_height := font_height
  ssfn_dst :=
    { ptr := fb.address, w := to_int fb.width, h := to_int fb.height, p := fb.pitch.toUInt16,
      x := 0, y := 0, fg := COLORS_TEXT_FG, bg := COLORS_BG }
  memory := { byte := fun _ => 0, accessed := [] }

/-- All its pixels are 0, which is not the background. -/
theorem pixel_dark (fb : LimineFramebuffer) (font_height : UInt8) (x y : ℕ) :
    pixel (dark fb font_height) x y = 0 := by
  unfold pixel Memory.word32 Memory.word16
  dsimp only [dark]
  decide

/-- A height that is no `int` is not where the cursor goes. -/
theorem scrolled_height {t : Terminal} (g : Geometry t.framebuffer t.font_height)
    (hinit : t.ssfn_dst.h = to_int t.framebuffer.height) (h : ScrolledUp t (terminal_scroll t)) :
    t.framebuffer.height.toNat < 2 ^ 31 := by
  have hfit := g.font_fits
  have hlt := to_int_lt t.framebuffer.height
  have hcursor : t.ssfn_dst.h - t.font_height.toNat
      = (t.framebuffer.height.toNat : ℤ) - t.font_height.toNat := h.cursor_y
  rw [hinit] at hcursor
  omega

/-- A dark screen with padding keeps a dark pixel in the line that should be cleared. -/
theorem padded_not_scrolled {fb : LimineFramebuffer} {font_height : UInt8}
    (g : Geometry fb font_height) (hw : 0 < fb.width.toNat) (htwo : 2 ≤ fb.height.toNat)
    (hpad : fb.pitch.toNat ≠ 4 * fb.width.toNat) : ¬ ScrollsOneLine fb font_height := by
  intro h
  have hpos := g.font_pos
  obtain ⟨t', hsome, hscrolled⟩ := h (dark fb font_height) rfl rfl rfl
  rw [terminal_scroll_int_some hsome] at hscrolled
  have hh := scrolled_height (t := dark fb font_height) g rfl hscrolled
  -- the last pixel of the last row
  have hcleared := hscrolled.cleared (fb.width.toNat - 1) (Nat.sub_lt hw Nat.one_pos)
    (fb.height.toNat - 1) (Nat.sub_le_sub_left hpos _) (Nat.sub_lt (by omega) Nat.one_pos)
  have hkept : pixel (terminal_scroll (dark fb font_height)) (fb.width.toNat - 1)
      (fb.height.toNat - 1) = 0 :=
    (last_pixel_kept (t := dark fb font_height) g hh hw htwo hpad).trans (pixel_dark _ _ _ _)
  rw [hkept] at hcleared
  exact absurd hcleared (by decide)

/-- **`terminal_scroll` scrolls by one text line exactly when the rows are not padded**, or there
    is one row or no column; and when width and height are `int` values. -/
theorem scrolls_one_line_iff {fb : LimineFramebuffer} {font_height : UInt8}
    (g : Geometry fb font_height) :
    ScrollsOneLine fb font_height
      ↔ ColumnsFit fb ∧ fb.height.toNat < 2 ^ 31
        ∧ (fb.pitch.toNat = 4 * fb.width.toNat ∨ fb.height.toNat = 1 ∨ fb.width.toNat = 0) := by
  have hpos := g.font_pos
  have hfit := g.font_fits
  constructor
  · intro h
    -- a dark screen is enough to tell
    obtain ⟨t', hsome, hscrolled⟩ := h (dark fb font_height) rfl rfl rfl
    rw [terminal_scroll_int_some hsome] at hscrolled
    have hh := scrolled_height (t := dark fb font_height) g rfl hscrolled
    refine ⟨scroll_columns (t := dark fb font_height) g hh hsome, hh, ?_⟩
    by_contra hnot
    exact padded_not_scrolled g (by omega) (by omega) (by omega) h
  · intro hex
    obtain ⟨hcolumns, hh, hlinear⟩ := hex
    intro t hfb hfont hinit
    subst hfb hfont
    obtain ⟨t', hsome⟩ := scroll_defined g hh hcolumns
    refine ⟨t', hsome, ?_⟩
    rw [terminal_scroll_int_some hsome]
    refine scrolledUp_of_linear g hh hinit ?_
    intro hw y hy
    rcases hlinear with hpitch | hone | hnone
    · rw [hpitch]
      ring
    · -- the only row
      obtain rfl : y = 0 := by omega
      rw [Nat.zero_mul, Nat.zero_mul]
    · omega

/-- 1920 x 1080 without padding. -/
theorem full_hd_geometry : Geometry full_hd 16 where
  pitch_words := by decide
  pitch_covers := by decide
  font_pos := by decide
  font_fits := by decide
  addressable := by decide

/-- The same for such a screen. -/
theorem scrolls_one_line_full_hd :
    ScrollsOneLine full_hd 16
      ↔ ColumnsFit full_hd ∧ full_hd.height.toNat < 2 ^ 31
        ∧ (full_hd.pitch.toNat = 4 * full_hd.width.toNat ∨ full_hd.height.toNat = 1
          ∨ full_hd.width.toNat = 0) :=
  scrolls_one_line_iff full_hd_geometry

/-- 1366 x 768, with rows padded to a multiple of 64 bytes. -/
def padded_screen : LimineFramebuffer :=
  { address := 0xffff8000fd000000, width := 1366, height := 768, pitch := 5504 }

/-- Scrolling tears the picture of a padded screen. -/
theorem padded_screen_torn : Geometry padded_screen 16 ∧ ¬ ScrollsOneLine padded_screen 16 := by
  have g : Geometry padded_screen 16 :=
    { pitch_words := by decide
      pitch_covers := by decide
      font_pos := by decide
      font_fits := by decide
      addressable := by decide }
  exact ⟨g, padded_not_scrolled g (by decide) (by decide) (by decide)⟩

end Hippos.Framebuffer
