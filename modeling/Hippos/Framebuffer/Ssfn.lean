/-
  Hippos.Framebuffer.Ssfn — the console bitmap renderer of `kernel/ssfn.h`.

  It is compiled for 32-bit pixels and without the control characters.  The font is only read; there
  is no error checking, so whatever lies at an offset counts as font data, and a font here is any
  contents of memory from `ssfn_src` on.

  The code walks through the font and through the framebuffer with pointers that it moves along:
  `frg` and the mask `m` over the bits of a fragment, `o` and `y` over the rows of the cell.  Two
  invariants undo the pointers.  `AtBit` says which bit `frg` and `m` are at, with the mask that has
  run past its byte as a case of its own; `Drawn` says that `o` is where row `y` starts, and which
  picture the memory shows.  What a font means is given apart from the code, as a glyph of fragments
  with their bits, and the loops draw it row by row.

  Main results:
    * `draw_rows_shows` — the loops over rows and bits draw the bits of a bitmap.
    * `renderer_inside` — whatever the font says, no byte outside the raster is written.
    * `renderer_shows` — without a background the glyph of the character is drawn over the picture.
    * `renderer_advances_iff` — when the renderer is one that the results on the cursor are about.
-/
import Hippos.Framebuffer.Scroll
import Hippos.Lib.Raster
import Mathlib.Data.Nat.Bitwise

namespace Hippos.Framebuffer

open Hippos.Lib

/-! ## §1. The font. -/

/-- What is in memory from `ssfn_src` on. -/
structure Font where
  byte : ℕ → UInt8

namespace Font

/-- The number in the `n` bytes from `offs` on, little-endian. -/
def number (f : Font) (offs : ℕ) : (n : ℕ) → ℕ
  | 0 => 0
  | n + 1 => (f.byte offs).toNat + 256 * number f (offs + 1) n

/-- The header starts with `SFN2`, the one thing that `ssfn_putc` checks. -/
def Magic (f : Font) : Prop :=
  f.byte 0 = 0x53 ∧ f.byte 1 = 0x46 ∧ f.byte 2 = 0x4E ∧ f.byte 3 = 0x32

instance (f : Font) : Decidable f.Magic :=
  inferInstanceAs (Decidable (_ ∧ _ ∧ _ ∧ _))

/-- `height` of the header, which the terminal takes for its rows. -/
def height (f : Font) : UInt8 := f.byte 11

/-- `characters_offs` of the header. -/
def characters_offs (f : Font) : ℕ := f.number 16 4

/-- `chr[0] & 0x40 ? 6 : 5`, the length of an entry for a fragment. -/
def entry_size (f : Font) (chr : ℕ) : ℕ := if f.byte chr &&& 0x40 ≠ 0 then 6 else 5

/-- The search in the characters table: where the glyph of `unicode` starts.  `i` is the code point
    that the table is at; runs of code points without a glyph are three kinds of bytes, and a glyph
    is skipped with its entries. -/
def find_chr (f : Font) (unicode : UInt32) : (rounds : ℕ) → (i ptr : ℕ) → Option ℕ
  | 0, _, _ => none
  | rounds + 1, i, ptr =>
    if i < 0x110000 then
      -- the `1` that is added each time is the `i++` of the loop
      if f.byte ptr = 0xFF then find_chr f unicode rounds (i + 65535 + 1) (ptr + 1)
      else if f.byte ptr &&& 0xC0 = 0xC0 then
        let j := (f.byte ptr &&& 0x3F).toNat * 256 + (f.byte (ptr + 1)).toNat
        find_chr f unicode rounds (i + j + 1) (ptr + 2)
      else if f.byte ptr &&& 0xC0 = 0x80 then
        let j := (f.byte ptr &&& 0x3F).toNat
        find_chr f unicode rounds (i + j + 1) (ptr + 1)
      else if i = unicode.toNat then some ptr
      else find_chr f unicode rounds (i + 1) (ptr + 6 + (f.byte (ptr + 1)).toNat * f.entry_size ptr)
    else none

/-- The search from the first code point on.  Every round moves on by a code point at least, so as
    many rounds as there are code points are enough. -/
def chr (f : Font) (unicode : UInt32) : Option ℕ :=
  f.find_chr unicode 0x110000 0 f.characters_offs

/-- `frg`: the offset in the entry `ptr` of the glyph `chr`, of three bytes or of four.  In the
    source the fourth byte is shifted as an `int`, and `ptr[5] << 24` overflows from 0x80 on; so the
    offsets of a font are below 2^31, and there the two agree. -/
def fragment_offs (f : Font) (chr ptr : ℕ) : ℕ := f.number (ptr + 2) (f.entry_size chr - 2)

end Font

/-! ## §2. Drawing. -/

/-- `y`, `o` and the memory `o` points into. -/
structure Stroke where
  y : ℕ
  o : UInt64
  memory : Memory

section Drawing

variable (f : Font) (d : SsfnBuf)

/-- `w = ssfn_dst.w < 0 ? -ssfn_dst.w : ssfn_dst.w`.  A width of 0 does not clip. -/
def columns : ℤ := if d.w < 0 then -d.w else d.w

/-- `s = ssfn_dst.p / sizeof(SSFN_PIXEL)`: a row in pixels, rounded down. -/
def row_pixels : ℕ := d.p.toNat / 4

/-- `for(p = o, j = 0; j < chr[2] && (!w || ssfn_dst.x + j < w); j++, p++)`, from `j` on.  The left
    edge is not looked at. -/
def background_row (o : UInt64) : (left j : ℕ) → Memory → Memory
  | 0, _, memory => memory
  | left + 1, j, memory =>
    if columns d = 0 ∨ d.x + j < columns d then
      background_row o left (j + 1) (memory.store32 (o + 4 * UInt64.ofNat j).toNat d.bg)
    else memory

/-- `for(; y < … && (!ssfn_dst.h || ssfn_dst.y + y < ssfn_dst.h); y++, o += s)`. -/
def background_rows (width : ℕ) : (left : ℕ) → Stroke → Stroke
  | 0, t => t
  | left + 1, t =>
    if d.h = 0 ∨ d.y + t.y < d.h then
      background_rows width left
        { y := t.y + 1, o := t.o + 4 * UInt64.ofNat (row_pixels d),
          memory := background_row d t.o width 0 t.memory }
    else t

/-- `if(*frg & m) *p = ssfn_dst.fg; else if(ssfn_dst.bg) *p = ssfn_dst.bg;`. -/
def draw_bit (frg m : ℕ) (p : UInt64) (memory : Memory) : Memory :=
  if (f.byte frg).toNat &&& m ≠ 0 then memory.store32 p.toNat d.fg
  else if d.bg ≠ 0 then memory.store32 p.toNat d.bg
  else memory

/-- `for(p = o, l = 0; l < k; l++, p++, m <<= 1)`, from `l` on. -/
def draw_row (o : UInt64) : (left l frg m : ℕ) → Memory → ℕ × ℕ × Memory
  | 0, _, frg, m, memory => (frg, m, memory)
  | left + 1, l, frg, m, memory =>
    let (frg, m) := if m > 0x80 then (frg + 1, 1) else (frg, m)
    let memory :=
      if d.x + l ≥ 0 ∧ (columns d = 0 ∨ d.x + l < columns d) then
        draw_bit f d frg m (o + 4 * UInt64.ofNat l) memory
      else memory
    draw_row o left (l + 1) frg (m <<< 1) memory

/-- `for(m = 1; j && (!ssfn_dst.h || ssfn_dst.y + y < ssfn_dst.h); j--, y++, o += s)`. -/
def draw_rows (k : ℕ) : (j frg m : ℕ) → Stroke → Stroke
  | 0, _, _, t => t
  | j + 1, frg, m, t =>
    if d.h = 0 ∨ d.y + t.y < d.h then
      let (frg, m, memory) := draw_row f d t.o k 0 frg m t.memory
      draw_rows k j frg m
        { y := t.y + 1, o := t.o + 4 * UInt64.ofNat (row_pixels d), memory := memory }
    else t

/-- Up to the row of the entry `ptr`, where its bitmap starts.  With a background the rows in
    between are filled with it, as far as the screen reaches, and `y` is left at the first row that
    is not; a `y` past the row already stays.  Without one, `o` and `y` jump there, and may go
    back. -/
def go_to (chr ptr : ℕ) (t : Stroke) : Stroke :=
  -- `for(; y < ptr[1] && …; y++, o += s)`
  if d.bg ≠ 0 then
    background_rows d (f.byte (chr + 2)).toNat ((f.byte (ptr + 1)).toNat - t.y) t
  else
    -- `o += (int)(ptr[1] - y) * s; y = ptr[1]`
    { t with
      y := (f.byte (ptr + 1)).toNat
      o := t.o + 4 * UInt64.ofInt (((f.byte (ptr + 1)).toNat - t.y) * row_pixels d) }

/-- One round of the loop over the entries.  An entry without a fragment, or with one that is not a
    bitmap, is passed over before anything moves. -/
def draw_fragment (chr ptr : ℕ) (t : Stroke) : Stroke :=
  if f.byte ptr = 255 ∧ f.byte (ptr + 1) = 255 then t
  else
    let frg := f.fragment_offs chr ptr
    if f.byte frg &&& 0xE0 ≠ 0x80 then t
    else
      -- the bitmap's width in pixels and its rows; its bits start behind these two bytes
      let k := ((f.byte frg &&& 0x1F).toNat + 1) * 8
      let j := (f.byte (frg + 1)).toNat + 1
      draw_rows f d k j (frg + 2) 1 (go_to f d chr ptr t)

/-- `for(i = 0; i < chr[1]; i++, ptr += chr[0] & 0x40 ? 6 : 5)`. -/
def draw_fragments (chr : ℕ) : (left ptr : ℕ) → Stroke → Stroke
  | 0, _, t => t
  | left + 1, ptr, t =>
    draw_fragments chr left (ptr + f.entry_size chr) (draw_fragment f d chr ptr t)

/-- `o`, at first: where the upper left corner of the cell is. -/
def pen : UInt64 := d.ptr + UInt64.ofInt (d.y * d.p.toNat) + UInt64.ofInt d.x * 4

/-- The glyph, and the background below it, down to the height of the cell. -/
def draw_chr (chr : ℕ) (memory : Memory) : Memory :=
  let t := draw_fragments f d chr (f.byte (chr + 1)).toNat (chr + 6)
    { y := 0, o := pen d, memory := memory }
  if d.bg ≠ 0 then
    (background_rows d (f.byte (chr + 2)).toNat ((f.byte (chr + 3)).toNat - t.y) t).memory
  else t.memory

end Drawing

/-- The error codes that this renderer returns. -/
inductive SsfnErr where
  | SSFN_OK
  | SSFN_ERR_INVINP
  | SSFN_ERR_NOGLYPH
  deriving Repr, DecidableEq

/-- `ssfn_putc`: the font is checked, the glyph looked up and drawn, and the pen moved on by its
    advances. -/
def ssfn_putc (f : Font) (t : Terminal) (unicode : UInt32) : SsfnErr × Terminal :=
  let d := t.ssfn_dst
  if ¬ f.Magic ∨ d.ptr = 0 ∨ d.p = 0 then (.SSFN_ERR_INVINP, t)
  else
    match f.chr unicode with
    | none => (.SSFN_ERR_NOGLYPH, t)
    | some chr =>
      (.SSFN_OK, { t with
        memory := draw_chr f d chr t.memory
        ssfn_dst := { d with
          x := d.x + (f.byte (chr + 4)).toNat
          y := d.y + (f.byte (chr + 5)).toNat } })

/-- The terminal does not look at the answer. -/
def renderer (f : Font) (t : Terminal) (unicode : UInt32) : Terminal := (ssfn_putc f t unicode).2

/-! ## §3. What a font says. -/

/-- A bitmap in a cell: from `row` on, `rows` rows of `columns` bits one after the other. -/
structure Fragment where
  row : ℕ
  columns : ℕ
  rows : ℕ
  bit : ℕ → Bool

/-- The bit at a place of the cell; outside of the bitmap there is none. -/
def Fragment.ink (g : Fragment) (x y : ℕ) : Bool :=
  g.row ≤ y && y < g.row + g.rows && x < g.columns && g.bit ((y - g.row) * g.columns + x)

/-- What a font says of a character: its bitmaps, and how far the pen moves. -/
structure Glyph where
  fragments : List Fragment
  advance_x : ℕ
  advance_y : ℕ

/-- A place is inked if one of the fragments inks it. -/
def Glyph.ink (g : Glyph) (x y : ℕ) : Bool := g.fragments.any fun h => h.ink x y

namespace Font

/-- Bit `n` of the bitmap at `offs`, the lowest bit of a byte first. -/
def bit (f : Font) (offs n : ℕ) : Bool := (f.byte (offs + n / 8)).toNat.testBit (n % 8)

/-- The bitmap of an entry, if it is one. -/
def fragment (f : Font) (chr ptr : ℕ) : Option Fragment :=
  let frg := f.fragment_offs chr ptr
  if f.byte ptr = 255 ∧ f.byte (ptr + 1) = 255 ∨ f.byte frg &&& 0xE0 ≠ 0x80 then none
  else some {
    row := (f.byte (ptr + 1)).toNat
    columns := ((f.byte frg &&& 0x1F).toNat + 1) * 8
    rows := (f.byte (frg + 1)).toNat + 1
    bit := f.bit (frg + 2) }

/-- The bitmaps of `left` entries from `ptr` on. -/
def fragments (f : Font) (chr : ℕ) : (left ptr : ℕ) → List Fragment
  | 0, _ => []
  | left + 1, ptr =>
    (f.fragment chr ptr).toList ++ fragments f chr left (ptr + f.entry_size chr)

/-- The glyph at `chr`. -/
def glyph_at (f : Font) (chr : ℕ) : Glyph where
  fragments := f.fragments chr (f.byte (chr + 1)).toNat (chr + 6)
  advance_x := (f.byte (chr + 4)).toNat
  advance_y := (f.byte (chr + 5)).toNat

/-- The glyph of a character, where the font is one and has it. -/
def glyph (f : Font) (unicode : UInt32) : Option Glyph :=
  if f.Magic then (f.chr unicode).map f.glyph_at else none

end Font

/-! ## §4. Where pixels are. -/

/-- The renderer draws on `r`, from `(x₀, y₀)` on.  The pitch is a whole number of pixels, the size
    is positive, so both edges clip, and the raster does not wrap around the address space. -/
structure On (r : Raster) (d : SsfnBuf) (x₀ y₀ : ℕ) : Prop where
  ptr : d.ptr.toNat = r.base
  there : d.ptr ≠ 0
  pitch : d.p.toNat = r.pitch
  words : r.pitch % 4 = 0
  width : d.w = r.width
  height : d.h = r.height
  width_pos : 0 < r.width
  height_pos : 0 < r.height
  x : d.x = x₀
  y : d.y = y₀
  addressable : r.limit ≤ 2 ^ 64

/-- `o`, for the row `y` of the cell. -/
def row_at (d : SsfnBuf) (y : ℤ) : UInt64 :=
  d.ptr + UInt64.ofInt ((d.y + y) * d.p.toNat + 4 * d.x)

/-- Positive and signed offsets are added in the same way. -/
theorem ofNat_eq_ofInt (n : ℕ) : UInt64.ofNat n = UInt64.ofInt n := by
  rw [← UInt64.toNat_inj, UInt64.ofInt, UInt64.toNat_ofNat', UInt64.toNat_ofNat']
  omega

theorem four_eq_ofInt : (4 : UInt64) = UInt64.ofInt 4 := rfl

/-- The pen is at the first row of the cell. -/
theorem pen_eq (d : SsfnBuf) : pen d = row_at d 0 := by
  unfold pen row_at
  rw [four_eq_ofInt, ← UInt64.ofInt_mul, UInt64.add_assoc, ← UInt64.ofInt_add, Int.add_zero,
      Int.mul_comm d.x]

section Pixels

variable {r : Raster} {d : SsfnBuf} {x₀ y₀ : ℕ}

/-- The width is not negative. -/
theorem On.columns_eq (h : On r d x₀ y₀) : Framebuffer.columns d = r.width := by
  have hpos := h.width_pos
  rw [Framebuffer.columns, h.width, if_neg (by omega)]

/-- `o += n * s` moves by `n` rows, forwards or back. -/
theorem On.row_move (h : On r d x₀ y₀) (y : ℤ) (n : ℤ) :
    row_at d y + 4 * UInt64.ofInt (n * row_pixels d) = row_at d (y + n) := by
  have hpitch : (4 * row_pixels d : ℤ) = d.p.toNat := by
    have hwords := h.words
    rw [← h.pitch] at hwords
    unfold row_pixels
    omega
  unfold row_at
  rw [four_eq_ofInt, ← UInt64.ofInt_mul, UInt64.add_assoc, ← UInt64.ofInt_add, ← hpitch]
  congr 2
  ring

/-- `o += s` moves to the next row. -/
theorem On.row_next (h : On r d x₀ y₀) (y : ℕ) :
    row_at d y + 4 * UInt64.ofNat (row_pixels d) = row_at d ((y + 1 : ℕ) : ℤ) := by
  rw [ofNat_eq_ofInt, ← Int.one_mul (row_pixels d : ℤ), h.row_move]
  rfl

/-- **A pixel of the cell is where the raster has it.** -/
theorem On.pixel_at (h : On r d x₀ y₀) {x y : ℕ} (hx : x₀ + x < r.width) (hy : y₀ + y < r.height) :
    (row_at d y + 4 * UInt64.ofNat x).toNat = r.address (x₀ + x) (y₀ + y) := by
  obtain ⟨-, hend⟩ := Raster.address_in hx hy
  have hspace := h.addressable
  have hoffs : (d.y + (y : ℤ)) * d.p.toNat + 4 * d.x + 4 * x
      = (((y₀ + y) * r.pitch + 4 * (x₀ + x) : ℕ) : ℤ) := by
    rw [h.y, h.x, h.pitch]
    push_cast
    ring
  rw [ofNat_eq_ofInt, row_at, four_eq_ofInt, ← UInt64.ofInt_mul, UInt64.add_assoc,
      ← UInt64.ofInt_add, hoffs]
  unfold Raster.address at hend ⊢
  rw [UInt64.toNat_add, ofInt_toNat (by omega), h.ptr]
  omega

/-- The rows that are drawn are those of the raster. -/
theorem On.row_on (h : On r d x₀ y₀) (y : ℕ) :
    (d.h = 0 ∨ d.y + y < d.h) ↔ y₀ + y < r.height := by
  have hpos := h.height_pos
  rw [h.height, h.y]
  omega

/-- And so are the columns. -/
theorem On.column_on (h : On r d x₀ y₀) (x : ℕ) :
    (columns d = 0 ∨ d.x + x < columns d) ↔ x₀ + x < r.width := by
  have hpos := h.width_pos
  rw [h.columns_eq, h.x]
  omega

end Pixels

/-! ## §5. What is drawn. -/

/-- `frg` and `m` are at bit `n` of the bitmap at `offs`, or past the end of the byte before it: the
    mask overflows its byte at the end of a round and is put right at the start of the next. -/
structure AtBit (offs n frg m : ℕ) : Prop where
  within : m ≤ 0x80 → frg = offs + n / 8 ∧ m = 2 ^ (n % 8)
  past : 0x80 < m → frg + 1 = offs + n / 8 ∧ n % 8 = 0

/-- The first bit is the lowest one of the first byte. -/
theorem AtBit.start (offs : ℕ) : AtBit offs 0 offs 1 where
  within _ := ⟨rfl, rfl⟩
  past h := absurd h (by decide)

section Bits

variable {offs n frg m : ℕ}

/-- Once put right, `frg` and `m` are at the byte and the bit of `n`. -/
theorem AtBit.here (h : AtBit offs n frg m) :
    (if m > 0x80 then (frg + 1, 1) else (frg, m)) = (offs + n / 8, 2 ^ (n % 8)) := by
  split_ifs with hm
  · obtain ⟨hfrg, hn⟩ := h.past hm
    rw [hfrg, hn]
    rfl
  · obtain ⟨hfrg, hmask⟩ := h.within (Nat.le_of_not_lt hm)
    rw [← hfrg, ← hmask]

/-- `m <<= 1` goes to the next bit. -/
theorem AtBit.next (offs n : ℕ) : AtBit offs (n + 1) (offs + n / 8) (2 ^ (n % 8) <<< 1) := by
  have hshift : 2 ^ (n % 8) <<< 1 = 2 ^ (n % 8 + 1) := by
    rw [Nat.shiftLeft_eq, ← Nat.pow_succ]
  rw [hshift]
  by_cases hlast : n % 8 = 7
  · -- the last bit of a byte
    have hmask : 2 ^ (n % 8 + 1) = 0x100 := by rw [hlast]; rfl
    rw [hmask]
    exact ⟨fun h => absurd h (by decide), fun _ => by omega⟩
  · have hsmall : 2 ^ (n % 8 + 1) ≤ 2 ^ 7 := Nat.pow_le_pow_right (by decide) (by omega)
    refine ⟨fun _ => ⟨by omega, ?_⟩, fun h => by omega⟩
    rw [show (n + 1) % 8 = n % 8 + 1 by omega]

/-- `*frg & m` tests the bit they are at. -/
theorem bit_iff (f : Font) (offs n : ℕ) :
    (f.byte (offs + n / 8)).toNat &&& 2 ^ (n % 8) ≠ 0 ↔ f.bit offs n = true := by
  unfold Font.bit
  rw [Nat.and_two_pow]
  cases (f.byte (offs + n / 8)).toNat.testBit (n % 8) <;> simp

end Bits

section Shown

variable {f : Font} {r : Raster} {d : SsfnBuf} {x₀ y₀ : ℕ} {m₀ : Memory} {p : ℕ → ℕ → UInt32}

/-- The colour of a bit; without a background one sees through an empty one. -/
def shade (d : SsfnBuf) (b : Bool) : Option UInt32 :=
  if b then some d.fg else if d.bg ≠ 0 then some d.bg else none

/-- One pixel, if it is on the raster.  A pixel off to the right is neither written nor shown. -/
theorem draw_bit_shows (h : On r d x₀ y₀) {x y : ℕ} (hy : y₀ + y < r.height) (offs n : ℕ)
    {memory : Memory} (hs : r.Shows m₀ memory p) :
    r.Shows m₀
      (if d.x + x ≥ 0 ∧ (columns d = 0 ∨ d.x + x < columns d) then
        draw_bit f d (offs + n / 8) (2 ^ (n % 8)) (row_at d y + 4 * UInt64.ofNat x) memory
      else memory)
      (Raster.overlay p x₀ y₀ fun x' y' =>
        if x' = x ∧ y' = y then shade d (f.bit offs n) else none) := by
  have hnonneg : d.x + x ≥ 0 := by
    rw [h.x]
    omega
  rw [if_congr ((and_iff_right hnonneg).trans (h.column_on x)) rfl rfl]
  by_cases hx : x₀ + x < r.width
  · rw [if_pos hx]
    unfold draw_bit shade
    rw [h.pixel_at hx hy, if_congr (bit_iff f offs n) rfl rfl]
    split_ifs
    · rw [← Raster.dot_eq_overlay]
      exact hs.store32 hx hy d.fg
    · rw [← Raster.dot_eq_overlay]
      exact hs.store32 hx hy d.bg
    · simp only [ite_self, Raster.overlay_none]
      exact hs
  · rw [if_neg hx]
    refine hs.congr fun x' hx' y' _ => ?_
    unfold Raster.overlay
    dsimp only
    split_ifs
    · omega
    · rfl
    · rfl

/-- **A row of bits.**  By induction on the pixels left: the pixel at `x` is drawn, and the rest is
    a row from the next bit on. -/
theorem draw_row_shows (h : On r d x₀ y₀) {y : ℕ} (hy : y₀ + y < r.height) (offs : ℕ) (left : ℕ) :
    ∀ {x n frg m : ℕ} {memory : Memory} {p : ℕ → ℕ → UInt32}, AtBit offs n frg m →
      r.Shows m₀ memory p →
      AtBit offs (n + left) (draw_row f d (row_at d y) left x frg m memory).1
          (draw_row f d (row_at d y) left x frg m memory).2.1
        ∧ r.Shows m₀ (draw_row f d (row_at d y) left x frg m memory).2.2
          (Raster.overlay p x₀ y₀ fun x' y' =>
            if y' = y ∧ x ≤ x' ∧ x' < x + left then shade d (f.bit offs (n + (x' - x)))
            else none) := by
  induction left with
  | zero =>
    intro x n frg m memory p hat hs
    refine ⟨hat, hs.congr fun x' _ y' _ => ?_⟩
    unfold Raster.overlay
    dsimp only
    split_ifs
    · omega
    · rfl
    · rfl
  | succ left ih =>
    intro x n frg m memory p hat hs
    have hfirst := draw_bit_shows (f := f) h hy offs n (x := x) hs
    obtain ⟨hat', hrest⟩ := ih (x := x + 1) (AtBit.next offs n) hfirst
    rw [draw_row, hat.here]
    rw [Nat.add_right_comm n 1 left] at hat'
    refine ⟨hat', ?_⟩
    rw [Raster.overlay_overlay] at hrest
    convert hrest using 4 with x' y'
    -- the pixel at `x`, or one behind it
    by_cases hat : x' = x ∧ y' = y
    · obtain ⟨rfl, rfl⟩ := hat
      rw [if_pos (by omega), if_neg (by omega), if_pos ⟨rfl, rfl⟩, Nat.sub_self]
      rfl
    · rw [if_neg hat, Option.or_none]
      by_cases hin : y' = y ∧ x + 1 ≤ x' ∧ x' < x + 1 + left
      · rw [if_pos (by omega), if_pos hin, show n + (x' - x) = n + 1 + (x' - (x + 1)) by omega]
      · rw [if_neg (by omega), if_neg hin]

/-- `o` goes with `y`, and `p` is shown. -/
structure Drawn (r : Raster) (d : SsfnBuf) (m₀ : Memory) (p : ℕ → ℕ → UInt32) (t : Stroke) :
    Prop where
  row : t.o = row_at d t.y
  shows : r.Shows m₀ t.memory p

/-- Up to the next row. -/
theorem Drawn.next (h : On r d x₀ y₀) {t : Stroke} (hrow : t.o = row_at d t.y) {memory : Memory}
    (hs : r.Shows m₀ memory p) :
    Drawn r d m₀ p
      { y := t.y + 1, o := t.o + 4 * UInt64.ofNat (row_pixels d), memory := memory } where
  row := by
    rw [hrow]
    exact h.row_next t.y
  shows := hs

/-- **Rows of bits**, as many as there are on the raster.  By induction on the rows left.  The bits
    go on from one row to the next without a gap; that a width in a font is a multiple of 8 is not
    used. -/
theorem draw_rows_shows (h : On r d x₀ y₀) (offs k : ℕ) (j : ℕ) :
    ∀ {n frg m : ℕ} {t : Stroke} {p : ℕ → ℕ → UInt32}, AtBit offs n frg m → Drawn r d m₀ p t →
      Drawn r d m₀
        (Raster.overlay p x₀ y₀ fun x y =>
          if t.y ≤ y ∧ y < t.y + j ∧ x < k then shade d (f.bit offs (n + (y - t.y) * k + x))
          else none)
        (draw_rows f d k j frg m t) := by
  induction j with
  | zero =>
    intro n frg m t p _ ht
    refine ⟨ht.row, ht.shows.congr fun x _ y _ => ?_⟩
    unfold Raster.overlay
    dsimp only
    split_ifs
    · omega
    · rfl
    · rfl
  | succ j ih =>
    intro n frg m t p hat ht
    rw [draw_rows, if_congr (h.row_on t.y) rfl rfl]
    by_cases hy : y₀ + t.y < r.height
    · rw [if_pos hy, ht.row]
      obtain ⟨hat', hs⟩ := draw_row_shows (f := f) h hy offs k (x := 0) hat ht.shows
      have hrest := ih hat' (Drawn.next h ht.row hs)
      rw [ht.row] at hrest
      rw [Raster.overlay_overlay] at hrest
      refine ⟨hrest.row, ?_⟩
      convert hrest.shows using 4 with x y
      dsimp only
      -- the row `t.y`, or one below it
      by_cases hrow : t.y = y ∧ x < k
      · obtain ⟨rfl, hx⟩ := hrow
        rw [if_pos (by omega), if_neg (by omega), if_pos (by omega), Nat.sub_self, Nat.zero_mul]
        rfl
      · rw [if_neg (by omega : ¬ (y = t.y ∧ 0 ≤ x ∧ x < 0 + k)), Option.or_none]
        by_cases hin : t.y + 1 ≤ y ∧ y < t.y + 1 + j ∧ x < k
        · obtain ⟨i, rfl⟩ : ∃ i, y = t.y + 1 + i := ⟨y - (t.y + 1), by omega⟩
          rw [if_pos (by omega), if_pos hin, Nat.add_sub_cancel_left,
              show t.y + 1 + i - t.y = i + 1 by omega, Nat.add_mul, Nat.one_mul]
          congr 2
          omega
        · rw [if_neg (by omega), if_neg hin]
    · -- the rest is below the raster
      rw [if_neg hy]
      refine ⟨ht.row, ht.shows.congr fun x _ y hyh => ?_⟩
      unfold Raster.overlay
      dsimp only
      split_ifs
      · omega
      · rfl
      · rfl

/-- Inside of the raster, and `o` goes with `y`; which picture is shown is left open. -/
def Kept (r : Raster) (d : SsfnBuf) (m₀ : Memory) (t : Stroke) : Prop :=
  ∃ p, Drawn r d m₀ p t

/-- A picture that is known is one. -/
theorem Drawn.kept {t : Stroke} (ht : Drawn r d m₀ p t) : Kept r d m₀ t := ⟨p, ht⟩

/-- A row of the background. -/
theorem background_row_inside (h : On r d x₀ y₀) {y : ℕ} (hy : y₀ + y < r.height) (left : ℕ) :
    ∀ {j : ℕ} {memory : Memory}, r.Inside m₀ memory →
      r.Inside m₀ (background_row d (row_at d y) left j memory) := by
  induction left with
  | zero => exact fun hin => hin
  | succ left ih =>
    intro j memory hin
    rw [background_row, if_congr (h.column_on j) rfl rfl]
    split_ifs with hx
    · apply ih
      obtain ⟨hbase, hlimit⟩ := Raster.address_in hx hy
      rw [h.pixel_at hx hy]
      exact hin.store32 hbase hlimit d.bg
    · exact hin

/-- Rows of the background, down to the edge of the raster. -/
theorem background_rows_kept (h : On r d x₀ y₀) (width left : ℕ) :
    ∀ {t : Stroke}, Kept r d m₀ t → Kept r d m₀ (background_rows d width left t) := by
  induction left with
  | zero => exact fun ht => ht
  | succ left ih =>
    intro t ht
    rw [background_rows, if_congr (h.row_on t.y) rfl rfl]
    split_ifs with hy
    · obtain ⟨q, hrow, hs⟩ := ht
      have hin := background_row_inside h hy width (j := 0) hs.toInside
      rw [← hrow] at hin
      exact ih (Drawn.next h hrow hin.shows).kept
    · exact ht

/-- Without a background only `y` and `o` change. -/
theorem go_to_drawn (h : On r d x₀ y₀) (hbg : d.bg = 0) (chr ptr : ℕ) {t : Stroke}
    (ht : Drawn r d m₀ p t) :
    Drawn r d m₀ p (go_to f d chr ptr t) ∧ (go_to f d chr ptr t).y = (f.byte (ptr + 1)).toNat := by
  unfold go_to
  rw [if_neg (not_not_intro hbg)]
  refine ⟨⟨?_, ht.shows⟩, rfl⟩
  show t.o + _ = row_at d _
  rw [ht.row, h.row_move]
  congr 1
  show (t.y : ℤ) + ((f.byte (ptr + 1)).toNat - t.y) = (f.byte (ptr + 1)).toNat
  omega

/-- In either branch `o` still goes with `y`. -/
theorem go_to_kept (h : On r d x₀ y₀) (chr ptr : ℕ) {t : Stroke} (ht : Kept r d m₀ t) :
    Kept r d m₀ (go_to f d chr ptr t) := by
  by_cases hbg : d.bg = 0
  · obtain ⟨q, hq⟩ := ht
    exact (go_to_drawn h hbg chr ptr hq).1.kept
  · unfold go_to
    rw [if_pos hbg]
    exact background_rows_kept h _ _ ht

/-- An entry draws inside the raster, whatever it says. -/
theorem draw_fragment_kept (h : On r d x₀ y₀) (chr ptr : ℕ) {t : Stroke} (ht : Kept r d m₀ t) :
    Kept r d m₀ (draw_fragment f d chr ptr t) := by
  unfold draw_fragment
  dsimp only
  split_ifs
  · exact ht
  · exact ht
  · obtain ⟨q, hq⟩ := go_to_kept (f := f) h chr ptr ht
    exact (draw_rows_shows h _ _ _ (AtBit.start _) hq).kept

/-- What the fragments cover is drawn in the colour of the text, and the rest is left. -/
def inked (d : SsfnBuf) (ink : ℕ → ℕ → Bool) (x y : ℕ) : Option UInt32 :=
  if ink x y then some d.fg else none

/-- No ink changes nothing. -/
theorem overlay_inked_none (p : ℕ → ℕ → UInt32) (x₀ y₀ : ℕ) (d : SsfnBuf) :
    Raster.overlay p x₀ y₀ (inked d fun _ _ => false) = p :=
  Raster.overlay_none p x₀ y₀

/-- Two stamps in one colour: it does not matter which comes first. -/
theorem overlay_inked (p : ℕ → ℕ → UInt32) (x₀ y₀ : ℕ) (d : SsfnBuf) (ink ink' : ℕ → ℕ → Bool) :
    Raster.overlay (Raster.overlay p x₀ y₀ (inked d ink)) x₀ y₀ (inked d ink')
      = Raster.overlay p x₀ y₀ (inked d fun x y => ink x y || ink' x y) := by
  rw [Raster.overlay_overlay]
  congr 1
  funext x y
  by_cases h : ink x y = true <;> by_cases h' : ink' x y = true <;> simp [inked, h, h']

/-- **A fragment is its bits**, and an entry that has none draws nothing. -/
theorem draw_fragment_shows (h : On r d x₀ y₀) (hbg : d.bg = 0) (chr ptr : ℕ) {t : Stroke}
    (ht : Drawn r d m₀ p t) :
    Drawn r d m₀
      (Raster.overlay p x₀ y₀
        (inked d fun x y => (f.fragment chr ptr).toList.any fun g => g.ink x y))
      (draw_fragment f d chr ptr t) := by
  unfold draw_fragment Font.fragment
  dsimp only
  by_cases hskip : f.byte ptr = 255 ∧ f.byte (ptr + 1) = 255
  · rw [if_pos hskip, if_pos (Or.inl hskip)]
    show Drawn r d m₀ (Raster.overlay p x₀ y₀ (inked d fun _ _ => false)) t
    rw [overlay_inked_none]
    exact ht
  · rw [if_neg hskip]
    by_cases hkind : f.byte (f.fragment_offs chr ptr) &&& 0xE0 ≠ 0x80
    · rw [if_pos hkind, if_pos (Or.inr hkind)]
      show Drawn r d m₀ (Raster.overlay p x₀ y₀ (inked d fun _ _ => false)) t
      rw [overlay_inked_none]
      exact ht
    · rw [if_neg hkind, if_neg (not_or.mpr ⟨hskip, hkind⟩)]
      obtain ⟨hgo, hy⟩ := go_to_drawn (f := f) h hbg chr ptr ht
      have hrows := draw_rows_shows (f := f) h (f.fragment_offs chr ptr + 2)
        (((f.byte (f.fragment_offs chr ptr) &&& 0x1F).toNat + 1) * 8)
        ((f.byte (f.fragment_offs chr ptr + 1)).toNat + 1) (AtBit.start _) hgo
      rw [hy] at hrows
      convert hrows using 2
      -- the ink of a fragment is in the rows that were drawn
      funext x y
      simp only [inked, Option.toList_some, List.any_cons, List.any_nil, Bool.or_false,
        Fragment.ink, shade, hbg, ne_eq, not_true_eq_false, if_false, Nat.zero_add,
        Bool.and_eq_true, decide_eq_true_eq, and_assoc]
      split_ifs <;> simp_all

/-- All entries together draw inside the raster. -/
theorem draw_fragments_kept (h : On r d x₀ y₀) (chr left : ℕ) :
    ∀ (ptr : ℕ) {t : Stroke}, Kept r d m₀ t → Kept r d m₀ (draw_fragments f d chr left ptr t) := by
  induction left with
  | zero => exact fun _ _ ht => ht
  | succ left ih => exact fun _ _ ht => ih _ (draw_fragment_kept h chr _ ht)

/-- **The fragments together**: each is drawn over what is there, and none hides another. -/
theorem draw_fragments_shows (h : On r d x₀ y₀) (hbg : d.bg = 0) (chr left : ℕ) :
    ∀ (ptr : ℕ) {t : Stroke} {p : ℕ → ℕ → UInt32}, Drawn r d m₀ p t →
      Drawn r d m₀
        (Raster.overlay p x₀ y₀
          (inked d fun x y => (f.fragments chr left ptr).any fun g => g.ink x y))
        (draw_fragments f d chr left ptr t) := by
  induction left with
  | zero =>
    intro ptr t p ht
    show Drawn r d m₀ (Raster.overlay p x₀ y₀ (inked d fun _ _ => false)) t
    rw [overlay_inked_none]
    exact ht
  | succ left ih =>
    intro ptr t p ht
    have hrest := ih (ptr + f.entry_size chr)
      (draw_fragment_shows (f := f) h hbg chr ptr ht)
    rw [overlay_inked] at hrest
    rw [draw_fragments, Font.fragments]
    simp only [List.any_append]
    exact hrest

/-- The loops start at the pen, with the picture that was there. -/
theorem start_drawn {memory : Memory} (hs : r.Shows m₀ memory p) :
    Drawn r d m₀ p { y := 0, o := pen d, memory := memory } where
  row := pen_eq d
  shows := hs

/-- A glyph and the background below it are inside the raster. -/
theorem draw_chr_inside (h : On r d x₀ y₀) (chr : ℕ) {memory : Memory}
    (hin : r.Inside m₀ memory) : r.Inside m₀ (draw_chr f d chr memory) := by
  have ht := draw_fragments_kept (f := f) h chr (f.byte (chr + 1)).toNat (chr + 6)
    (start_drawn hin.shows).kept
  unfold draw_chr
  dsimp only
  split_ifs
  · obtain ⟨q, hq⟩ := background_rows_kept h (f.byte (chr + 2)).toNat
      ((f.byte (chr + 3)).toNat - (draw_fragments f d chr (f.byte (chr + 1)).toNat (chr + 6)
        { y := 0, o := pen d, memory := memory }).y) ht
    exact hq.shows.toInside
  · obtain ⟨q, hq⟩ := ht
    exact hq.shows.toInside

/-- Without a background a glyph is its ink. -/
theorem draw_chr_shows (h : On r d x₀ y₀) (hbg : d.bg = 0) (chr : ℕ) {memory : Memory}
    (hs : r.Shows m₀ memory p) :
    r.Shows m₀ (draw_chr f d chr memory)
      (Raster.overlay p x₀ y₀ (inked d (f.glyph_at chr).ink)) := by
  unfold draw_chr
  dsimp only
  rw [if_neg (not_not_intro hbg)]
  exact (draw_fragments_shows (f := f) h hbg chr _ _ (start_drawn hs)).shows

end Shown

/-! ## §6. A character. -/

section Characters

variable {f : Font} {t : Terminal}

/-- The pen behind a glyph. -/
def advanced (d : SsfnBuf) : Option Glyph → SsfnBuf
  | none => d
  | some g => { d with x := d.x + g.advance_x, y := d.y + g.advance_y }

/-- The renderer changes the memory and the pen alone. -/
theorem renderer_frame (f : Font) (t : Terminal) (c : UInt32) :
    ∃ memory x y, renderer f t c
      = { t with memory := memory, ssfn_dst := { t.ssfn_dst with x := x, y := y } } := by
  unfold renderer ssfn_putc
  dsimp only
  split_ifs
  · exact ⟨t.memory, t.ssfn_dst.x, t.ssfn_dst.y, rfl⟩
  · cases f.chr c with
    | none => exact ⟨t.memory, t.ssfn_dst.x, t.ssfn_dst.y, rfl⟩
    | some chr => exact ⟨_, _, _, rfl⟩

/-- So the framebuffer is still the same one. -/
theorem renderer_framebuffer (f : Font) (t : Terminal) (c : UInt32) :
    (renderer f t c).framebuffer = t.framebuffer := by
  obtain ⟨memory, x, y, h⟩ := renderer_frame f t c
  rw [h]

/-- The height of a row is, too. -/
theorem renderer_font_height (f : Font) (t : Terminal) (c : UInt32) :
    (renderer f t c).font_height = t.font_height := by
  obtain ⟨memory, x, y, h⟩ := renderer_frame f t c
  rw [h]

/-- And the background is. -/
theorem renderer_bg (f : Font) (t : Terminal) (c : UInt32) :
    (renderer f t c).ssfn_dst.bg = t.ssfn_dst.bg := by
  obtain ⟨memory, x, y, h⟩ := renderer_frame f t c
  rw [h]

/-- What the renderer does, over a framebuffer that it accepts: the pen moves as the glyph says, and
    a character without one changes nothing. -/
theorem renderer_eq (f : Font) (hptr : t.ssfn_dst.ptr ≠ 0) (hp : t.ssfn_dst.p ≠ 0) (c : UInt32) :
    ((renderer f t c).ssfn_dst = advanced t.ssfn_dst (f.glyph c))
      ∧ (f.glyph c = none ∧ (renderer f t c).memory = t.memory
        ∨ ∃ chr, f.glyph c = some (f.glyph_at chr)
          ∧ (renderer f t c).memory = draw_chr f t.ssfn_dst chr t.memory) := by
  unfold renderer ssfn_putc Font.glyph
  dsimp only
  by_cases hmagic : f.Magic
  · rw [if_neg (by simp [hmagic, hptr, hp]), if_pos hmagic]
    cases f.chr c with
    | none => exact ⟨rfl, Or.inl ⟨rfl, rfl⟩⟩
    | some chr => exact ⟨rfl, Or.inr ⟨chr, rfl, rfl⟩⟩
  · rw [if_pos (Or.inl hmagic), if_neg hmagic]
    exact ⟨rfl, Or.inl ⟨rfl, rfl⟩⟩

section Raster

variable {r : Raster} {x₀ y₀ : ℕ} {m₀ : Memory} {p : ℕ → ℕ → UInt32}

/-- A raster with pixels has a pitch. -/
theorem On.pitch_ne {d : SsfnBuf} (h : On r d x₀ y₀) : d.p ≠ 0 := by
  intro h0
  have hpitch := h.pitch
  have hpos := h.width_pos
  have hapart := r.apart
  rw [h0, UInt16.toNat_zero] at hpitch
  omega

/-- On a raster the pen moves as the glyph of the character says. -/
theorem renderer_dst (h : On r t.ssfn_dst x₀ y₀) (f : Font) (c : UInt32) :
    (renderer f t c).ssfn_dst = advanced t.ssfn_dst (f.glyph c) :=
  (renderer_eq f h.there h.pitch_ne c).1

/-- **Whatever the font says, the renderer draws on the raster.**  There is no condition on the
    font, on the character or on the background: the two tests of `ssfn_putc` before each pixel are
    enough, once the destination describes the raster and the pen is not negative. -/
theorem renderer_inside (h : On r t.ssfn_dst x₀ y₀) (f : Font) (c : UInt32)
    (hin : r.Inside m₀ t.memory) : r.Inside m₀ (renderer f t c).memory := by
  obtain ⟨-, ⟨-, hmem⟩ | ⟨chr, -, hmem⟩⟩ := renderer_eq f h.there h.pitch_ne c
  · rw [hmem]
    exact hin
  · rw [hmem]
    exact draw_chr_inside h chr hin

/-- **The renderer draws the glyph of the character**, as it is in the font, with its corner at the
    pen and cut off at the edges of the screen.  A character without a glyph draws nothing. -/
theorem renderer_shows (h : On r t.ssfn_dst x₀ y₀) (hbg : t.ssfn_dst.bg = 0) (f : Font)
    (c : UInt32) (hs : r.Shows m₀ t.memory p) :
    r.Shows m₀ (renderer f t c).memory
      (Raster.overlay p x₀ y₀
        (inked t.ssfn_dst ((f.glyph c).elim (fun _ _ => false) Glyph.ink))) := by
  obtain ⟨-, ⟨hglyph, hmem⟩ | ⟨chr, hglyph, hmem⟩⟩ := renderer_eq f h.there h.pitch_ne c
  · rw [hmem, hglyph, Option.elim_none, overlay_inked_none]
    exact hs
  · rw [hmem, hglyph]
    exact draw_chr_shows h hbg chr hs

end Raster

/-- **The renderer is one that the cursor results are about exactly when no glyph of the font moves
    the pen down.**  Those results ask of a renderer that it moves the pen to the right along its
    row and leaves the height of a row alone. -/
theorem renderer_advances_iff (f : Font) :
    Advances (renderer f) ↔ ∀ c g, f.glyph c = some g → g.advance_y = 0 := by
  constructor
  · intro h c g hg
    -- any terminal that is drawn on
    obtain ⟨glyph, hdst⟩ := h.advance
      ⟨⟨4, 1, 1, 4⟩, 1, ⟨4, 1, 1, 4, 0, 0, 0, 0⟩, ⟨fun _ => 0, []⟩⟩ c
    obtain ⟨heq, -⟩ := renderer_eq (t := ⟨⟨4, 1, 1, 4⟩, 1, ⟨4, 1, 1, 4, 0, 0, 0, 0⟩,
      ⟨fun _ => 0, []⟩⟩) f (by decide) (by decide) c
    rw [hdst, hg] at heq
    have hy : (0 : ℤ) = 0 + g.advance_y := congrArg SsfnBuf.y heq
    omega
  · intro h
    refine ⟨fun t c => ?_, renderer_font_height f⟩
    -- where there is nothing to draw on the pen stays, which is an advance of 0
    by_cases hdrawn : t.ssfn_dst.ptr ≠ 0 ∧ t.ssfn_dst.p ≠ 0
    · obtain ⟨heq, -⟩ := renderer_eq f hdrawn.1 hdrawn.2 c
      rw [heq]
      cases hg : f.glyph c with
      | none => exact ⟨0, by rw [advanced, Int.natCast_zero, Int.add_zero]⟩
      | some g =>
        refine ⟨g.advance_x, ?_⟩
        rw [advanced, h c g hg, Int.natCast_zero, Int.add_zero]
    · refine ⟨0, ?_⟩
      unfold renderer ssfn_putc
      dsimp only
      rw [if_pos (by tauto), Int.natCast_zero, Int.add_zero]

end Characters

end Hippos.Framebuffer
