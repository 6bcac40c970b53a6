/-
  Hippos.Lib.Raster — pictures in memory.

  A raster is a window of memory: rows of 32-bit words, one pitch apart.  `Shows` relates a memory
  to the picture in such a window and keeps track of the memory it came from: whatever is drawn by
  single words, nothing else is touched.

  A picture is a function of column and row, so what is drawn can be said without addresses.  A
  stored word is a dot, and a stamp is drawn over a picture by `overlay`, with which many dots
  become one.

  Main results:
    * `address_apart` — different places have words that do not overlap.
    * `Inside.store32`, `Inside.fill32` — accesses in the window stay inside of it.
    * `Shows.store32` — a word stored at its address is a dot in the picture.
    * `overlay_overlay`, `dot_eq_overlay` — stamps over stamps, and dots as stamps.
-/
import Hippos.Lib.ByteMemory

namespace Hippos.Lib

/-- `height` rows of `width` words, `pitch` bytes from one row to the next. -/
structure Raster where
  base : ℕ
  pitch : ℕ
  width : ℕ
  height : ℕ
  apart : 4 * width ≤ pitch

namespace Raster

variable {r : Raster} {m₀ m m' : Memory} {x y x' y' a : ℕ}

/-- Where the word at column `x` of row `y` is. -/
def address (r : Raster) (x y : ℕ) : ℕ := r.base + y * r.pitch + 4 * x

/-- Behind the last word of the last row. -/
def limit (r : Raster) : ℕ := r.base + (r.height - 1) * r.pitch + 4 * r.width

/-- The word there. -/
def word (r : Raster) (m : Memory) (x y : ℕ) : UInt32 := m.word32 (r.address x y)

/-! ## §1. Words do not overlap. -/

/-- A word of the picture is in the window. -/
theorem address_in (hx : x < r.width) (hy : y < r.height) :
    r.base ≤ r.address x y ∧ r.address x y + 4 ≤ r.limit := by
  have hrow : y * r.pitch ≤ (r.height - 1) * r.pitch := Nat.mul_le_mul_right _ (by omega)
  unfold address limit
  omega

/-- A row ends before the next one starts. -/
theorem address_lt_of_row (hx : x < r.width) (hy : y < y') :
    r.address x y + 4 ≤ r.address x' y' := by
  have hrow : (y + 1) * r.pitch ≤ y' * r.pitch := Nat.mul_le_mul_right _ hy
  rw [Nat.add_mul, Nat.one_mul] at hrow
  have hapart := r.apart
  unfold address
  omega

/-- Words at different places do not overlap, in one row or in two: a row's words end before the
    next row begins, since the pitch covers the width. -/
theorem address_apart (hx : x < r.width) (hx' : x' < r.width) (hne : x ≠ x' ∨ y ≠ y') :
    r.address x y + 4 ≤ r.address x' y' ∨ r.address x' y' + 4 ≤ r.address x y := by
  rcases Nat.lt_trichotomy y y' with hlt | rfl | hgt
  · exact Or.inl (address_lt_of_row hx hlt)
  · unfold address
    omega
  · exact Or.inr (address_lt_of_row hx' hgt)

/-! ## §2. What happens inside of a window. -/

/-- `m` comes from `m₀` by accesses in the window. -/
structure Inside (r : Raster) (m₀ m : Memory) : Prop where
  accessed : ∀ a ∈ m.accessed, a ∈ m₀.accessed ∨ r.base ≤ a ∧ a < r.limit
  outside : ∀ a, a < r.base ∨ r.limit ≤ a → m.byte a = m₀.byte a

/-- Nothing has happened. -/
theorem Inside.refl (r : Raster) (m : Memory) : Inside r m m where
  accessed _ ha := Or.inl ha
  outside _ _ := rfl

/-- One thing after another. -/
theorem Inside.trans {m₁ : Memory} (h : Inside r m₀ m₁) (h' : Inside r m₁ m) :
    Inside r m₀ m where
  accessed a ha := by
    rcases h'.accessed a ha with ha | ha
    · exact h.accessed a ha
    · exact Or.inr ha
  outside a ha := (h'.outside a ha).trans (h.outside a ha)

/-- A word in the window, at any address, also at one between two words of the picture.  The window
    ends with the last row, so padding behind that row is outside. -/
theorem Inside.store32 (h : Inside r m₀ m) (hbase : r.base ≤ a) (hlimit : a + 4 ≤ r.limit)
    (v : UInt32) : Inside r m₀ (m.store32 a v) where
  accessed b hb := by
    simp only [Memory.store32, Memory.store16_accessed, List.mem_cons] at hb
    rcases hb with rfl | rfl | rfl | rfl | hb
    · exact Or.inr (by omega)
    · exact Or.inr (by omega)
    · exact Or.inr (by omega)
    · exact Or.inr (by omega)
    · exact h.accessed b hb
  outside b hb := by
    rw [Memory.byte_store32_other _ _ (by omega)]
    exact h.outside b hb

/-- A fill in the window. -/
theorem Inside.fill32 (h : Inside r m₀ m) {n : ℕ} (hbase : r.base ≤ a)
    (hlimit : a + 4 * n ≤ r.limit) (v : UInt32) : Inside r m₀ (m.fill32 a v n) := by
  induction n with
  | zero => exact h
  | succ n ih => exact (ih (by omega)).store32 (by omega) (by omega) v

/-! ## §3. Pictures. -/

/-- `m` comes from `m₀` by accesses in the window and shows the picture `p`. -/
structure Shows (r : Raster) (m₀ m : Memory) (p : ℕ → ℕ → UInt32) : Prop
    extends Inside r m₀ m where
  shown : ∀ x < r.width, ∀ y < r.height, r.word m x y = p x y

variable {p q : ℕ → ℕ → UInt32}

/-- Every memory shows some picture. -/
theorem Inside.shows (h : Inside r m₀ m) : Shows r m₀ m (r.word m) where
  toInside := h
  shown _ _ _ _ := rfl

/-- Only what is in the window counts. -/
theorem Shows.congr (h : Shows r m₀ m p) (heq : ∀ x < r.width, ∀ y < r.height, p x y = q x y) :
    Shows r m₀ m q where
  toInside := h.toInside
  shown x hx y hy := (h.shown x hx y hy).trans (heq x hx y hy)

/-- The picture with another colour at one place. -/
def dot (p : ℕ → ℕ → UInt32) (x y : ℕ) (v : UInt32) : ℕ → ℕ → UInt32 :=
  fun x' y' => if x' = x ∧ y' = y then v else p x' y'

/-- **A word stored at its address is a dot in the picture.**  The other words keep what they show,
    because words at different places do not overlap. -/
theorem Shows.store32 (h : Shows r m₀ m p) (hx : x < r.width) (hy : y < r.height) (v : UInt32) :
    Shows r m₀ (m.store32 (r.address x y) v) (dot p x y v) where
  toInside := h.toInside.store32 (address_in hx hy).1 (address_in hx hy).2 v
  shown x' hx' y' hy' := by
    unfold word dot
    by_cases hsame : x' = x ∧ y' = y
    · obtain ⟨rfl, rfl⟩ := hsame
      rw [if_pos ⟨rfl, rfl⟩, Memory.word32_store32]
    · rw [if_neg hsame, Memory.word32_store32_other _ _ (address_apart hx' hx (by omega))]
      exact h.shown x' hx' y' hy'

/-! ## §4. Stamps. -/

/-- The picture with the colours of a stamp whose corner is at `(x₀, y₀)`; where the stamp has none,
    one sees through it. -/
def overlay (p : ℕ → ℕ → UInt32) (x₀ y₀ : ℕ) (color : ℕ → ℕ → Option UInt32) : ℕ → ℕ → UInt32 :=
  fun x y => if x₀ ≤ x ∧ y₀ ≤ y then (color (x - x₀) (y - y₀)).getD (p x y) else p x y

/-- A stamp that one sees through everywhere. -/
theorem overlay_none (p : ℕ → ℕ → UInt32) (x₀ y₀ : ℕ) : overlay p x₀ y₀ (fun _ _ => none) = p := by
  funext x y
  exact ite_self _

/-- A second stamp at the same place covers the first. -/
theorem overlay_overlay (p : ℕ → ℕ → UInt32) (x₀ y₀ : ℕ) (c c' : ℕ → ℕ → Option UInt32) :
    overlay (overlay p x₀ y₀ c) x₀ y₀ c' = overlay p x₀ y₀ fun x y => (c' x y).or (c x y) := by
  funext x y
  unfold overlay
  dsimp only
  by_cases h : x₀ ≤ x ∧ y₀ ≤ y
  · rw [if_pos h, if_pos h, if_pos h, Option.getD_or]
  · rw [if_neg h, if_neg h, if_neg h]

/-- A stamp further to the right. -/
theorem overlay_right (p : ℕ → ℕ → UInt32) (x₀ y₀ dx : ℕ) (c : ℕ → ℕ → Option UInt32) :
    overlay p (x₀ + dx) y₀ c
      = overlay p x₀ y₀ fun x y => if dx ≤ x then c (x - dx) y else none := by
  funext x y
  unfold overlay
  dsimp only
  by_cases h : x₀ + dx ≤ x ∧ y₀ ≤ y
  · rw [if_pos h, if_pos (by omega), if_pos (by omega), Nat.sub_sub]
  · rw [if_neg h]
    -- outside of the moved stamp there is none of the other
    split_ifs
    · omega
    · rfl
    · rfl

/-- A dot is a stamp. -/
theorem dot_eq_overlay (p : ℕ → ℕ → UInt32) (x₀ y₀ dx dy : ℕ) (v : UInt32) :
    dot p (x₀ + dx) (y₀ + dy) v
      = overlay p x₀ y₀ fun x y => if x = dx ∧ y = dy then some v else none := by
  funext x y
  unfold dot overlay
  dsimp only
  by_cases h : x = x₀ + dx ∧ y = y₀ + dy
  · rw [if_pos h, if_pos (by omega), if_pos (by omega)]
    rfl
  -- elsewhere the stamp is seen through
  · rw [if_neg h]
    split_ifs with hin hat
    · omega
    · rfl
    · rfl

end Raster

end Hippos.Lib
