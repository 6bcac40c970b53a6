/-
  Hippos.Lib.ByteMemory — memory by byte address, with a record of the accesses.

  Addresses are natural numbers: the model covers any width of pointer as long as no access wraps,
  which C leaves undefined.  Wider stores and reads are little-endian; a run of equal words written
  one after the other is a fill.

  A memory also remembers which addresses were read or written.  That is what a statement about
  bounds is about: a function stays inside an object when every address it adds to the record does.

  Main results:
    * `word16_store16`, `word32_store32` — a stored word is read back, and `byte_eq_of_word32`: it
      determines its bytes.
    * `word32_fill32`, `fill32_eq_of_words` — a fill, word by word.
    * `bytes_stores`, `mem_stores_accessed` — a stored text, and the addresses it touches.
    * `StringAt.unique` — an address has at most one NUL-terminated string.
-/
import Hippos.Lib.FieldMask

namespace Hippos.Lib

/-- The bytes, and the addresses read or written so far (newest first).  Every byte has a value:
    what a program may touch is said by statements about `accessed`, not by the memory itself. -/
structure Memory where
  byte : ℕ → UInt8
  accessed : List ℕ

namespace Memory

/-- A read gives the byte and is recorded. -/
def load (m : Memory) (a : ℕ) : UInt8 × Memory :=
  (m.byte a, { m with accessed := a :: m.accessed })

/-- A write changes one byte and is recorded. -/
def store (m : Memory) (a : ℕ) (v : UInt8) : Memory where
  byte := fun b => if b = a then v else m.byte b
  accessed := a :: m.accessed

/-- The low byte first. -/
def store16 (m : Memory) (a : ℕ) (v : UInt16) : Memory :=
  (m.store a v.toUInt8).store (a + 1) (v >>> 8).toUInt8

/-- The low half first. -/
def store32 (m : Memory) (a : ℕ) (v : UInt32) : Memory :=
  (m.store16 a v.toUInt16).store16 (a + 2) (v >>> 16).toUInt16

/-- Both bytes are recorded, the later one in front. -/
@[simp] theorem store16_accessed (m : Memory) (a : ℕ) (v : UInt16) :
    (m.store16 a v).accessed = (a + 1) :: a :: m.accessed := rfl

/-! ## §1. Words. -/

/-- The 16-bit word at `a`, little-endian.  Unlike `load` this is a view of the memory, not an
    access. -/
def word16 (m : Memory) (a : ℕ) : UInt16 :=
  (m.byte a).toUInt16 ||| ((m.byte (a + 1)).toUInt16 <<< 8)

/-- The 32-bit word at `a`, from its two halves. -/
def word32 (m : Memory) (a : ℕ) : UInt32 :=
  (m.word16 a).toUInt32 ||| ((m.word16 (a + 2)).toUInt32 <<< 16)

/-- As a number, a word is its two bytes in base 256. -/
theorem word16_toNat (m : Memory) (a : ℕ) :
    (m.word16 a).toNat = (m.byte a).toNat + 2 ^ 8 * (m.byte (a + 1)).toNat := by
  rw [word16, UInt16.or_comm, join_bytes_toNat, Nat.add_comm]

/-- And a 32-bit word is its two halves in base 2^16. -/
theorem word32_toNat (m : Memory) (a : ℕ) :
    (m.word32 a).toNat = (m.word16 a).toNat + 2 ^ 16 * (m.word16 (a + 2)).toNat := by
  rw [word32, UInt32.or_comm, join_halves_toNat, Nat.add_comm]

/-- A word depends on its bytes alone, wherever they are. -/
theorem word16_congr {m m' : Memory} {a a' : ℕ} (h : ∀ i < 2, m.byte (a + i) = m'.byte (a' + i)) :
    m.word16 a = m'.word16 a' := by
  have h0 : m.byte a = m'.byte a' := h 0 (by omega)
  rw [word16, word16, h0, h 1 (by omega)]

/-- So does a 32-bit word: the halves are words of the same bytes. -/
theorem word32_congr {m m' : Memory} {a a' : ℕ} (h : ∀ i < 4, m.byte (a + i) = m'.byte (a' + i)) :
    m.word32 a = m'.word32 a' := by
  have hlow : m.word16 a = m'.word16 a' := word16_congr fun i hi => h i (by omega)
  have hhigh : m.word16 (a + 2) = m'.word16 (a' + 2) := by
    apply word16_congr
    intro i hi
    rw [Nat.add_assoc, Nat.add_assoc]
    exact h (2 + i) (by omega)
  rw [word32, word32, hlow, hhigh]

/-- **A word determines its bytes**: base 256 has one expansion of four digits. -/
theorem byte_eq_of_word32 {m m' : Memory} {a a' i : ℕ} (h : m.word32 a = m'.word32 a')
    (hi : i < 4) : m.byte (a + i) = m'.byte (a' + i) := by
  have hb := fun j => (m.byte (a + j)).toNat_lt
  have hb' := fun j => (m'.byte (a' + j)).toNat_lt
  -- four bytes in base 256
  have heq := congrArg UInt32.toNat h
  simp only [word32_toNat, word16_toNat, Nat.add_assoc, Nat.reduceAdd] at heq
  have h0 := hb 0
  have h0' := hb' 0
  have h1 := hb 1
  have h1' := hb' 1
  have h2 := hb 2
  have h2' := hb' 2
  have h3 := hb 3
  have h3' := hb' 3
  rw [Nat.add_zero] at h0 h0'
  rw [← UInt8.toNat_inj]
  -- one digit after the other
  have hcases : i = 0 ∨ i = 1 ∨ i = 2 ∨ i = 3 := by omega
  rcases hcases with rfl | rfl | rfl | rfl
  · show (m.byte a).toNat = (m'.byte a').toNat
    omega
  · omega
  · omega
  · omega

/-- A stored word leaves the bytes around it alone. -/
theorem byte_store16_other (m : Memory) {a b : ℕ} (v : UInt16) (h : b < a ∨ a + 2 ≤ b) :
    (m.store16 a v).byte b = m.byte b := by
  show (if b = a + 1 then _ else if b = a then _ else m.byte b) = m.byte b
  rw [if_neg (by omega), if_neg (by omega)]

/-- **A stored word is read back.**  The two bytes are its halves, the low one first, and joining
    them again loses nothing. -/
theorem word16_store16 (m : Memory) (a : ℕ) (v : UInt16) : (m.store16 a v).word16 a = v := by
  have hlow : (m.store16 a v).byte a = v.toUInt8 := by
    show (if a = a + 1 then _ else if a = a then v.toUInt8 else m.byte a) = v.toUInt8
    rw [if_neg (by omega), if_pos rfl]
  have hhigh : (m.store16 a v).byte (a + 1) = (v >>> 8).toUInt8 := if_pos rfl
  -- remainder and quotient of one division
  rw [← UInt16.toNat_inj, word16_toNat, hlow, hhigh, UInt16.toNat_toUInt8, high_byte_toNat]
  exact Nat.mod_add_div _ _

/-- And the words that do not overlap it. -/
theorem word16_store16_other (m : Memory) {a b : ℕ} (v : UInt16) (h : b + 2 ≤ a ∨ a + 2 ≤ b) :
    (m.store16 a v).word16 b = m.word16 b :=
  word16_congr fun i hi => byte_store16_other m v (by omega)

/-- The same for 32 bits, half by half. -/
theorem byte_store32_other (m : Memory) {a b : ℕ} (v : UInt32) (h : b < a ∨ a + 4 ≤ b) :
    (m.store32 a v).byte b = m.byte b := by
  rw [store32, byte_store16_other _ _ (by omega), byte_store16_other _ _ (by omega)]

/-- **A stored 32-bit word is read back**, as two stored 16-bit words, of which the second does not
    touch the first. -/
theorem word32_store32 (m : Memory) (a : ℕ) (v : UInt32) : (m.store32 a v).word32 a = v := by
  -- the upper half is stored last and does not touch the lower one
  have hlow : (m.store32 a v).word16 a = v.toUInt16 := by
    rw [store32, word16_store16_other _ _ (by omega), word16_store16]
  have hhigh : (m.store32 a v).word16 (a + 2) = (v >>> 16).toUInt16 := word16_store16 _ _ _
  rw [← UInt32.toNat_inj, word32_toNat, hlow, hhigh, UInt32.toNat_toUInt16, high_half_toNat]
  exact Nat.mod_add_div _ _

theorem word32_store32_other (m : Memory) {a b : ℕ} (v : UInt32) (h : b + 4 ≤ a ∨ a + 4 ≤ b) :
    (m.store32 a v).word32 b = m.word32 b :=
  word32_congr fun i hi => byte_store32_other m v (by omega)

/-! ## §2. Fills. -/

/-- `n` words `v` from `base` on, in ascending order: what `for (i = 0; i < n; i++) p[i] = v` does
    to an array of 32-bit words. -/
def fill32 (m : Memory) (base : ℕ) (v : UInt32) : (n : ℕ) → Memory
  | 0 => m
  | n + 1 => (fill32 m base v n).store32 (base + 4 * n) v

/-- Two fills one behind the other are one: nested loops over rows become a single fill. -/
theorem fill32_append (m : Memory) (base : ℕ) (v : UInt32) (n k : ℕ) :
    fill32 (fill32 m base v n) (base + 4 * n) v k = fill32 m base v (n + k) := by
  induction k with
  | zero => rfl
  | succ k ih =>
    rw [fill32, ih, ← Nat.add_assoc, fill32, Nat.add_assoc, ← Nat.mul_add]

/-- Outside of the filled words nothing changes. -/
theorem byte_fill32_other (m : Memory) {base b : ℕ} (v : UInt32) (n : ℕ)
    (h : b < base ∨ base + 4 * n ≤ b) : (fill32 m base v n).byte b = m.byte b := by
  induction n with
  | zero => rfl
  | succ n ih => rw [fill32, byte_store32_other _ _ (by omega), ih (by omega)]

theorem word32_fill32_other (m : Memory) {base a : ℕ} (v : UInt32) (n : ℕ)
    (h : a + 4 ≤ base ∨ base + 4 * n ≤ a) : (fill32 m base v n).word32 a = m.word32 a :=
  word32_congr fun i hi => byte_fill32_other m v n (by omega)

/-- **Every word of a fill is the filler.**  By induction on the number of words: the last one was
    stored last, and it does not touch those before it.  Words are numbered from the start of the
    fill, whatever its alignment. -/
theorem word32_fill32 (m : Memory) (base : ℕ) (v : UInt32) {n j : ℕ} (hj : j < n) :
    (fill32 m base v n).word32 (base + 4 * j) = v := by
  induction n with
  | zero => omega
  | succ n ih =>
    rw [fill32]
    rcases Nat.lt_succ_iff_lt_or_eq.mp hj with hlt | rfl
    · rw [word32_store32_other _ _ (by omega), ih hlt]
    · exact word32_store32 _ _ _

/-- A memory that agrees outside a fill and has the filler inside is what the fill leaves, byte by
    byte: words determine their bytes, so a statement about pixels is one about memory. -/
theorem fill32_eq_of_words {m m' : Memory} {base : ℕ} {v : UInt32} {n : ℕ}
    (hin : ∀ j < n, m'.word32 (base + 4 * j) = v)
    (hout : ∀ b, b < base ∨ base + 4 * n ≤ b → m.byte b = m'.byte b) (b : ℕ) :
    (fill32 m base v n).byte b = m'.byte b := by
  by_cases hb : b < base ∨ base + 4 * n ≤ b
  · rw [byte_fill32_other m v n hb, hout b hb]
  · -- byte `i` of word `j`
    have hword : (fill32 m base v n).word32 (base + 4 * ((b - base) / 4))
        = m'.word32 (base + 4 * ((b - base) / 4)) := by
      rw [word32_fill32 m base v (by omega), hin _ (by omega)]
    have hbyte := byte_eq_of_word32 hword (Nat.mod_lt (b - base) (by omega : 4 > 0))
    rw [show base + 4 * ((b - base) / 4) + (b - base) % 4 = b by omega] at hbyte
    exact hbyte

/-! ## §3. Texts. -/

/-- The characters of `s`, stored one by one from `a` on. -/
def stores (m : Memory) (a : ℕ) : (s : List UInt8) → Memory
  | [] => m
  | c :: s => (m.store a c).stores (a + 1) s

/-- A text in two parts is stored part by part. -/
theorem stores_append (s s' : List UInt8) :
    ∀ (m : Memory) (a : ℕ), m.stores a (s ++ s') = (m.stores a s).stores (a + s.length) s' := by
  induction s with
  | nil => intro m a; rfl
  | cons c s ih =>
    intro m a
    rw [List.cons_append, stores, ih, stores, List.length_cons, Nat.add_assoc, Nat.add_comm 1]

/-- Storing a text leaves the bytes around it alone. -/
theorem byte_stores_other (s : List UInt8) :
    ∀ (m : Memory) (a : ℕ) {b : ℕ}, b < a ∨ a + s.length ≤ b →
      (m.stores a s).byte b = m.byte b := by
  induction s with
  | nil => intro m a b _; rfl
  | cons c s ih =>
    intro m a b hb
    rw [List.length_cons] at hb
    rw [stores, ih _ _ (by omega)]
    exact if_neg (by omega)

/-- **Each character of a stored text is in its place.** -/
theorem byte_stores (s : List UInt8) :
    ∀ (m : Memory) (a : ℕ) {i : ℕ} (hi : i < s.length), (m.stores a s).byte (a + i) = s[i] := by
  induction s with
  | nil => intro m a i hi; exact absurd hi (Nat.not_lt_zero i)
  | cons c s ih =>
    intro m a i hi
    rw [stores]
    cases i with
    | zero =>
      -- the first character is not overwritten by the others
      rw [byte_stores_other _ _ _ (by omega)]
      exact if_pos rfl
    | succ i =>
      rw [List.length_cons] at hi
      rw [List.getElem_cons_succ, ← ih (m.store a c) (a + 1) (by omega)]
      congr 1
      omega

/-- **What is touched**: the record grows by one access for each character, and by nothing else. -/
theorem mem_stores_accessed (s : List UInt8) :
    ∀ (m : Memory) (a b : ℕ), b ∈ (m.stores a s).accessed
      ↔ b ∈ m.accessed ∨ (a ≤ b ∧ b < a + s.length) := by
  induction s with
  | nil =>
    intro m a b
    rw [stores, List.length_nil]
    constructor
    · exact Or.inl
    · intro h
      rcases h with h | h
      · exact h
      · omega
  | cons c s ih =>
    intro m a b
    have hstore : b ∈ (m.store a c).accessed ↔ b = a ∨ b ∈ m.accessed := List.mem_cons
    rw [stores, ih, hstore, List.length_cons]
    -- the first character is at `a`, the others are behind it
    constructor
    · intro h
      rcases h with (h | h) | h
      · exact Or.inr (by omega)
      · exact Or.inl h
      · exact Or.inr (by omega)
    · intro h
      rcases h with h | h
      · exact Or.inl (Or.inr h)
      · by_cases hb : b = a
        · exact Or.inl (Or.inl hb)
        · exact Or.inr (by omega)

/-- The object of `n` bytes at `a`, as a list. -/
def bytes (m : Memory) (a n : ℕ) : List UInt8 := (List.range n).map fun i => m.byte (a + i)

@[simp] theorem length_bytes (m : Memory) (a n : ℕ) : (m.bytes a n).length = n := by
  rw [bytes, List.length_map, List.length_range]

/-- An object is its bytes. -/
theorem bytes_congr {m m' : Memory} {a n : ℕ} (h : ∀ i < n, m.byte (a + i) = m'.byte (a + i)) :
    m.bytes a n = m'.bytes a n := by
  apply List.map_congr_left
  intro i hi
  exact h i (List.mem_range.mp hi)

/-- **What was stored at the front of an object is there**, and the rest of the object is as it was:
    the object is a list of bytes, of which a prefix has been replaced. -/
theorem bytes_stores (m : Memory) (a : ℕ) {n : ℕ} {s : List UInt8} (hs : s.length ≤ n) :
    (m.stores a s).bytes a n = s ++ m.bytes (a + s.length) (n - s.length) := by
  apply List.ext_getElem
  · rw [List.length_append, length_bytes, length_bytes]
    omega
  · intro i hi hi'
    rw [length_bytes] at hi
    simp only [bytes, List.getElem_map, List.getElem_range]
    by_cases hlt : i < s.length
    · rw [List.getElem_append_left hlt, byte_stores _ _ _ hlt]
    · rw [List.getElem_append_right (Nat.le_of_not_lt hlt), byte_stores_other _ _ _ (by omega)]
      simp only [List.getElem_map, List.getElem_range]
      congr 1
      omega

/-- A NUL-terminated string: `s` from `a` on, without a NUL before its end.  `s` is what a function
    that takes a `const char *` gets to see. -/
structure StringAt (m : Memory) (a : ℕ) (s : List UInt8) : Prop where
  chars : ∀ i (h : i < s.length), m.byte (a + i) = s[i]
  nul : m.byte (a + s.length) = 0
  nonzero : ∀ c ∈ s, c ≠ 0

/-- The first NUL is the end: a string is not longer than another one at the same place. -/
theorem StringAt.length_le {m : Memory} {a : ℕ} {s s' : List UInt8} (h : StringAt m a s)
    (h' : StringAt m a s') : s.length ≤ s'.length := by
  by_contra hlt
  have hchar := h.chars s'.length (by omega)
  rw [h'.nul] at hchar
  exact h.nonzero _ (List.getElem_mem (by omega)) hchar.symm

/-- **There is one string at an address**: it has no NUL and a NUL ends it, so two strings from the
    same byte on end at the same place. -/
theorem StringAt.unique {m : Memory} {a : ℕ} {s s' : List UInt8} (h : StringAt m a s)
    (h' : StringAt m a s') : s = s' := by
  apply List.ext_getElem (Nat.le_antisymm (h.length_le h') (h'.length_le h))
  intro i hi hi'
  rw [← h.chars i hi, ← h'.chars i hi']

end Memory

end Hippos.Lib
