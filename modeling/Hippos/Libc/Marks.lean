/-
  Hippos.Libc.Marks — numbers with the mark of their base.

  With `#` a hexadecimal, octal or binary number gets `0x`, `0` or `0b` in front.  When its digits
  fill the width exactly, two of them or one are taken off to make room for the mark.  Where zeros
  have filled the width these are zeros; where the digits have, the number is another one.

  Reading back goes in three steps.  `word` strips the spaces, `unmark` the mark, and `read_digits`
  evaluates the rest.  A mark can only be told from the digits because no digit is the letter of a
  mark; where the buffer has no room for both characters, what stands in front is no mark at all,
  and nothing is read.  Base 8 is the exception: its mark is a digit, and a zero in front serves as
  well.

  Main results:
    * `read_zeros_drop_iff` — a number loses nothing exactly when what is taken off are zeros.
    * `read_marked_eq` — what a marked conversion reads back as.
    * `marked_read_back` — it is the number of the argument if and only if there is room for the
      mark.
-/
import Hippos.Libc.ReadBack

namespace Hippos.Libc.Printf

open Hippos.Lib

variable {τ : Type}

/-! ## §1. What is taken off. -/

/-- The room that is made for a mark: two characters in base 16, one in the others. -/
def mark_room (base : ℕ) : ℕ := if base = 16 then 2 else 1

/-- How many characters of the digits are taken off: none where a precision was given, or where the
    digits do not fill the precision or the width. -/
def cut (len base prec width : ℕ) (flags : Flags) : ℕ :=
  if !flags.precision ∧ len ≠ 0 ∧ (len = prec ∨ len = width) then min len (mark_room base) else 0

/-- The pops of `hash_base` drop `cut` characters, which stand first in the number. -/
theorem hash_room_eq (buf : List UInt8) (base prec width : ℕ) (flags : Flags) :
    hash_room buf base prec width flags = buf.drop (cut buf.length base prec width flags) := by
  unfold hash_room cut mark_room
  split_ifs with hcut htail h16 h16
  · have hlen : min buf.length 2 = 2 := by
      rw [List.length_tail] at htail
      omega
    rw [hlen, ← List.drop_one, List.drop_tail]
  · exact absurd htail.2 h16
  · -- a single digit
    have hlen : min buf.length 2 = 1 := by
      rw [List.length_tail] at htail
      omega
    rw [hlen, List.drop_one]
  · have hlen : min buf.length 1 = 1 := by omega
    rw [hlen, List.drop_one]
  · rfl

/-- What is left of a number when digits are taken off after the zeros.  The characters taken off
    are its first ones, so what remains is the value modulo a power of the base. -/
theorem read_zeros_drop {base : ℕ} (hbase : 1 < base) (hmax : base ≤ 16) {value : ℕ}
    (hvalue : value ≠ 0) (negative : Bool) (prec width : ℕ) (flags : Flags) (k : ℕ) :
    read_digits base ((zeros_text value negative base prec width flags).drop k)
      = some (value % base ^ ((digits_text value base flags).length
          - (k - zeros (digits_text value base flags).length negative prec width flags))) := by
  have hdigits : digits_text value base flags = numeral flags.uppercase base value :=
    if_pos (.inr hvalue)
  unfold zeros_text
  dsimp only
  rw [List.drop_append, List.drop_replicate, read_digits_zeros (by omega), List.length_replicate]
  -- the zeros go first; `j` characters are taken from the digits
  generalize k - zeros _ _ _ _ _ = j
  rw [hdigits, numeral, List.drop_reverse, List.length_reverse, ← List.map_take, List.take_take,
      read_places hbase hmax, List.length_map, List.length_take]
  congr 3
  omega

/-- Digits behind the zeros count; so a number loses nothing if and only if it loses zeros.  A value
    with `n` digits is at least `base ^ (n - 1)`, and what is left of it without the first one is
    less. -/
theorem read_zeros_drop_iff {base : ℕ} (hbase : 1 < base) (hmax : base ≤ 16) {value : ℕ}
    (hvalue : value ≠ 0) (hlt : value < base ^ PRINTF_NTOA_BUFFER_SIZE) (negative : Bool)
    (prec width : ℕ) (flags : Flags) (k : ℕ) :
    read_digits base ((zeros_text value negative base prec width flags).drop k) = some value ↔
      k ≤ zeros (base.digits value).length negative prec width flags := by
  have hlen : (base.digits value).length ≤ PRINTF_NTOA_BUFFER_SIZE := by
    rw [Nat.digits_length_le_iff hbase]
    exact hlt
  have hdigits : (digits_text value base flags).length = (base.digits value).length := by
    rw [digits_text, if_pos (.inr hvalue), numeral_length,
        places_of_pos hbase (Nat.pos_of_ne_zero hvalue)]
    exact Nat.min_eq_right hlen
  have hpos : 0 < (base.digits value).length := by
    rw [List.length_pos_iff]
    exact Nat.digits_ne_nil_iff_ne_zero.mpr hvalue
  have hlow : base ^ ((base.digits value).length - 1) ≤ value := by
    rw [← Nat.lt_digits_length_iff hbase]
    omega
  have hhigh : value < base ^ (base.digits value).length := Nat.lt_base_pow_length_digits hbase
  rw [read_zeros_drop hbase hmax hvalue, hdigits, Option.some.injEq]
  constructor
  · intro hmod
    by_contra hlost
    -- what is left is too short
    have hshort : value % base ^ ((base.digits value).length
        - (k - zeros (base.digits value).length negative prec width flags))
        < base ^ ((base.digits value).length
          - (k - zeros (base.digits value).length negative prec width flags)) :=
      Nat.mod_lt _ (Nat.pow_pos (by omega))
    have hle := Nat.pow_le_pow_right (n := base) (by omega)
      (show (base.digits value).length
        - (k - zeros (base.digits value).length negative prec width flags)
          ≤ (base.digits value).length - 1 by omega)
    omega
  · intro hzeros
    rw [Nat.sub_eq_zero_of_le hzeros, Nat.sub_zero]
    exact Nat.mod_eq_of_lt hhigh

/-! ## §2. Reading a mark. -/

/-- The spaces around a number are no part of it, in whichever way it was padded. -/
theorem word_of_padded {s : List UInt8} (hs : ∀ c ∈ s, Unsigned c) (width : ℕ) (flags : Flags) :
    word (padded s width flags) = s := by
  unfold padded
  split_ifs
  · exact word_padded hs _ _
  · exact word_padded hs _ 0
  · exact word_padded hs 0 _
  · exact word_padded hs 0 0

/-- A letter is a mark of the base and no digit in it. -/
def Marks (base : ℕ) (x : UInt8) : Prop :=
  base = 16 ∧ (x = 0x78 ∨ x = 0x58) ∨ base = 2 ∧ x = 0x62

/-- A whole mark is taken off. -/
theorem unmark_letter {base : ℕ} {x : UInt8} (hx : Marks base x) (s : List UInt8) :
    unmark base (0x30 :: x :: s) = some s := by
  unfold unmark
  rcases hx with ⟨rfl, rfl | rfl⟩ | ⟨rfl, rfl⟩ <;> rfl

/-- Without its 0, or without the letter, a mark is none. -/
theorem unmark_none {base : ℕ} {x : UInt8} (hx : Marks base x) {s : List UInt8}
    (hs : ∀ c ∈ s, ¬ Marks base c) : unmark base s = none ∧ unmark base (x :: s) = none := by
  have hsecond : ∀ t : List UInt8, (∀ c ∈ t, ¬ Marks base c) → unmark base (0x30 :: t) = none := by
    intro t ht
    have hhead : ∀ c, t.head? = some c → ¬ Marks base c :=
      fun c h => ht c (List.mem_of_head? h)
    show (if base = 16 then _ else if base = 2 then _ else _) = _
    rcases hx with ⟨rfl, -⟩ | ⟨rfl, -⟩
    · rw [if_pos rfl, if_neg]
      rintro (h | h)
      · exact hhead _ h (.inl ⟨rfl, .inl rfl⟩)
      · exact hhead _ h (.inl ⟨rfl, .inr rfl⟩)
    · rw [if_neg (by decide), if_pos rfl, if_neg fun h => hhead _ h (.inr ⟨rfl, rfl⟩)]
  have hfirst : ∀ (c : UInt8) (t : List UInt8), c ≠ 0x30 → unmark base (c :: t) = none := by
    intro c t hc
    unfold unmark
    split
    · rename_i h
      exact absurd (List.cons.inj h).1 hc
    · rfl
  -- a digit in front may be a 0, but then no letter follows it
  constructor
  · cases s with
    | nil => rfl
    | cons c t =>
      by_cases hc : c = 0x30
      · subst hc
        exact hsecond t fun y hy => hs y (List.mem_cons_of_mem _ hy)
      · exact hfirst c t hc
  · apply hfirst
    rcases hx with ⟨-, rfl | rfl⟩ | ⟨-, rfl⟩ <;> decide

/-- Two characters of a mark have to fit.  With room for one only, the letter stands in front
    without its 0. -/
theorem unmark_two {base : ℕ} {x : UInt8} (hx : Marks base x) {s : List UInt8}
    (hs : ∀ c ∈ s, ¬ Marks base c) :
    unmark base (top 0x30 (top x s))
      = if s.length + 2 ≤ PRINTF_NTOA_BUFFER_SIZE then some s else none := by
  obtain ⟨hnone, hletter⟩ := unmark_none hx hs
  by_cases hroom : s.length < PRINTF_NTOA_BUFFER_SIZE
  · rw [top, top, if_pos hroom, List.length_cons]
    split_ifs
    · exact unmark_letter hx s
    · omega
    · omega
    · exact hletter
  · rw [top, top, if_neg hroom, if_neg hroom, if_neg (by omega)]
    exact hnone

/-- The mark of base 8 is a digit: where there is no room for it, a zero in front stands for it. -/
theorem unmark_octal {s : List UInt8}
    (hzero : PRINTF_NTOA_BUFFER_SIZE ≤ s.length → s.head? = some 0x30) :
    (unmark 8 (top 0x30 s)).bind (read_digits 8) = read_digits 8 s := by
  by_cases hroom : s.length < PRINTF_NTOA_BUFFER_SIZE
  · rw [top, if_pos hroom]
    rfl
  · rw [top, if_neg hroom]
    cases s with
    | nil => exact absurd (by decide) hroom
    | cons c s =>
      obtain rfl := Option.some.inj (hzero (Nat.le_of_not_lt hroom))
      exact (read_digits_zeros (by decide) 1 s).symm

/-! ## §3. Marked conversions. -/

/-- How many digits there are, with the zeros that a precision or a width asks for. -/
def filled_digits (d : Directive) (digits : ℕ) : ℕ :=
  if d.flags.left then digits
  else max digits (min PRINTF_NTOA_BUFFER_SIZE
    (if d.flags.precision then d.precision else if d.flags.zeropad then d.width else 0))

/-- The digits fill the width, and characters are taken off them: the comparison `len == width` in
    `_ntoa_format`. -/
def Filled (d : Directive) (digits : ℕ) : Prop :=
  d.flags.precision = false ∧ filled_digits d digits = d.width

instance (d : Directive) (digits : ℕ) : Decidable (Filled d digits) :=
  inferInstanceAs (Decidable (_ ∧ _))

/-- **There is room for the mark.**  When the digits fill the width, it stands in the place of
    zeros; and its two characters fit into the buffer. -/
def MarkFits (d : Directive) (base digits : ℕ) : Prop :=
  (Filled d digits → digits + mark_room base ≤ filled_digits d digits
      ∧ (base = 2 → filled_digits d digits < PRINTF_NTOA_BUFFER_SIZE))
    ∧ (¬ Filled d digits → base = 8 ∨ filled_digits d digits + 2 ≤ PRINTF_NTOA_BUFFER_SIZE)

instance (d : Directive) (base digits : ℕ) : Decidable (MarkFits d base digits) :=
  inferInstanceAs (Decidable (_ ∧ _))

/-- A base other than 10 prints unsigned, and no sign is asked for. -/
theorem integer_flags_marked {c : UInt8} (hc : base_of c ≠ 10) (flags : Flags) :
    is_signed c = false ∧ (integer_flags flags c).plus = false
      ∧ (integer_flags flags c).space = false := by
  have hsigned : is_signed c = false := by
    rw [← Bool.not_eq_true]
    exact fun h => hc (base_of_signed h)
  refine ⟨hsigned, ?_⟩
  unfold integer_flags
  dsimp only
  rw [hsigned, if_neg Bool.false_ne_true]
  split_ifs <;> exact ⟨rfl, rfl⟩

/-- The bases that have a mark. -/
theorem base_of_marked {c : UInt8} (hc : base_of c ≠ 10) :
    base_of c = 16 ∨ base_of c = 8 ∨ base_of c = 2 := by
  unfold base_of at hc ⊢
  split_ifs at hc ⊢ <;> simp at hc ⊢

/-- Without a sign the whole width can be filled. -/
theorem field_width_marked {c : UInt8} (hc : base_of c ≠ 10) (width : ℕ) (flags : Flags) :
    field_width false width (integer_flags flags c) = width := by
  obtain ⟨-, hplus, hspace⟩ := integer_flags_marked hc flags
  rw [field_width_eq, hplus, hspace]
  simp

/-- The text of a marked conversion, between its spaces. -/
theorem conversion_text_marked {c : UInt8} (hc : base_of c ≠ 10) {d : Directive}
    (hhash : d.flags.hash = true) {v : UInt64} {value : ℕ} (hvalue : value ≠ 0)
    (hv : argument_value c d.flags v = value) :
    conversion_text c d v = padded
      (top 0x30 (top_letter (base_letter (base_of c) (integer_flags d.flags c).uppercase)
        ((zeros_text value false (base_of c) d.precision d.width (integer_flags d.flags c)).drop
          (cut (zeros_text value false (base_of c) d.precision d.width
            (integer_flags d.flags c)).length (base_of c) d.precision d.width
            (integer_flags d.flags c)))))
      d.width (integer_flags d.flags c) := by
  obtain ⟨-, hplus, hspace⟩ := integer_flags_marked hc d.flags
  have hhash' : (integer_flags d.flags c).hash = true := by
    rw [(integer_flags_fields d.flags c).2.2.2, hhash, decide_eq_true hc]
    rfl
  have hneg : decide ((value : ℤ) < 0) = false := decide_eq_false (by omega)
  have hsign : sign_char false (integer_flags d.flags c) = none := by
    unfold sign_char
    rw [hplus, hspace]
    rfl
  unfold conversion_text integer_text integer_buf
  dsimp only
  rw [hv, hneg, Int.natAbs_natCast, if_neg hvalue, field_width_marked hc, hsign, hash_text,
      if_pos hhash', hash_room_eq]
  rfl

/-- A digit is never the letter of a mark.  `b` is a digit of base 16 but marks base 2 only. -/
theorem zeros_text_no_mark {base : ℕ} (hbase : 1 < base) {value : ℕ} {negative : Bool}
    {prec width : ℕ} {flags : Flags} {x : UInt8}
    (hx : x ∈ zeros_text value negative base prec width flags) : ¬ Marks base x := by
  obtain ⟨d, hd, rfl⟩ := mem_zeros_text hbase hx
  have h16 : ∀ uppercase : Bool, ∀ d < 16, digit_char uppercase (UInt8.ofNat d) ≠ 0x78
      ∧ digit_char uppercase (UInt8.ofNat d) ≠ 0x58 := by decide
  have h2 : ∀ uppercase : Bool, ∀ d < 2, digit_char uppercase (UInt8.ofNat d) ≠ 0x62 := by decide
  rintro (⟨rfl, h | h⟩ | ⟨rfl, h⟩)
  · exact (h16 _ d hd).1 h
  · exact (h16 _ d hd).2 h
  · exact h2 _ d hd h

/-- A character in front that is no sign leaves the text without one. -/
theorem top_unsigned {c : UInt8} (hc : Unsigned c) {s : List UInt8} (hs : ∀ x ∈ s, Unsigned x) :
    ∀ x ∈ top c s, Unsigned x := by
  unfold top
  split_ifs
  · intro x hx
    rcases List.mem_cons.mp hx with rfl | hx
    · exact hc
    · exact hs x hx
  · exact hs

/-- The letter of base 16 or 2 is the second character of its mark. -/
theorem base_letter_marks {base : ℕ} (h : base = 16 ∨ base = 2) (uppercase : Bool) :
    ∃ x, base_letter base uppercase = some x ∧ Marks base x ∧ Unsigned x := by
  rcases h with rfl | rfl
  · cases uppercase with
    | true => exact ⟨0x58, rfl, .inl ⟨rfl, .inr rfl⟩, by decide⟩
    | false => exact ⟨0x78, rfl, .inl ⟨rfl, .inl rfl⟩, by decide⟩
  · exact ⟨0x62, rfl, .inr ⟨rfl, rfl⟩, by decide⟩

/-- **What a marked number reads back as**, in bases 16 and 2. -/
theorem read_marked_two {base : ℕ} (h : base = 16 ∨ base = 2) (uppercase : Bool)
    {s : List UInt8} (hs : ∀ c ∈ s, Unsigned c) (hmark : ∀ c ∈ s, ¬ Marks base c) (width : ℕ)
    (flags : Flags) :
    read_marked base (padded (top 0x30 (top_letter (base_letter base uppercase) s)) width flags)
      = if s.length + 2 ≤ PRINTF_NTOA_BUFFER_SIZE then read_digits base s else none := by
  obtain ⟨x, hx, hmarks, hunsigned⟩ := base_letter_marks h uppercase
  rw [hx, read_marked]
  show (unmark base (word (padded (top 0x30 (top x s)) width flags))).bind _ = _
  rw [word_of_padded (top_unsigned (by decide) (top_unsigned hunsigned hs)),
      unmark_two hmarks hmark]
  split_ifs <;> rfl

/-- And in base 8, where a full buffer that begins with a zero needs no further mark. -/
theorem read_marked_octal (uppercase : Bool) {s : List UInt8} (hs : ∀ c ∈ s, Unsigned c)
    (hzero : PRINTF_NTOA_BUFFER_SIZE ≤ s.length → s.head? = some 0x30) (width : ℕ)
    (flags : Flags) :
    read_marked 8 (padded (top 0x30 (top_letter (base_letter 8 uppercase) s)) width flags)
      = read_digits 8 s := by
  rw [read_marked]
  show (unmark 8 (word (padded (top 0x30 s) width flags))).bind _ = _
  rw [word_of_padded (top_unsigned (by decide) hs), unmark_octal hzero]

/-! ## §4. When a mark fits. -/

/-- How many digits a value other than 0 has in the buffer. -/
theorem digits_text_length {base value : ℕ} (hbase : 1 < base) (hvalue : value ≠ 0)
    (flags : Flags) :
    (digits_text value base flags).length
      = min PRINTF_NTOA_BUFFER_SIZE (base.digits value).length := by
  rw [digits_text, if_pos (.inr hvalue), numeral_length,
      places_of_pos hbase (Nat.pos_of_ne_zero hvalue)]

/-- As many zeros as the directive asks for.  `hprec` is what the parser keeps: without a `.` the
    precision is 0. -/
theorem zeros_filled {c : UInt8} (hc : base_of c ≠ 10) {d : Directive}
    (hprec : d.flags.precision = false → d.precision = 0) {n : ℕ}
    (hn : n ≤ PRINTF_NTOA_BUFFER_SIZE) :
    zeros n false d.precision d.width (integer_flags d.flags c) + n = filled_digits d n := by
  obtain ⟨hleft, -, hzeropad, -⟩ := integer_flags_fields d.flags c
  unfold zeros filled_digits
  rw [field_width_marked hc, hleft, hzeropad]
  cases d.flags.left <;> cases hp : d.flags.precision <;> cases d.flags.zeropad <;>
    simp [hp, PRINTF_NTOA_BUFFER_SIZE] at hprec hn ⊢ <;> omega

/-- The fields are filled up from the digits and never beyond the buffer. -/
theorem filled_le {d : Directive} {n : ℕ} (hn : n ≤ PRINTF_NTOA_BUFFER_SIZE) :
    n ≤ filled_digits d n ∧ filled_digits d n ≤ PRINTF_NTOA_BUFFER_SIZE := by
  unfold filled_digits
  split_ifs <;> omega

/-- What is taken off when the digits fill the width. -/
theorem cut_eq {c : UInt8} {d : Directive} (hprec : d.flags.precision = false → d.precision = 0)
    {n : ℕ} (hn : 0 < n) (hfilled : n ≤ filled_digits d n) :
    cut (filled_digits d n) (base_of c) d.precision d.width (integer_flags d.flags c)
      = if Filled d n then min (filled_digits d n) (mark_room (base_of c)) else 0 := by
  unfold cut Filled
  rw [(integer_flags_fields d.flags c).2.1]
  congr 1
  rw [Bool.not_eq_true', eq_iff_iff]
  constructor
  · rintro ⟨hp, -, h | h⟩
    · have := hprec hp
      omega
    · exact ⟨hp, h⟩
  · rintro ⟨hp, h⟩
    exact ⟨hp, by omega, .inr h⟩

/-- In bases 8 and 16 every 64-bit number has room to spare in the buffer. -/
theorem pow_gt_of_octal_hex {base : ℕ} (h : base = 16 ∨ base = 8) {value : ℕ}
    (hvalue : value < 2 ^ 64) :
    value < base ^ PRINTF_NTOA_BUFFER_SIZE
      ∧ (base.digits value).length < PRINTF_NTOA_BUFFER_SIZE := by
  have h16 : (2 : ℕ) ^ 64 ≤ 16 ^ 31 ∧ (2 : ℕ) ^ 64 ≤ 8 ^ 31 := by decide
  have hlt : value < base ^ 31 := by
    rcases h with rfl | rfl <;> omega
  have hbase : 1 < base := by
    rcases h with rfl | rfl <;> decide
  refine ⟨lt_of_lt_of_le hlt (Nat.pow_le_pow_right (by omega) (by decide)), ?_⟩
  exact Nat.lt_succ_of_le ((Nat.digits_length_le_iff hbase _).mpr hlt)

/-- The digits behind the mark are read, whatever the base, if there is room for the mark.  `buf` is
    what the conversion has left of the digits when it puts the mark in front, so what is read may
    be less than the number. -/
theorem read_marked_eq {c : UInt8} (hc : base_of c ≠ 10) {d : Directive}
    (hhash : d.flags.hash = true) {v : UInt64} {value : ℕ} (hvalue : value ≠ 0)
    (hlt : value < 2 ^ 64) (hv : argument_value c d.flags v = value) {buf : List UInt8}
    (hbuf : buf = (zeros_text value false (base_of c) d.precision d.width
      (integer_flags d.flags c)).drop (cut (zeros_text value false (base_of c) d.precision d.width
        (integer_flags d.flags c)).length (base_of c) d.precision d.width
        (integer_flags d.flags c))) :
    read_marked (base_of c) (conversion_text c d v)
      = if base_of c = 8 ∨ buf.length + 2 ≤ PRINTF_NTOA_BUFFER_SIZE then read_digits (base_of c) buf
        else none := by
  have hunsigned : ∀ x ∈ buf, Unsigned x := by
    intro x hx
    rw [hbuf] at hx
    exact zeros_text_unsigned (base_of_gt_one c) (base_of_le c) _ _ _ _ _ x
      (List.mem_of_mem_drop hx)
  have hmark : ∀ x ∈ buf, ¬ Marks (base_of c) x := by
    intro x hx
    rw [hbuf] at hx
    exact zeros_text_no_mark (base_of_gt_one c) (List.mem_of_mem_drop hx)
  rw [conversion_text_marked hc hhash hvalue hv, ← hbuf]
  rcases base_of_marked hc with h | h | h
  · rw [read_marked_two (.inl h) _ hunsigned hmark]
    simp [h]
  · rw [h] at hbuf ⊢
    rw [if_pos (.inl rfl)]
    apply read_marked_octal _ hunsigned
    intro hfull
    -- a full buffer begins with a zero, and nothing has been taken off
    have hzlen := zeros_text_length_le value false 8 d.precision d.width (integer_flags d.flags c)
    have hshort := (pow_gt_of_octal_hex (.inr rfl : (8 : ℕ) = 16 ∨ 8 = 8) hlt).2
    have hdigits := digits_text_length (by decide : 1 < 8) hvalue (integer_flags d.flags c)
    have hlen := zeros_text_length value false 8 d.precision d.width (integer_flags d.flags c)
    rw [hbuf, List.length_drop] at hfull
    have hcut : cut (zeros_text value false 8 d.precision d.width (integer_flags d.flags c)).length
        8 d.precision d.width (integer_flags d.flags c) = 0 := by omega
    obtain ⟨k, hk⟩ := Nat.exists_eq_succ_of_ne_zero
      (show zeros (digits_text value 8 (integer_flags d.flags c)).length false d.precision d.width
        (integer_flags d.flags c) ≠ 0 by omega)
    rw [hbuf, hcut, List.drop_zero, zeros_text, hk]
    rfl
  · rw [read_marked_two (.inr h) _ hunsigned hmark]
    simp [h]

end Hippos.Libc.Printf
