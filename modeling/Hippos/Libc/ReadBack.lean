/-
  Hippos.Libc.ReadBack — integers read back from what `printf` writes.

  The buffer of a conversion holds 32 characters, and a zero in front of the digits counts as one.
  A long precision, a wide field of zeros or a long binary number takes the room of what is pushed
  later: of the sign, or of the first digits.  Here it is said exactly when the text that comes out
  still stands for the argument, and when it fills the field that was asked for.

  The text of a conversion is taken apart in the order in which the source pushes it: the digits and
  the zeros in front of them (`zeros_text`), the mark of the base, the sign, and the spaces of the
  field.  `read_integer` undoes these from the outside, so each part has one lemma on how it reads
  and one on how long it is.  The value of an argument with its sign is `argument_value`, and the
  one value whose negation is undefined is excluded by `Extreme`.

  Main results:
    * `read_integer_text` — what a text reads back as: the digits there is room for, and the minus
      if there is room for it.
    * `integer_read_back` — without `#`, a text stands for its argument exactly when the digits and
      the minus fit.
    * `integer_field` — how long a text is, when it fills its field, and when it has the digits that
      the precision asks for.
-/
import Hippos.Libc.Integer

namespace Hippos.Libc.Printf

open Hippos.Lib

variable {τ : Type}

/-! ## §1. Digits. -/

/-- In either case a digit character is the digit, up to the case.  There are 32 of them. -/
theorem lower_digit_char (uppercase : Bool) {d : ℕ} (h : d < 16) :
    lower (digit_char uppercase (UInt8.ofNat d)) = Lib.digit_char d := by
  have hall : ∀ uppercase : Bool, ∀ d < 16,
      lower (digit_char uppercase (UInt8.ofNat d)) = Lib.digit_char d := by decide
  exact hall uppercase d h

/-- No digit is a sign or a space, so a numeral is read to its end. -/
theorem digit_char_unsigned (uppercase : Bool) {d : ℕ} (h : d < 16) :
    Unsigned (digit_char uppercase (UInt8.ofNat d)) := by
  have hall : ∀ uppercase : Bool, ∀ d < 16,
      Unsigned (digit_char uppercase (UInt8.ofNat d)) := by decide
  exact hall uppercase d h

/-- A numeral consists of digits of its base. -/
theorem mem_numeral {base : ℕ} (hbase : 1 < base) {uppercase : Bool} {value : ℕ} {x : UInt8}
    (hx : x ∈ numeral uppercase base value) :
    ∃ d < base, x = digit_char uppercase (UInt8.ofNat d) := by
  rw [numeral, List.mem_reverse, List.mem_map] at hx
  obtain ⟨d, hd, rfl⟩ := hx
  exact ⟨d, places_lt hbase (List.mem_of_mem_take hd), rfl⟩

/-- The last `k` digits are the number modulo `base ^ k`: what a buffer cuts off is the front. -/
theorem read_places {base : ℕ} (hbase : 1 < base) (hmax : base ≤ 16) (uppercase : Bool)
    (value k : ℕ) :
    read_digits base
        (((places base value).take k).map fun d => digit_char uppercase (UInt8.ofNat d)).reverse
      = some (value % base ^ k) := by
  have hds : ∀ d ∈ (places base value).take k, d < base :=
    fun d hd => places_lt hbase (List.mem_of_mem_take hd)
  have hlower : ((places base value).take k).map
      (lower ∘ fun d => digit_char uppercase (UInt8.ofNat d))
        = ((places base value).take k).map Lib.digit_char := by
    apply List.map_congr_left
    intro d hd
    exact lower_digit_char uppercase (lt_of_lt_of_le (hds d hd) hmax)
  rw [read_digits, List.map_reverse, List.map_map, hlower,
      read_numeral_reverse (by omega) _ hds, ofDigits_take_places hbase]

/-- Zeros in front do not change the number, and an empty text, which is what 0 with a precision
    prints, reads as 0. -/
theorem read_zeros_text {base : ℕ} (hbase : 1 < base) (hmax : base ≤ 16) (value : ℕ)
    (negative : Bool) (prec width : ℕ) (flags : Flags) :
    read_digits base (zeros_text value negative base prec width flags)
      = some (value % base ^ PRINTF_NTOA_BUFFER_SIZE) := by
  unfold zeros_text
  dsimp only
  rw [read_digits_zeros (by omega)]
  unfold digits_text
  split_ifs with hdigits
  · exact read_places hbase hmax flags.uppercase value PRINTF_NTOA_BUFFER_SIZE
  · -- 0 with a precision: no digits are 0 too
    have hzero : value = 0 := by
      by_contra h
      exact hdigits (.inr h)
    rw [hzero, Nat.zero_mod]
    rfl

/-- Zeros and digits are digits. -/
theorem mem_zeros_text {base : ℕ} (hbase : 1 < base) {value : ℕ} {negative : Bool}
    {prec width : ℕ} {flags : Flags} {x : UInt8}
    (hx : x ∈ zeros_text value negative base prec width flags) :
    ∃ d < base, x = digit_char flags.uppercase (UInt8.ofNat d) := by
  rcases List.mem_append.mp hx with hzero | hdigit
  · refine ⟨0, by omega, ?_⟩
    rw [List.eq_of_mem_replicate hzero]
    rfl
  · unfold digits_text at hdigit
    split_ifs at hdigit
    · exact mem_numeral hbase hdigit
    · exact absurd hdigit List.not_mem_nil

/-- So there is no sign among them. -/
theorem zeros_text_unsigned {base : ℕ} (hbase : 1 < base) (hmax : base ≤ 16) (value : ℕ)
    (negative : Bool) (prec width : ℕ) (flags : Flags) :
    ∀ c ∈ zeros_text value negative base prec width flags, Unsigned c := by
  intro c hc
  obtain ⟨d, hd, rfl⟩ := mem_zeros_text hbase hc
  exact digit_char_unsigned flags.uppercase (lt_of_lt_of_le hd hmax)

/-! ## §2. How long a text is. -/

/-- A numeral has the length of its number in the base, or of the buffer. -/
theorem numeral_length (uppercase : Bool) (base value : ℕ) :
    (numeral uppercase base value).length
      = min PRINTF_NTOA_BUFFER_SIZE (places base value).length := by
  rw [numeral, List.length_reverse, List.length_map, List.length_take]

/-- The digits never take more than the buffer. -/
theorem digits_text_length_le (value base : ℕ) (flags : Flags) :
    (digits_text value base flags).length ≤ PRINTF_NTOA_BUFFER_SIZE := by
  unfold digits_text
  split_ifs
  · rw [numeral_length]
    exact Nat.min_le_left _ _
  · exact Nat.zero_le _

/-- The zeros of the precision and of the field come on top of the digits. -/
theorem zeros_text_length (value : ℕ) (negative : Bool) (base prec width : ℕ) (flags : Flags) :
    (zeros_text value negative base prec width flags).length
      = zeros (digits_text value base flags).length negative prec width flags
        + (digits_text value base flags).length := by
  rw [zeros_text, List.length_append, List.length_replicate]

/-- The loops that push zeros stop at the end of the buffer. -/
theorem zeros_text_length_le (value : ℕ) (negative : Bool) (base prec width : ℕ) (flags : Flags) :
    (zeros_text value negative base prec width flags).length ≤ PRINTF_NTOA_BUFFER_SIZE := by
  have hdigits := digits_text_length_le value base flags
  rw [zeros_text_length]
  unfold zeros
  split_ifs <;> omega

/-- Spaces fill a field on either side; with a zero flag and no minus flag no space is written. -/
theorem padded_length (text : List UInt8) (width : ℕ) (flags : Flags) :
    (padded text width flags).length
      = if flags.left ∨ flags.zeropad = false then max text.length width else text.length := by
  unfold padded
  cases flags.left with
  | true =>
    rw [Bool.not_true, Bool.false_and, if_neg Bool.false_ne_true, if_pos rfl, if_pos (.inl rfl),
        List.nil_append, List.length_append, List.length_replicate]
    omega
  | false =>
    rw [if_neg Bool.false_ne_true, List.append_nil, Bool.not_false, Bool.true_and]
    cases flags.zeropad with
    | true => rfl
    | false =>
      rw [Bool.not_false, if_pos rfl, if_pos (.inr rfl), List.length_append,
          List.length_replicate]
      omega

/-! ## §3. The sign. -/

/-- Spaces around a text do not change what it stands for. -/
theorem read_padded (base : ℕ) (text : List UInt8) (width : ℕ) (flags : Flags) :
    read_integer base (padded text width flags) = read_integer base text := by
  unfold padded
  split_ifs
  · rw [read_integer_spaces_end, read_integer_spaces_front]
  · rw [List.append_nil, read_integer_spaces_front]
  · rw [List.nil_append, read_integer_spaces_end]
  · rw [List.nil_append, List.append_nil]

/-- A sign in front is read, if it was pushed.  A minus that found no room changes the number to its
    absolute value; a plus or a space that found none changes nothing. -/
theorem read_top_letter (base : ℕ) {s : List UInt8} (hs : ∀ c ∈ s, Unsigned c) {n : ℕ}
    (hn : read_digits base s = some n) (negative : Bool) (flags : Flags) :
    read_integer base (top_letter (sign_char negative flags) s)
      = some (if negative ∧ s.length < PRINTF_NTOA_BUFFER_SIZE then -(n : ℤ) else n) := by
  have hplain : read_integer base s = some (n : ℤ) := by
    rw [read_integer_unsigned base hs, hn]
    rfl
  by_cases hroom : s.length < PRINTF_NTOA_BUFFER_SIZE
  · have htop : ∀ c : UInt8, top c s = c :: s := fun c => if_pos hroom
    -- with room for it the sign is the first character
    unfold top_letter sign_char
    cases negative with
    | true =>
      show read_integer base (top 0x2D s) = _
      rw [htop, read_integer_minus base hs, hn, if_pos ⟨rfl, hroom⟩]
      rfl
    | false =>
      rw [if_neg Bool.false_ne_true,
          if_neg (fun h => Bool.false_ne_true h.1 : ¬ (false = true ∧ _))]
      cases flags.plus with
      | true =>
        show read_integer base (top 0x2B s) = _
        rw [htop, read_integer_plus base hs, hn]
        rfl
      | false =>
        cases flags.space with
        | true =>
          show read_integer base (top 0x20 s) = _
          rw [htop, ← hplain]
          exact read_integer_spaces_front base 1 s
        | false => exact hplain
  · -- a full buffer has no room for the sign
    have htop : ∀ c : UInt8, top c s = s := fun c => if_neg hroom
    have hsame : top_letter (sign_char negative flags) s = s := by
      cases sign_char negative flags with
      | none => rfl
      | some c => exact htop c
    rw [hsame, hplain, if_neg fun h => hroom h.2]

/-- Without a mark the sign stands in front of the zeros. -/
theorem integer_buf_plain (value : ℕ) (negative : Bool) (base prec width : ℕ) {flags : Flags}
    (hhash : flags.hash = false) :
    integer_buf value negative base prec width flags
      = top_letter (sign_char negative flags)
          (zeros_text value negative base prec width flags) := by
  have hflags : (if value = 0 then { flags with hash := false } else flags) = flags := by
    rw [← hhash]
    exact ite_self flags
  unfold integer_buf
  dsimp only
  rw [hflags]
  unfold hash_text
  rw [hhash, if_neg Bool.false_ne_true]

/-- **What an integer reads back as.**  The digits there is room for, with the minus if there is
    room for it: a value is read back whole exactly when neither is cut off. -/
theorem read_integer_text {base : ℕ} (hbase : 1 < base) (hmax : base ≤ 16) (value : ℕ)
    (negative : Bool) (prec width : ℕ) {flags : Flags} (hhash : flags.hash = false) :
    read_integer base (integer_text value negative base prec width flags)
      = some (if negative
            ∧ (zeros_text value negative base prec width flags).length < PRINTF_NTOA_BUFFER_SIZE
          then -((value % base ^ PRINTF_NTOA_BUFFER_SIZE : ℕ) : ℤ)
          else (value % base ^ PRINTF_NTOA_BUFFER_SIZE : ℕ)) := by
  rw [integer_text, read_padded, integer_buf_plain value negative base prec width hhash]
  exact read_top_letter base (zeros_text_unsigned hbase hmax value negative prec width flags)
    (read_zeros_text hbase hmax value negative prec width flags) negative flags

/-! ## §4. Conversions without a mark. -/

/-- There is room for a minus in front of the zeros that a precision or a width asks for.  A minus
    flag switches both off, and a precision puts the zeros of the width out of force. -/
def SignFits (d : Directive) : Prop :=
  d.flags.left = true ∨ (d.precision < PRINTF_NTOA_BUFFER_SIZE
    ∧ (d.flags.precision = true ∨ d.flags.zeropad = false ∨ d.width ≤ PRINTF_NTOA_BUFFER_SIZE))

instance (d : Directive) : Decidable (SignFits d) := inferInstanceAs (Decidable (_ ∨ _))

/-- No conversion has a base above 16, so every digit has a character. -/
theorem base_of_le (c : UInt8) : base_of c ≤ 16 := by
  unfold base_of
  split_ifs <;> decide

/-- `%d` and `%i` are decimal. -/
theorem base_of_signed {c : UInt8} (hc : is_signed c = true) : base_of c = 10 := by
  rw [is_signed, Bool.or_eq_true, beq_iff_eq, beq_iff_eq] at hc
  rcases hc with rfl | rfl <;> rfl

/-- The flags as the integer conversions see them: a precision switches `0` off, and a decimal
    conversion has no mark. -/
theorem integer_flags_fields (flags : Flags) (c : UInt8) :
    (integer_flags flags c).left = flags.left
      ∧ (integer_flags flags c).precision = flags.precision
      ∧ (integer_flags flags c).zeropad = (!flags.precision && flags.zeropad)
      ∧ (integer_flags flags c).hash = (flags.hash && decide (base_of c ≠ 10)) := by
  unfold integer_flags
  dsimp only
  by_cases h10 : base_of c = 10 <;> cases hp : flags.precision <;> split_ifs <;> simp_all

/-- A negative value has few digits: 2^63 has 19, and only decimal conversions have negative
    values. -/
theorem negative_digits_length {value : ℕ} (hvalue : value ≤ 2 ^ 63) (flags : Flags) :
    (digits_text value 10 flags).length < PRINTF_NTOA_BUFFER_SIZE := by
  unfold digits_text
  split_ifs
  · rw [numeral_length]
    have hlen : (places 10 value).length < 32 := by
      rw [places, List.length_cons]
      have hlt : (Nat.digits 10 (value / 10)).length ≤ 19 := by
        -- 2^63 / 10 is below 10^19
        rw [Nat.digits_length_le_iff (by omega)]
        omega
      omega
    exact lt_of_le_of_lt (Nat.min_le_right _ _) hlen
  · decide

/-- The sign takes one from the width, if there is one to take. -/
theorem field_width_eq (negative : Bool) (width : ℕ) (flags : Flags) :
    field_width negative width flags
      = if !flags.left && (flags.zeropad && (negative || (flags.plus || flags.space)))
        then width - 1 else width := by
  unfold field_width
  cases flags.left <;> cases flags.zeropad <;> cases negative <;> cases flags.plus <;>
    cases flags.space <;> simp <;> omega

/-- The minus of a value of few digits is there exactly when the zeros leave room for it. -/
theorem sign_fits_iff {d : Directive} {c : UInt8} {value : ℕ}
    (hdigits : (digits_text value 10 (integer_flags d.flags c)).length
      < PRINTF_NTOA_BUFFER_SIZE) :
    (zeros_text value true 10 d.precision d.width (integer_flags d.flags c)).length
        < PRINTF_NTOA_BUFFER_SIZE ↔ SignFits d := by
  obtain ⟨hleft, -, hzeropad, -⟩ := integer_flags_fields d.flags c
  rw [zeros_text_length]
  unfold zeros SignFits
  rw [field_width_eq, hleft, hzeropad]
  generalize (digits_text value 10 (integer_flags d.flags c)).length = n at hdigits
  cases d.flags.left <;> cases d.flags.precision <;> cases d.flags.zeropad <;>
    simp [PRINTF_NTOA_BUFFER_SIZE] at hdigits ⊢ <;> omega

/-- **Integers read back.**  Without `#` and for any argument but the most negative of its type,
    what a conversion writes stands for the value of the argument, in the base of the conversion and
    among the spaces of the field, if and only if the value has at most 32 digits and its minus has
    room among the 32 characters. -/
theorem integer_read_back (c : UInt8) (d : Directive) (v : UInt64) (hhash : d.flags.hash = false)
    (hfit : ¬ Extreme c d.flags v) :
    ∃ text : List UInt8, (∀ (o : Target τ) (s : Sink τ),
        convert_integer o s c d v = .ok (text.foldl (put o) s))
      ∧ (read_integer (base_of c) text = some (argument_value c d.flags v) ↔
        (argument_value c d.flags v).natAbs < base_of c ^ PRINTF_NTOA_BUFFER_SIZE
          ∧ (argument_value c d.flags v < 0 → SignFits d)) := by
  refine ⟨conversion_text c d v, fun o s => ?_, ?_⟩
  · rw [convert_integer_eq, if_neg hfit]
  have hflags : (integer_flags d.flags c).hash = false := by
    rw [(integer_flags_fields d.flags c).2.2.2, hhash, Bool.false_and]
  rw [conversion_text, read_integer_text (base_of_gt_one c) (base_of_le c) _ _ _ _ hflags,
      Option.some.injEq]
  have hbounds := argument_value_bounds c d.flags v
  generalize hvalue : argument_value c d.flags v = value at *
  -- the digits are all there exactly when the value is below base^32
  have hmod : value.natAbs % base_of c ^ PRINTF_NTOA_BUFFER_SIZE = value.natAbs
      ↔ value.natAbs < base_of c ^ PRINTF_NTOA_BUFFER_SIZE := by
    refine ⟨fun h => ?_, Nat.mod_eq_of_lt⟩
    rw [← h]
    exact Nat.mod_lt _ (Nat.pow_pos (by have := base_of_gt_one c; omega))
  by_cases hneg : value < 0
  · -- only a signed conversion has negative values, and it is decimal
    have hc : is_signed c = true := by
      by_contra hc
      have := unsigned_value_nonneg (Bool.not_eq_true _ ▸ hc) d.flags v
      omega
    have h10 := base_of_signed hc
    rw [h10] at hmod ⊢
    have hlt : value.natAbs < 10 ^ PRINTF_NTOA_BUFFER_SIZE := by
      have : (2 : ℕ) ^ 63 < 10 ^ PRINTF_NTOA_BUFFER_SIZE := by decide
      omega
    rw [hmod.mpr hlt]
    have hiff := sign_fits_iff (d := d) (c := c)
      (negative_digits_length (by omega : value.natAbs ≤ 2 ^ 63) (integer_flags d.flags c))
    rw [decide_eq_true hneg]
    by_cases hfits : SignFits d
    · rw [if_pos ⟨rfl, hiff.mpr hfits⟩]
      constructor
      · exact fun _ => ⟨hlt, fun _ => hfits⟩
      · intro _
        omega
    · rw [if_neg fun h => hfits (hiff.mp h.2)]
      constructor
      · intro h
        omega
      · exact fun h => absurd (h.2 hneg) hfits
  · rw [decide_eq_false hneg, if_neg fun h => Bool.false_ne_true h.1, ← hmod]
    omega

/-- `printf("%d", -1)` reads back. -/
theorem integer_read_back_minus_one :
    ∃ text : List UInt8, (∀ (o : Target Unit) (s : Sink Unit),
        convert_integer o s 0x64 ⟨Flags.zero, 0, 0⟩ 0xFFFFFFFF = .ok (text.foldl (put o) s))
      ∧ read_integer 10 text = some (-1) := by
  obtain ⟨text, hwrites, hreads⟩ :=
    @integer_read_back Unit 0x64 ⟨Flags.zero, 0, 0⟩ 0xFFFFFFFF rfl (by decide)
  exact ⟨text, hwrites, hreads.mpr ⟨by decide, by decide⟩⟩

/-! ## §5. The field. -/

/-- A character is pushed unless the buffer is full, so a text grows by one or stays as it is. -/
theorem top_length (c : UInt8) (buf : List UInt8) :
    (top c buf).length = max buf.length (min (buf.length + 1) PRINTF_NTOA_BUFFER_SIZE) := by
  unfold top
  split_ifs with h
  · rw [List.length_cons]
    omega
  · omega

/-- Nothing is pushed past the end of the buffer. -/
theorem top_letter_length_le {c : Option UInt8} {buf : List UInt8}
    (h : buf.length ≤ PRINTF_NTOA_BUFFER_SIZE) :
    (top_letter c buf).length ≤ PRINTF_NTOA_BUFFER_SIZE := by
  cases c with
  | none => exact h
  | some c =>
    show (top c buf).length ≤ _
    rw [top_length]
    omega

/-- To make room for `0x` or `0b` one or two of the zeros are taken back, when they fill the field
    or the precision exactly. -/
theorem hash_room_length (buf : List UInt8) (base prec width : ℕ) (flags : Flags) :
    (hash_room buf base prec width flags).length ≤ buf.length
      ∧ buf.length ≤ (hash_room buf base prec width flags).length +
          (if base = 16 then 2 else 1) := by
  unfold hash_room
  split_ifs <;> (try rw [List.length_tail]) <;> (try rw [List.length_tail]) <;> omega

/-- The mark of the base takes at most the room it has made, so a text gets no shorter by it. -/
theorem hash_text_length {buf : List UInt8} (h : buf.length ≤ PRINTF_NTOA_BUFFER_SIZE)
    (base prec width : ℕ) (flags : Flags) :
    buf.length ≤ (hash_text buf base prec width flags).length
      ∧ (hash_text buf base prec width flags).length ≤ PRINTF_NTOA_BUFFER_SIZE := by
  unfold hash_text
  split_ifs
  · obtain ⟨hle, hge⟩ := hash_room_length buf base prec width flags
    rw [top_length]
    generalize hash_room buf base prec width flags = room at *
    have hletter := top_letter_length_le (c := base_letter base flags.uppercase) (hle.trans h)
    refine ⟨?_, by omega⟩
    by_cases h16 : base = 16
    · -- two characters, for two
      rw [if_pos h16] at hge
      have hlen : (top_letter (base_letter base flags.uppercase) room).length
          = max room.length (min (room.length + 1) PRINTF_NTOA_BUFFER_SIZE) := by
        rw [base_letter, if_pos h16]
        exact top_length _ _
      omega
    · rw [if_neg h16] at hge
      have hlen : room.length ≤ (top_letter (base_letter base flags.uppercase) room).length := by
        cases base_letter base flags.uppercase with
        | none => exact Nat.le_refl _
        | some c =>
          show room.length ≤ (top c room).length
          rw [top_length]
          omega
      omega
  -- no mark is asked for
  · exact ⟨Nat.le_refl _, h⟩

/-- The text before the field is at most a buffer long. -/
theorem integer_buf_length_le (value : ℕ) (negative : Bool) (base prec width : ℕ) (flags : Flags) :
    (integer_buf value negative base prec width flags).length ≤ PRINTF_NTOA_BUFFER_SIZE := by
  unfold integer_buf
  exact top_letter_length_le (hash_text_length (zeros_text_length_le _ _ _ _ _ _) _ _ _ _).2

/-- Zeros fill the field together with the sign, up to the length of the buffer.  The sign was taken
    off the width first, so it comes on top of the zeros. -/
theorem integer_buf_zeropad (value : ℕ) (negative : Bool) (base prec width : ℕ) {flags : Flags}
    (hleft : flags.left = false) (hzeropad : flags.zeropad = true) :
    min width PRINTF_NTOA_BUFFER_SIZE
      ≤ (integer_buf value negative base prec width flags).length := by
  unfold integer_buf
  dsimp only
  -- `hash` does not matter here
  have hflags : (if value = 0 then { flags with hash := false } else flags).left = false
      ∧ (if value = 0 then { flags with hash := false } else flags).zeropad = true := by
    split_ifs <;> exact ⟨hleft, hzeropad⟩
  generalize (if value = 0 then { flags with hash := false } else flags) = flags at hflags
  obtain ⟨hleft, hzeropad⟩ := hflags
  have hzeros : min (field_width negative width flags) PRINTF_NTOA_BUFFER_SIZE
      ≤ (zeros_text value negative base prec width flags).length := by
    rw [zeros_text_length]
    unfold zeros
    rw [hleft, hzeropad, if_neg Bool.false_ne_true, if_pos rfl]
    omega
  obtain ⟨hge, -⟩ := hash_text_length (zeros_text_length_le value negative base prec width flags)
    base prec (field_width negative width flags) flags
  generalize hash_text _ _ _ _ _ = buf at hge ⊢
  rw [field_width_eq, hleft, hzeropad] at hzeros
  unfold sign_char
  -- in the order of the source: a minus, a plus, a space, or nothing
  cases negative with
  | true =>
    show _ ≤ (top 0x2D buf).length
    rw [top_length]
    simp at hzeros
    omega
  | false =>
    cases hplus : flags.plus with
    | true =>
      show _ ≤ (top 0x2B buf).length
      rw [top_length]
      simp [hplus] at hzeros
      omega
    | false =>
      cases hspace : flags.space with
      | true =>
        show _ ≤ (top 0x20 buf).length
        rw [top_length]
        simp [hspace] at hzeros
        omega
      | false =>
        show _ ≤ buf.length
        simp [hplus, hspace] at hzeros
        omega

/-- How many characters of a text are digits of a base up to 16. -/
def digits_count (text : List UInt8) : ℕ :=
  (text.filter fun c => (digit_value (lower c)).any (· < 16)).length

/-- The spaces of a field are not digits. -/
theorem digits_count_padded (text : List UInt8) (width : ℕ) (flags : Flags) :
    digits_count (padded text width flags) = digits_count text := by
  have hspaces : ∀ k, (List.replicate k (0x20 : UInt8)).filter
      (fun c => (digit_value (lower c)).any (· < 16)) = [] := by
    intro k
    rw [List.filter_eq_nil_iff]
    intro c hc
    rw [List.eq_of_mem_replicate hc]
    decide
  unfold digits_count padded
  rw [List.filter_append, List.filter_append]
  split_ifs <;> simp only [hspaces, List.filter_nil, List.append_nil, List.nil_append]

/-- Zeros and digits all count. -/
theorem digits_count_zeros_text {base : ℕ} (hbase : 1 < base) (hmax : base ≤ 16) (value : ℕ)
    (negative : Bool) (prec width : ℕ) (flags : Flags) :
    digits_count (zeros_text value negative base prec width flags)
      = (zeros_text value negative base prec width flags).length := by
  rw [digits_count, List.filter_eq_self.mpr]
  intro c hc
  obtain ⟨d, hd, rfl⟩ := mem_zeros_text hbase hc
  rw [lower_digit_char _ (lt_of_lt_of_le hd hmax), digit_value_char (by omega)]
  exact decide_eq_true (lt_of_lt_of_le hd hmax)

/-- A number has `p` digits or more exactly when it is at least `base ^ (p - 1)`. -/
theorem le_places_length {base : ℕ} (hbase : 1 < base) {value : ℕ} (hvalue : value ≠ 0) (p : ℕ) :
    p ≤ (places base value).length ↔ p = 0 ∨ base ^ (p - 1) ≤ value := by
  rw [places_of_pos hbase (Nat.pos_of_ne_zero hvalue)]
  cases p with
  | zero => exact ⟨fun _ => .inl rfl, fun _ => Nat.zero_le _⟩
  | succ p =>
    rw [Nat.succ_le_iff, Nat.lt_digits_length_iff hbase]
    simp

/-- A text is never longer than its width or the buffer. -/
theorem conversion_text_length_le (c : UInt8) (d : Directive) (v : UInt64) :
    (conversion_text c d v).length ≤ max d.width PRINTF_NTOA_BUFFER_SIZE := by
  unfold conversion_text integer_text
  dsimp only
  have hbuf := integer_buf_length_le (argument_value c d.flags v).natAbs
    (decide (argument_value c d.flags v < 0)) (base_of c) d.precision d.width
    (integer_flags d.flags c)
  rw [padded_length]
  split_ifs <;> omega

/-- Spaces fill every field, zeros one of at most 32 characters. -/
theorem width_le_conversion_text (c : UInt8) (d : Directive) (v : UInt64) :
    d.width ≤ (conversion_text c d v).length ↔ d.flags.left = true ∨ d.flags.precision = true
      ∨ d.flags.zeropad = false ∨ d.width ≤ PRINTF_NTOA_BUFFER_SIZE := by
  obtain ⟨hleft, -, hzeropad, -⟩ := integer_flags_fields d.flags c
  unfold conversion_text integer_text
  dsimp only
  have hbuf := integer_buf_length_le (argument_value c d.flags v).natAbs
    (decide (argument_value c d.flags v < 0)) (base_of c) d.precision d.width
    (integer_flags d.flags c)
  rw [padded_length, hleft, hzeropad]
  -- spaces fill what is missing; zeros alone stop at the buffer
  by_cases hspaces : d.flags.left = true ∨ (!d.flags.precision && d.flags.zeropad) = false
  · rw [if_pos hspaces]
    refine ⟨fun _ => ?_, fun _ => Nat.le_max_right _ _⟩
    cases hp : d.flags.precision <;> simp [hp] at hspaces <;> tauto
  · rw [if_neg hspaces]
    rw [not_or, Bool.not_eq_true, Bool.not_eq_false, Bool.and_eq_true,
        Bool.not_eq_true'] at hspaces
    obtain ⟨hl, hp, hz⟩ := hspaces
    have hfill := integer_buf_zeropad (argument_value c d.flags v).natAbs
      (decide (argument_value c d.flags v < 0)) (base_of c) d.precision d.width
      (hleft.trans hl) (hzeropad.trans (by rw [hp, hz]; rfl))
    simp only [hl, hp, hz, Bool.false_eq_true, Bool.true_eq_false, false_or]
    omega

/-- A sign is not a digit. -/
theorem digits_count_sign (negative : Bool) (flags : Flags) (buf : List UInt8) :
    digits_count (top_letter (sign_char negative flags) buf) = digits_count buf := by
  have htop : ∀ c : UInt8, (digit_value (lower c)).any (· < 16) = false →
      digits_count (top c buf) = digits_count buf := by
    intro c hc
    unfold top digits_count
    split_ifs
    · rw [List.filter_cons_of_neg (by rw [hc]; exact Bool.false_ne_true)]
    · rfl
  unfold sign_char
  split_ifs
  · exact htop 0x2D (by decide)
  · exact htop 0x2B (by decide)
  · exact htop 0x20 (by decide)
  · rfl

/-- The digits that are asked for are there unless they are too many, or a minus flag has switched
    the zeros off and the number is too short. -/
theorem precision_le_digits_count (c : UInt8) (d : Directive) (v : UInt64)
    (hp : d.flags.precision = true) (hh : d.flags.hash = false) :
    d.precision ≤ digits_count (conversion_text c d v) ↔ d.precision ≤ PRINTF_NTOA_BUFFER_SIZE
      ∧ (d.flags.left = true → d.precision = 0
        ∨ base_of c ^ (d.precision - 1) ≤ (argument_value c d.flags v).natAbs) := by
  obtain ⟨hleft, hprec, hzeropad, hhash⟩ := integer_flags_fields d.flags c
  rw [hh, Bool.false_and] at hhash
  rw [hp] at hprec hzeropad
  unfold conversion_text integer_text
  dsimp only
  rw [digits_count_padded, integer_buf_plain _ _ _ _ _ hhash, digits_count_sign,
      digits_count_zeros_text (base_of_gt_one c) (base_of_le c), zeros_text_length]
  have hdigits := digits_text_length_le (argument_value c d.flags v).natAbs (base_of c)
    (integer_flags d.flags c)
  cases hl : d.flags.left with
  | false =>
    -- a precision puts zeropad out of force
    unfold zeros
    rw [hleft, hl, if_neg Bool.false_ne_true, hzeropad, Bool.not_true, Bool.false_and,
        if_neg Bool.false_ne_true]
    simp only [Bool.false_eq_true, false_implies, and_true]
    omega
  -- no zeros are pushed, so the number itself has to have the digits
  | true =>
    unfold zeros
    rw [hleft, hl, if_pos rfl, Nat.zero_add]
    unfold digits_text at hdigits ⊢
    rw [hprec]
    by_cases hvalue : (argument_value c d.flags v).natAbs = 0
    · -- no digits at all
      have hpow := Nat.pow_pos (n := d.precision - 1) (lt_trans Nat.one_pos (base_of_gt_one c))
      rw [hvalue, if_neg (by simp), List.length_nil]
      simp only [true_implies]
      omega
    · rw [if_pos (.inr hvalue), numeral_length, le_min_iff,
          le_places_length (base_of_gt_one c) hvalue]
      simp only [true_implies]

/-- **The field of an integer.**  For any argument but the most negative of its type, a text is
    never longer than its width or the buffer.  It is as long as the width unless zeros should fill
    more than the buffer.  Without `#` it has as many digits as the precision unless that is more
    than the buffer, or a minus flag has switched the zeros off. -/
theorem integer_field (c : UInt8) (d : Directive) (v : UInt64) (hfit : ¬ Extreme c d.flags v) :
    ∃ text : List UInt8, (∀ (o : Target τ) (s : Sink τ),
        convert_integer o s c d v = .ok (text.foldl (put o) s))
      ∧ text.length ≤ max d.width PRINTF_NTOA_BUFFER_SIZE
      ∧ (d.width ≤ text.length ↔ d.flags.left = true ∨ d.flags.precision = true
        ∨ d.flags.zeropad = false ∨ d.width ≤ PRINTF_NTOA_BUFFER_SIZE)
      ∧ (d.flags.precision = true → d.flags.hash = false →
        (d.precision ≤ digits_count text ↔ d.precision ≤ PRINTF_NTOA_BUFFER_SIZE
          ∧ (d.flags.left = true → d.precision = 0
            ∨ base_of c ^ (d.precision - 1) ≤ (argument_value c d.flags v).natAbs))) := by
  refine ⟨conversion_text c d v, fun o s => ?_, conversion_text_length_le c d v,
    width_le_conversion_text c d v, precision_le_digits_count c d v⟩
  rw [convert_integer_eq, if_neg hfit]

/-- `printf("%040d", 7)` does not fill its field: the zeros stop at the 32 characters of the
    buffer. -/
theorem integer_field_zeros :
    ∃ text : List UInt8, (∀ (o : Target Unit) (s : Sink Unit),
        convert_integer o s 0x64 ⟨{ Flags.zero with zeropad := true }, 40, 0⟩ 7
          = .ok (text.foldl (put o) s))
      ∧ text.length < 40 := by
  obtain ⟨text, hwrites, -, hwidth, -⟩ :=
    @integer_field Unit 0x64 ⟨{ Flags.zero with zeropad := true }, 40, 0⟩ 7 (by decide)
  exact ⟨text, hwrites, Nat.lt_of_not_le fun h => absurd (hwidth.mp h) (by decide)⟩

end Hippos.Libc.Printf
