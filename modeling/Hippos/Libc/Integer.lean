/-
  Hippos.Libc.Integer — what the integer conversions of `printf` write.

  A conversion fills a buffer of 32 characters from the last digit to the sign, and hands it on
  between spaces.  Every write to the buffer is guarded, so it never overflows; but what does not
  fit is left out, without a word to the caller.

  Each of the loops of `_ntoa` is replaced by the text it writes: `digit_loop` by the digits of the
  value cut to 32, `pad_zeros` by a number of zeros, `hash_base` and `put_sign` by guarded stores in
  front.  What remains is a closed form in which no error is left, `integer_text`, and it is this
  form that is read back as an integer later.  The value itself is taken from the argument as C
  takes it, at the width that the flags give; its negation is the one place where a conversion can
  fail.

  Main results:
    * `digit_loop_eq` — the digit loop writes the digits of the value, as many as fit.
    * `ntoa_eq` — `_ntoa` writes its text: no store leaves the buffer.
    * `convert_integer_eq` — a conversion writes its text, unless its value has no negation.
    * `convert_pointer_eq` — and so does `%p`.
-/
import Hippos.Lib.Fallible
import Hippos.Lib.Numeral
import Hippos.Libc.Printf

namespace Hippos.Libc.Printf

open Hippos.Lib

variable {τ F : Type}

/-! ## §1. Texts. -/

/-- Every character counts, whether the sink had room for it or not. -/
theorem idx_put (o : Target τ) (s : Sink τ) (c : UInt8) : (put o s c).idx = s.idx + 1 := rfl

/-- The index counts what is output. -/
theorem idx_foldl_put (o : Target τ) (text : List UInt8) :
    ∀ s, (text.foldl (put o) s).idx = s.idx + text.length := by
  induction text with
  | nil => intro s; rfl
  | cons c text ih =>
    intro s
    rw [List.foldl_cons, ih, idx_put, List.length_cons, Nat.add_assoc, Nat.add_comm 1]

/-- Padding is the output of that many spaces. -/
theorem put_spaces_eq (o : Target τ) (n : ℕ) :
    ∀ s, put_spaces o s n = (List.replicate n 0x20).foldl (put o) s := by
  induction n with
  | zero => intro s; rfl
  | succ n ih =>
    intro s
    rw [put_spaces, ih, List.replicate_succ, List.foldl_cons]

/-- A text in a field of `width`: spaces in front, unless they go behind it or zeros have taken
    their place. -/
def padded (text : List UInt8) (width : ℕ) (flags : Flags) : List UInt8 :=
  (if !flags.left && !flags.zeropad then List.replicate (width - text.length) 0x20 else [])
    ++ text ++ (if flags.left then List.replicate (width - text.length) 0x20 else [])

/-- **`_out_rev` writes the buffer between spaces.**  The spaces behind it are counted from the
    index at the start, which `idx_foldl_put` turns into the length of the text. -/
theorem out_rev_eq (o : Target τ) (s : Sink τ) (buf : List UInt8) (width : ℕ) (flags : Flags) :
    _out_rev o s buf width flags = (padded buf width flags).foldl (put o) s := by
  unfold _out_rev padded
  dsimp only
  cases flags.left with
  | true =>
    -- what is padded on the right is counted from the start
    rw [put_spaces_eq, Bool.not_true, Bool.false_and, if_neg Bool.false_ne_true, if_pos rfl,
        if_neg Bool.false_ne_true, if_pos rfl, idx_foldl_put, Nat.add_sub_cancel_left,
        List.nil_append, List.foldl_append]
  | false =>
    rw [if_neg Bool.false_ne_true, if_neg Bool.false_ne_true, List.append_nil, Bool.not_false,
        Bool.true_and]
    cases flags.zeropad with
    | true => rfl
    | false =>
      rw [Bool.not_false, if_pos rfl, if_pos rfl, put_spaces_eq, List.foldl_append]

/-! ## §2. The buffer. -/

/-- A guarded `buf[len++] = c`: a full buffer stays as it is. -/
def top (c : UInt8) (buf : List UInt8) : List UInt8 :=
  if buf.length < PRINTF_NTOA_BUFFER_SIZE then c :: buf else buf

/-- A push into a buffer with room left cannot fail. -/
theorem push_of_lt {buf : List UInt8} (c : UInt8) (h : buf.length < PRINTF_NTOA_BUFFER_SIZE) :
    push buf c = .ok (c :: buf) := if_pos h

/-- The digits of a value as characters, most significant first. -/
def numeral (uppercase : Bool) (base value : ℕ) : List UInt8 :=
  (((places base value).take PRINTF_NTOA_BUFFER_SIZE).map
    fun d => digit_char uppercase (UInt8.ofNat d)).reverse

/-- **The digits of a value**, as many as there is room for.  The loop is a `do … while`, so it
    writes a digit for 0 too; it stops when the value has come down to 0 or the buffer is full, and
    `take` is the second of these. -/
theorem digit_loop_eq {base : ℕ} (hbase : 1 < base) (uppercase : Bool) (rounds : ℕ) :
    ∀ (value : ℕ) (buf : List UInt8), buf.length + rounds = PRINTF_NTOA_BUFFER_SIZE →
      0 < rounds → digit_loop base uppercase rounds value buf
        = .ok ((((places base value).take rounds).map
            fun d => digit_char uppercase (UInt8.ofNat d)).reverse ++ buf) := by
  -- the rounds left are the room left, so the two exits are told apart by `rounds` alone
  induction rounds with
  | zero =>
    intro value buf _ hpos
    exact absurd hpos (Nat.lt_irrefl 0)
  | succ rounds ih =>
    intro value buf hroom _
    have hlt : buf.length < PRINTF_NTOA_BUFFER_SIZE := by omega
    rw [digit_loop, push_of_lt _ hlt]
    show (if value / base ≠ 0 ∧ (_ :: buf).length < PRINTF_NTOA_BUFFER_SIZE then _ else _) = _
    rw [List.length_cons]
    by_cases hmore : value / base ≠ 0 ∧ buf.length + 1 < PRINTF_NTOA_BUFFER_SIZE
    · -- another digit
      rw [if_pos hmore, ih _ _ (by rw [List.length_cons]; omega) (by omega),
          places_succ hbase hmore.1, List.take_succ_cons, List.map_cons, List.reverse_cons,
          List.append_assoc]
      rfl
    · rw [if_neg hmore]
      -- no more digits, or no more room
      have hlast : (places base value).take (rounds + 1) = [value % base] := by
        rw [places, List.take_succ_cons]
        congr 1
        by_cases hzero : value / base = 0
        · rw [hzero, Nat.digits_zero, List.take_nil]
        · have hrounds : rounds = 0 := by
            by_contra hne
            exact hmore ⟨hzero, by omega⟩
          rw [hrounds, List.take_zero]
      rw [hlast]
      rfl

/-- The zeros of a field: up to `count` characters in all, and never more than the buffer holds. -/
theorem pad_zeros_eq (count rounds : ℕ) :
    ∀ buf : List UInt8, PRINTF_NTOA_BUFFER_SIZE ≤ buf.length + rounds →
      pad_zeros count rounds buf
        = .ok (List.replicate (min count PRINTF_NTOA_BUFFER_SIZE - buf.length) 0x30 ++ buf) := by
  induction rounds with
  | zero =>
    intro buf hroom
    rw [pad_zeros, Nat.sub_eq_zero_of_le (by omega)]
    rfl
  | succ rounds ih =>
    intro buf hroom
    rw [pad_zeros]
    by_cases hmore : buf.length < count ∧ buf.length < PRINTF_NTOA_BUFFER_SIZE
    · rw [if_pos hmore, push_of_lt _ hmore.2]
      show pad_zeros count rounds (0x30 :: buf) = _
      have hcount : min count PRINTF_NTOA_BUFFER_SIZE - buf.length
          = min count PRINTF_NTOA_BUFFER_SIZE - (buf.length + 1) + 1 := by omega
      rw [ih _ (by rw [List.length_cons]; omega), List.length_cons, hcount, List.replicate_succ',
          List.append_assoc]
      rfl
    · rw [if_neg hmore, Nat.sub_eq_zero_of_le (by omega)]
      rfl

/-- The width that is left when zeros and a sign share it.  `_ntoa_format` lowers it by one only
    where zeros are to fill it. -/
def field_width (negative : Bool) (width : ℕ) (flags : Flags) : ℕ :=
  if !flags.left ∧ width ≠ 0 ∧ flags.zeropad ∧ (negative ∨ flags.plus ∨ flags.space) then width - 1
  else width

/-- How many zeros stand in front of `len` digits. -/
def zeros (len : ℕ) (negative : Bool) (prec width : ℕ) (flags : Flags) : ℕ :=
  if flags.left then 0
  else max (min prec PRINTF_NTOA_BUFFER_SIZE)
    (if flags.zeropad then min (field_width negative width flags) PRINTF_NTOA_BUFFER_SIZE else 0)
      - len

/-- Both zero loops at once.  The second one starts from what the first has left, so the number of
    zeros is a maximum and not a sum. -/
theorem leading_zeros_eq (buf : List UInt8) (negative : Bool) (prec width : ℕ) (flags : Flags) :
    leading_zeros buf negative prec width flags
      = .ok (List.replicate (zeros buf.length negative prec width flags) 0x30 ++ buf,
          field_width negative width flags) := by
  unfold leading_zeros zeros field_width
  cases flags.left with
  | true => simp
  | false =>
    simp only [Bool.not_false, if_true, true_and, Bool.false_eq_true, if_false]
    rw [pad_zeros_eq _ _ buf (Nat.le_add_left _ _), ok_bind, pad_zeros_eq _ _ _ (by omega), ok_bind,
        ← List.append_assoc, List.replicate_append_replicate, List.length_append,
        List.length_replicate]
    -- two runs of zeros in a row are one
    congr 4
    split_ifs <;> omega

/-- A store that is guarded by the length never fails; it is dropped when the buffer is full. -/
theorem push_guarded (c : UInt8) (buf : List UInt8) :
    (if buf.length < PRINTF_NTOA_BUFFER_SIZE then push buf c else .ok buf) = .ok (top c buf) := by
  unfold top push
  split_ifs <;> rfl

/-- The digits that are left when one or two make room for the base.  What is taken off is at the
    head of the list, so it is the first of the number's characters. -/
def hash_room (buf : List UInt8) (base prec width : ℕ) (flags : Flags) : List UInt8 :=
  if !flags.precision ∧ buf.length ≠ 0 ∧ (buf.length = prec ∨ buf.length = width) then
    if buf.tail.length ≠ 0 ∧ base = 16 then buf.tail.tail else buf.tail
  else buf

/-- The letter of a base: `x` or `X`, `b`, and none for base 8. -/
def base_letter (base : ℕ) (uppercase : Bool) : Option UInt8 :=
  if base = 16 then some (if uppercase then 0x58 else 0x78)
  else if base = 2 then some 0x62
  else none

/-- A letter in front, if there is one. -/
def top_letter (c : Option UInt8) (buf : List UInt8) : List UInt8 :=
  match c with
  | some c => top c buf
  | none => buf

/-- The digits behind the mark of their base, when `#` asks for one. -/
def hash_text (buf : List UInt8) (base prec width : ℕ) (flags : Flags) : List UInt8 :=
  if flags.hash then
    top 0x30 (top_letter (base_letter base flags.uppercase) (hash_room buf base prec width flags))
  else buf

/-- The letter goes in front when there is one. -/
theorem push_letter_eq (buf : List UInt8) (base : ℕ) (flags : Flags) :
    push_letter buf base flags = .ok (top_letter (base_letter base flags.uppercase) buf) := by
  unfold push_letter base_letter top_letter
  by_cases h16 : base = 16
  · cases flags.uppercase <;> simp [h16, push_guarded]
  · by_cases h2 : base = 2
    · simp [h2, push_guarded]
    · simp [h16, h2]

/-- **The mark of the base.**  It cannot fail: the digits it pops are there, and its two stores are
    guarded. -/
theorem hash_base_eq (buf : List UInt8) (base prec width : ℕ) (flags : Flags) :
    hash_base buf base prec width flags = .ok (hash_text buf base prec width flags) := by
  unfold hash_base hash_text
  cases flags.hash with
  | false => rfl
  | true =>
    rw [if_pos rfl, if_pos rfl]
    show (push_letter (hash_room buf base prec width flags) base flags >>= _) = _
    rw [push_letter_eq, ok_bind, push_guarded]

/-- The character of the sign: a minus for a negative value, else what the flags ask for. -/
def sign_char (negative : Bool) (flags : Flags) : Option UInt8 :=
  if negative then some 0x2D
  else if flags.plus then some 0x2B
  else if flags.space then some 0x20
  else none

/-- The sign goes in front when there is one. -/
theorem put_sign_eq (buf : List UInt8) (negative : Bool) (flags : Flags) :
    put_sign buf negative flags = .ok (top_letter (sign_char negative flags) buf) := by
  unfold put_sign sign_char
  cases negative with
  | true => exact push_guarded 0x2D buf
  | false =>
    cases flags.plus with
    | true => exact push_guarded 0x2B buf
    | false =>
      cases flags.space with
      | true => exact push_guarded 0x20 buf
      | false =>
        simp only [Bool.false_eq_true, if_false, ite_self]
        rfl

/-! ## §3. The text of an integer. -/

/-- The digits of a value, or nothing for 0 with a precision. -/
def digits_text (value base : ℕ) (flags : Flags) : List UInt8 :=
  if !flags.precision ∨ value ≠ 0 then numeral flags.uppercase base value else []

/-- The digits of the value in an empty buffer. -/
theorem write_digits_eq {base : ℕ} (hbase : 1 < base) (value : ℕ) (flags : Flags) :
    write_digits value base flags = .ok (digits_text value base flags) := by
  unfold write_digits digits_text numeral
  split_ifs
  · rw [digit_loop_eq hbase _ _ _ _ (Nat.zero_add _) (by decide), List.append_nil]
  · rfl

/-- The digits with the zeros in front. -/
def zeros_text (value : ℕ) (negative : Bool) (base prec width : ℕ) (flags : Flags) : List UInt8 :=
  let digits := digits_text value base flags
  List.replicate (zeros digits.length negative prec width flags) 0x30 ++ digits

/-- The buffer at the end: sign, base, zeros, digits. -/
def integer_buf (value : ℕ) (negative : Bool) (base prec width : ℕ) (flags : Flags) : List UInt8 :=
  let flags := if value = 0 then { flags with hash := false } else flags
  top_letter (sign_char negative flags)
    (hash_text (zeros_text value negative base prec width flags) base prec
      (field_width negative width flags) flags)

/-- **The text of an integer**: the buffer between its spaces. -/
def integer_text (value : ℕ) (negative : Bool) (base prec width : ℕ) (flags : Flags) :
    List UInt8 :=
  padded (integer_buf value negative base prec width flags) width flags

/-- When the width has given way to a sign, it is not used for padding. -/
theorem padded_field_width (buf : List UInt8) (negative : Bool) (width : ℕ) (flags : Flags) :
    padded buf (field_width negative width flags) flags = padded buf width flags := by
  unfold padded field_width
  cases flags.left <;> cases flags.zeropad <;> simp

/-- **An integer conversion writes its text**: the buffer never overflows, for any value, base from
    2 on, precision, width and flags.  The three parts of `_ntoa` are taken one after the other,
    each through its own equation. -/
theorem ntoa_eq {base : ℕ} (hbase : 1 < base) (o : Target τ) (s : Sink τ) (value : ℕ)
    (negative : Bool) (prec width : ℕ) (flags : Flags) :
    _ntoa o s value negative base prec width flags
      = .ok ((integer_text value negative base prec width flags).foldl (put o) s) := by
  unfold _ntoa integer_text integer_buf
  dsimp only
  -- the same flags on both sides, but for the padding, which does not look at `hash`
  have hpad : ∀ buf, padded buf width (if value = 0 then { flags with hash := false } else flags)
      = padded buf width flags := by
    intro buf
    split_ifs <;> rfl
  rw [← hpad]
  generalize (if value = 0 then { flags with hash := false } else flags) = flags
  rw [write_digits_eq hbase, ok_bind, _ntoa_format, leading_zeros_eq, ok_bind]
  dsimp only
  rw [hash_base_eq, ok_bind, put_sign_eq, ok_bind, out_rev_eq, padded_field_width]
  rfl

/-! ## §4. Integer conversions. -/

/-- The value a conversion prints, as C reads it from the argument: the low bits that the length
    modifier names, with or without a sign. -/
def argument_value (c : UInt8) (flags : Flags) (v : UInt64) : ℤ :=
  if is_signed c then
    if flags.long_long || flags.long then v.toInt64.toInt else int_value flags v
  else if flags.long_long || flags.long then v.toNat
  else (unsigned_int_value flags v).toNat

/-- How wide the type is that the value is negated in. -/
def argument_bits (flags : Flags) : ℕ := if flags.long_long || flags.long then 64 else 32

/-- The value has no negation in its type: it is the least one of a signed type. -/
def Extreme (c : UInt8) (flags : Flags) (v : UInt64) : Prop :=
  is_signed c = true ∧ argument_value c flags v = -2 ^ (argument_bits flags - 1)

instance (c : UInt8) (flags : Flags) (v : UInt64) : Decidable (Extreme c flags v) :=
  inferInstanceAs (Decidable (_ ∧ _))

/-- The magnitude of a value that has a negation.  `hlow` and `hhigh` say that it fits 64 bits,
    which the cast to an unsigned type then keeps. -/
theorem magnitude_eq {bits : ℕ} {value : ℤ} (hlow : -2 ^ 63 ≤ value) (hhigh : value < 2 ^ 63)
    (hneg : value ≠ -2 ^ (bits - 1)) :
    ∃ m, magnitude bits value = .ok m ∧ m.toNat = value.natAbs := by
  have hcast : ∀ x : ℤ, 0 ≤ x → x ≤ 2 ^ 63 → (UInt64.ofInt x).toNat = x.toNat := by
    intro x h0 h1
    rw [UInt64.ofInt, UInt64.toNat_ofNat']
    omega
  unfold magnitude negate
  by_cases hpos : value > 0
  · refine ⟨_, if_pos hpos, ?_⟩
    rw [hcast _ (by omega) (by omega)]
    omega
  · refine ⟨UInt64.ofInt (-value), ?_, ?_⟩
    · rw [if_neg hpos, if_neg hneg, ok_bind]
    · rw [hcast _ (by omega) (by omega)]
      omega

/-- The negation of the least value is undefined. -/
theorem magnitude_extreme {bits : ℕ} : magnitude bits (-2 ^ (bits - 1)) = .error .overflow := by
  unfold magnitude negate
  have hpos : (0 : ℤ) < 2 ^ (bits - 1) := by positivity
  rw [if_neg (by omega), if_pos rfl, error_bind]

/-- A value of type `int` or narrower, whatever the modifiers have cut it to. -/
theorem int_value_bounds (flags : Flags) (v : UInt64) :
    -2 ^ 31 ≤ int_value flags v ∧ int_value flags v < 2 ^ 31 := by
  have h8 := Int8.le_toInt v.toUInt8.toInt8
  have h8' := Int8.toInt_lt v.toUInt8.toInt8
  have h16 := Int16.le_toInt v.toUInt16.toInt16
  have h16' := Int16.toInt_lt v.toUInt16.toInt16
  have h32 := Int32.le_toInt v.toUInt32.toInt32
  have h32' := Int32.toInt_lt v.toUInt32.toInt32
  unfold int_value to_int
  split_ifs <;> omega

/-- Every base a conversion can have is at least 2, so dividing by it shortens a number. -/
theorem base_of_gt_one (c : UInt8) : 1 < base_of c := by
  unfold base_of
  split_ifs <;> decide

/-- The text of an integer conversion: value, base and flags as `_vsnprintf` passes them on. -/
def conversion_text (c : UInt8) (d : Directive) (v : UInt64) : List UInt8 :=
  let value := argument_value c d.flags v
  integer_text value.natAbs (value < 0) (base_of c) d.precision d.width (integer_flags d.flags c)

/-- The flags for the type of the argument are not touched. -/
theorem integer_flags_type (flags : Flags) (c : UInt8) :
    (integer_flags flags c).char = flags.char ∧ (integer_flags flags c).short = flags.short
      ∧ (integer_flags flags c).long = flags.long
      ∧ (integer_flags flags c).long_long = flags.long_long := by
  unfold integer_flags
  dsimp only
  split_ifs <;> exact ⟨rfl, rfl, rfl, rfl⟩

/-- The conversion as one call of `_ntoa`, whatever the type of the argument. -/
theorem convert_integer_ntoa (o : Target τ) (s : Sink τ) (c : UInt8) (d : Directive) (v : UInt64) :
    convert_integer o s c d v
      = (if is_signed c then magnitude (argument_bits d.flags) (argument_value c d.flags v)
          else .ok (UInt64.ofInt (argument_value c d.flags v))) >>= fun m =>
        _ntoa o s m.toNat (argument_value c d.flags v < 0) (base_of c) d.precision d.width
          (integer_flags d.flags c) := by
  obtain ⟨hchar, hshort, hlong, hll⟩ := integer_flags_type d.flags c
  have hint : int_value (integer_flags d.flags c) v = int_value d.flags v := by
    unfold int_value
    rw [hchar, hshort]
  have hunsigned : unsigned_int_value (integer_flags d.flags c) v
      = unsigned_int_value d.flags v := by
    unfold unsigned_int_value
    rw [hchar, hshort]
  unfold convert_integer argument_value argument_bits
  dsimp only
  rw [hlong, hll, hint, hunsigned]
  cases is_signed c with
  | true =>
    cases d.flags.long_long <;> cases d.flags.long <;> rfl
  | false =>
    -- an unsigned value is not negative, and fits
    have hcast : ∀ u : UInt64, UInt64.ofInt (u.toNat : ℤ) = u := by
      intro u
      have hlt := u.toNat_lt
      rw [← UInt64.toNat_inj, UInt64.ofInt, UInt64.toNat_ofNat']
      omega
    have hneg : ∀ u : UInt64, decide ((u.toNat : ℤ) < 0) = false := by
      intro u
      exact decide_eq_false (by omega)
    cases d.flags.long_long <;> cases d.flags.long <;>
      simp only [Bool.false_eq_true, if_false, Bool.or_false, Bool.or_true, Bool.or_self, if_true,
        hcast, hneg, ok_bind, _ntoa_long, _ntoa_long_long]

/-- A value fits 64 bits, with or without a sign. -/
theorem argument_value_bounds (c : UInt8) (flags : Flags) (v : UInt64) :
    -2 ^ 63 ≤ argument_value c flags v ∧ argument_value c flags v < 2 ^ 64 := by
  have hint := int_value_bounds flags v
  have h64 := Int64.le_toInt v.toInt64
  have h64' := Int64.toInt_lt v.toInt64
  have hu := v.toNat_lt
  have huu := (unsigned_int_value flags v).toNat_lt
  unfold argument_value
  split_ifs <;> omega

/-- A signed value is below the half of the unsigned range. -/
theorem signed_value_lt {c : UInt8} (hc : is_signed c = true) (flags : Flags) (v : UInt64) :
    argument_value c flags v < 2 ^ 63 := by
  have hint := int_value_bounds flags v
  have h64' := Int64.toInt_lt v.toInt64
  unfold argument_value
  rw [if_pos hc]
  split_ifs <;> omega

/-- An unsigned value is not negative. -/
theorem unsigned_value_nonneg {c : UInt8} (hc : is_signed c = false) (flags : Flags) (v : UInt64) :
    0 ≤ argument_value c flags v := by
  unfold argument_value
  rw [hc, if_neg Bool.false_ne_true]
  split_ifs <;> omega

/-- **An integer conversion writes its text**, but for the one value without a negation: there
    `-value` overflows in C.  Signed and unsigned conversions of every length modifier come to one
    call of `_ntoa`, so one equation does for all. -/
theorem convert_integer_eq (o : Target τ) (s : Sink τ) (c : UInt8) (d : Directive) (v : UInt64) :
    convert_integer o s c d v = if Extreme c d.flags v then .error .overflow
      else .ok ((conversion_text c d v).foldl (put o) s) := by
  have hntoa : ∀ m : UInt64, m.toNat = (argument_value c d.flags v).natAbs →
      _ntoa o s m.toNat (argument_value c d.flags v < 0) (base_of c) d.precision d.width
        (integer_flags d.flags c) = .ok ((conversion_text c d v).foldl (put o) s) := by
    intro m hm
    rw [hm, ntoa_eq (base_of_gt_one c)]
    rfl
  obtain ⟨hlow, hhigh⟩ := argument_value_bounds c d.flags v
  rw [convert_integer_ntoa]
  cases hc : is_signed c with
  | true =>
    rw [if_pos rfl]
    by_cases hex : argument_value c d.flags v = -2 ^ (argument_bits d.flags - 1)
    · rw [if_pos ⟨hc, hex⟩, hex, magnitude_extreme, error_bind]
    · obtain ⟨m, hm, hmabs⟩ := magnitude_eq hlow (signed_value_lt hc d.flags v) hex
      rw [if_neg fun h => hex h.2, hm, ok_bind, hntoa m hmabs]
  | false =>
    have h0 := unsigned_value_nonneg hc d.flags v
    have hnot : ¬ Extreme c d.flags v := fun h => Bool.noConfusion (hc.symm.trans h.1)
    rw [if_neg Bool.false_ne_true, ok_bind, if_neg hnot]
    apply hntoa
    rw [UInt64.ofInt, UInt64.toNat_ofNat']
    omega

/-- A pointer is an integer in base 16, with capital letters and zeros up to its width, which takes
    the place of the one in the format. -/
theorem convert_pointer_eq (o : Target τ) (s : Sink τ) (d : Directive) (v : UInt64) :
    convert_pointer o s d v
      = .ok ((integer_text v.toNat false 16 d.precision POINTER_WIDTH
          { d.flags with zeropad := true, uppercase := true }).foldl (put o) s) :=
  ntoa_eq (by decide) o s v.toNat false d.precision POINTER_WIDTH _

end Hippos.Libc.Printf
