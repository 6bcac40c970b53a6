/-
  Hippos.Libc.Printf — `printf` of the kernel's libc, `stdio/printf.c`.

  A C object is the list of its bytes: a format, a string argument, the buffer of a conversion.
  Reading or writing past its end is a fault, as is an argument that is not there, or a signed
  overflow.  The loops over the format recurse on the bytes that are left of it, the others on the
  rounds they take.  What floating point conversions write is a parameter.

  This module has the functions of the source in its order, under its names, and no results.  Output
  goes through `put`, which is `out(…, idx++, maxlen)` with one of the four output functions; what
  such a function can change is a `World`.  The conversions work on the buffer `buf`, which is kept
  from its last character down, so that `buf[len++] = c` is a `cons`.

  The modules over it:
    * `Integer` — the integer conversions, without their buffer.
    * `Render` — the text of a format, whatever it is written to.
    * `Format`, `Directive` — formats as a language.
    * `ReadBack`, `Marks` — numbers read back from what is printed.
-/
import Hippos.Lib.ByteMemory
import Mathlib.Algebra.Group.Int.Defs
import Mathlib.Data.Int.Notation

namespace Hippos.Libc.Printf

open Hippos.Lib

/-! ## §1. Outputs. -/

/-- Where C leaves the behaviour undefined. -/
inductive Fault where
  /-- The format is read past its end. -/
  | format
  /-- There is no argument of the type that is asked for. -/
  | argument
  /-- A string argument is read past its end. -/
  | string
  /-- A signed negation overflows. -/
  | overflow
  /-- The buffer of a conversion is written past its end. -/
  | buffer
  /-- The main loop needs more rounds. -/
  | rounds
  deriving Repr, DecidableEq

/-- What an output function can change: memory, and whatever `putchar` or the function passed to
    `fctprintf` changes. -/
structure World (τ : Type) where
  memory : Memory
  console : τ

/-- The output functions. -/
inductive OutFct where
  | _out_buffer
  | _out_null
  | _out_char
  | _out_fct
  deriving Repr, DecidableEq

/-- `out`, `buffer` and `maxlen`, which a call of `_vsnprintf` passes on unchanged.  `fct` is what
    `_out_char` and `_out_fct` call. -/
structure Target (τ : Type) where
  out : OutFct
  buffer : ℕ
  maxlen : ℕ
  fct : τ → UInt8 → τ

/-- `idx`, and what was output so far. -/
structure Sink (τ : Type) where
  idx : ℕ
  world : World τ

variable {τ F : Type}

/-- `_out_buffer`: a character that does not fit is dropped. -/
def _out_buffer (character : UInt8) (buffer idx maxlen : ℕ) (w : World τ) : World τ :=
  if idx < maxlen then { w with memory := w.memory.store (buffer + idx) character } else w

/-- `_out_char` and `_out_fct`: no NUL is handed on. -/
def hand_on (fct : τ → UInt8 → τ) (character : UInt8) (w : World τ) : World τ :=
  if character ≠ 0 then { w with console := fct w.console character } else w

/-- `out(character, buffer, idx, maxlen)`. -/
def Target.call (o : Target τ) (character : UInt8) (idx : ℕ) (w : World τ) : World τ :=
  match o.out with
  | ._out_buffer => _out_buffer character o.buffer idx o.maxlen w
  | ._out_null => w
  | ._out_char => hand_on o.fct character w
  | ._out_fct => hand_on o.fct character w

/-- `out(character, buffer, idx++, maxlen)`: the index counts characters that are dropped, too. -/
def put (o : Target τ) (s : Sink τ) (character : UInt8) : Sink τ where
  idx := s.idx + 1
  world := o.call character s.idx s.world

/-- So many spaces. -/
def put_spaces (o : Target τ) (s : Sink τ) : (rounds : ℕ) → Sink τ
  | 0 => s
  | rounds + 1 => put_spaces o (put o s 0x20) rounds

/-! ## §2. Integers. -/

/-- The bits `FLAGS_…` of `flags`. -/
structure Flags where
  zeropad : Bool
  left : Bool
  plus : Bool
  space : Bool
  hash : Bool
  uppercase : Bool
  char : Bool
  short : Bool
  long : Bool
  long_long : Bool
  precision : Bool
  adapt_exp : Bool
  deriving Repr, DecidableEq

/-- `0U`. -/
def Flags.zero : Flags :=
  ⟨false, false, false, false, false, false, false, false, false, false, false, false⟩

/-- The length of the buffer of an integer conversion. -/
def PRINTF_NTOA_BUFFER_SIZE : ℕ := 32

/-- `buf[len++] = c`.  The buffer is kept from its last character down, so `len` is its length, and
    a write past it is a fault. -/
def push (buf : List UInt8) (c : UInt8) : Except Fault (List UInt8) :=
  if buf.length < PRINTF_NTOA_BUFFER_SIZE then .ok (c :: buf) else .error .buffer

/-- `_out_rev`: `while (len) out(buf[--len], …)` between the padding.  In front there are spaces
    only without a minus flag and without zeros. -/
def _out_rev (o : Target τ) (s : Sink τ) (buf : List UInt8) (width : ℕ) (flags : Flags) : Sink τ :=
  let start_idx := s.idx
  let s := if !flags.left && !flags.zeropad then put_spaces o s (width - buf.length) else s
  let s := buf.foldl (put o) s
  if flags.left then put_spaces o s (width - (s.idx - start_idx)) else s

/-- `while ((len < count) && (len < PRINTF_NTOA_BUFFER_SIZE)) buf[len++] = '0';` -/
def pad_zeros (count : ℕ) : (rounds : ℕ) → (buf : List UInt8) → Except Fault (List UInt8)
  | 0, buf => .ok buf
  | rounds + 1, buf =>
    if buf.length < count ∧ buf.length < PRINTF_NTOA_BUFFER_SIZE then do
      let buf ← push buf 0x30
      pad_zeros count rounds buf
    else .ok buf

/-- "pad leading zeros", with the width that is left for them. -/
def leading_zeros (buf : List UInt8) (negative : Bool) (prec width : ℕ) (flags : Flags) :
    Except Fault (List UInt8 × ℕ) :=
  if !flags.left then do
    -- the sign takes one place of the field
    let width :=
      if width ≠ 0 ∧ flags.zeropad ∧ (negative ∨ flags.plus ∨ flags.space) then width - 1
      else width
    let buf ← pad_zeros prec PRINTF_NTOA_BUFFER_SIZE buf
    let buf ← pad_zeros (if flags.zeropad then width else 0) PRINTF_NTOA_BUFFER_SIZE buf
    .ok (buf, width)
  else .ok (buf, width)

/-- The letter of the base, if there is room for it. -/
def push_letter (buf : List UInt8) (base : ℕ) (flags : Flags) : Except Fault (List UInt8) :=
  if base = 16 ∧ !flags.uppercase ∧ buf.length < PRINTF_NTOA_BUFFER_SIZE then push buf 0x78
  else if base = 16 ∧ flags.uppercase ∧ buf.length < PRINTF_NTOA_BUFFER_SIZE then push buf 0x58
  else if base = 2 ∧ buf.length < PRINTF_NTOA_BUFFER_SIZE then push buf 0x62
  else .ok buf

/-- "handle hash": one or two characters make room for the base. -/
def hash_base (buf : List UInt8) (base prec width : ℕ) (flags : Flags) :
    Except Fault (List UInt8) :=
  if flags.hash then do
    -- zeros have filled the field or the precision, and give way
    let buf :=
      if !flags.precision ∧ buf.length ≠ 0 ∧ (buf.length = prec ∨ buf.length = width) then
        if buf.tail.length ≠ 0 ∧ base = 16 then buf.tail.tail else buf.tail
      else buf
    let buf ← push_letter buf base flags
    if buf.length < PRINTF_NTOA_BUFFER_SIZE then push buf 0x30 else .ok buf
  else .ok buf

/-- The sign: "ignore the space if the '+' exists". -/
def put_sign (buf : List UInt8) (negative : Bool) (flags : Flags) : Except Fault (List UInt8) :=
  if buf.length < PRINTF_NTOA_BUFFER_SIZE then
    if negative then push buf 0x2D
    else if flags.plus then push buf 0x2B
    else if flags.space then push buf 0x20
    else .ok buf
  else .ok buf

/-- `_ntoa_format`: zeros, the mark of the base, the sign, and out in reverse. -/
def _ntoa_format (o : Target τ) (s : Sink τ) (buf : List UInt8) (negative : Bool)
    (base prec width : ℕ) (flags : Flags) : Except Fault (Sink τ) := do
  let (buf, width) ← leading_zeros buf negative prec width flags
  let buf ← hash_base buf base prec width flags
  let buf ← put_sign buf negative flags
  .ok (_out_rev o s buf width flags)

/-- `digit < 10 ? '0' + digit : (flags & FLAGS_UPPERCASE ? 'A' : 'a') + digit - 10`. -/
def digit_char (uppercase : Bool) (digit : UInt8) : UInt8 :=
  if digit < 10 then 0x30 + digit else (if uppercase then 0x41 else 0x61) + digit - 10

/-- `do { … } while (value && (len < PRINTF_NTOA_BUFFER_SIZE))`.  Running out of rounds cannot
    happen, as each pushes a character. -/
def digit_loop (base : ℕ) (uppercase : Bool) :
    (rounds value : ℕ) → (buf : List UInt8) → Except Fault (List UInt8)
  | 0, _, _ => .error .buffer
  | rounds + 1, value, buf => do
    let buf ← push buf (digit_char uppercase (UInt8.ofNat (value % base)))
    if value / base ≠ 0 ∧ buf.length < PRINTF_NTOA_BUFFER_SIZE then
      digit_loop base uppercase rounds (value / base) buf
    else .ok buf

/-- "write if precision != 0 and value is != 0". -/
def write_digits (value base : ℕ) (flags : Flags) : Except Fault (List UInt8) :=
  if !flags.precision ∨ value ≠ 0 then
    digit_loop base flags.uppercase PRINTF_NTOA_BUFFER_SIZE value []
  else .ok []

/-- `_ntoa_long` and `_ntoa_long_long`, which differ in the type of `value` and `base`.  There is no
    mark for 0. -/
def _ntoa (o : Target τ) (s : Sink τ) (value : ℕ) (negative : Bool) (base prec width : ℕ)
    (flags : Flags) : Except Fault (Sink τ) := do
  let flags := if value = 0 then { flags with hash := false } else flags
  let buf ← write_digits value base flags
  _ntoa_format o s buf negative base prec width flags

/-- `_ntoa_long`: `unsigned long` has 64 bits. -/
def _ntoa_long (o : Target τ) (s : Sink τ) (value : UInt64) (negative : Bool)
    (base prec width : ℕ) (flags : Flags) : Except Fault (Sink τ) :=
  _ntoa o s value.toNat negative base prec width flags

/-- `_ntoa_long_long`: so has `unsigned long long`. -/
def _ntoa_long_long (o : Target τ) (s : Sink τ) (value : UInt64) (negative : Bool)
    (base prec width : ℕ) (flags : Flags) : Except Fault (Sink τ) :=
  _ntoa o s value.toNat negative base prec width flags

/-! ## §3. Arguments. -/

/-- An argument of a call: a word of the x86_64 calling convention, whose low half a `va_arg` of
    `int` reads, a pointer to a string, or a `double`. -/
inductive VaArg (F : Type) where
  | word (v : UInt64)
  | string (s : List UInt8)
  | double (d : F)
  deriving Repr, DecidableEq

/-- `va_arg` of an integer or a `void*`. -/
def va_word : List (VaArg F) → Except Fault (UInt64 × List (VaArg F))
  | .word v :: va => .ok (v, va)
  | _ => .error .argument

/-- `va_arg(va, char*)`. -/
def va_string : List (VaArg F) → Except Fault (List UInt8 × List (VaArg F))
  | .string s :: va => .ok (s, va)
  | _ => .error .argument

/-- `va_arg(va, double)`. -/
def va_double : List (VaArg F) → Except Fault (F × List (VaArg F))
  | .double d :: va => .ok (d, va)
  | _ => .error .argument

/-- The `int` in an argument word. -/
def to_int (v : UInt64) : ℤ := v.toUInt32.toInt32.toInt

/-- `0 - value` and `-value`, in a type of `bits` bits. -/
def negate (bits : ℕ) (value : ℤ) : Except Fault ℤ :=
  if value = -2 ^ (bits - 1) then .error .overflow else .ok (-value)

/-! ## §4. The fields of a directive. -/

/-- `*format`. -/
def peek : List UInt8 → Except Fault UInt8
  | [] => .error .format
  | c :: _ => .ok c

/-- `_is_digit`. -/
def _is_digit (ch : UInt8) : Bool := 0x30 ≤ ch && ch ≤ 0x39

/-- `_atoi`, with `i` so far, an `unsigned int`. -/
def _atoi : (str : List UInt8) → (i : ℕ) → Except Fault (ℕ × List UInt8)
  | [], _ => .error .format
  | c :: str, i =>
    if _is_digit c then _atoi str ((i * 10 + (c - 0x30).toNat) % 2 ^ 32) else .ok (i, c :: str)

/-- The flag a character of the format sets. -/
def flag_char (flags : Flags) (c : UInt8) : Option Flags :=
  if c = 0x30 then some { flags with zeropad := true }
  else if c = 0x2D then some { flags with left := true }
  else if c = 0x2B then some { flags with plus := true }
  else if c = 0x20 then some { flags with space := true }
  else if c = 0x23 then some { flags with hash := true }
  else none

/-- "evaluate flags". -/
def flags_field : (format : List UInt8) → Flags → Except Fault (Flags × List UInt8)
  | [], _ => .error .format
  | c :: format, flags =>
    match flag_char flags c with
    | some flags => flags_field format flags
    | none => .ok (flags, c :: format)

/-- What is read of a directive before its last character. -/
structure Directive where
  flags : Flags
  width : ℕ
  precision : ℕ
  deriving Repr, DecidableEq

/-- "evaluate width field": a negative argument is a minus flag and a width. -/
def width_field (format : List UInt8) (va : List (VaArg F)) (flags : Flags) :
    Except Fault (Flags × ℕ × List UInt8 × List (VaArg F)) := do
  let c ← peek format
  if _is_digit c then do
    let (width, format) ← _atoi format 0
    .ok (flags, width, format, va)
  else if c = 0x2A then do
    let (v, va) ← va_word va
    let w := to_int v
    if w < 0 then do
      let w ← negate 32 w
      .ok ({ flags with left := true }, w.toNat, format.tail, va)
    else .ok (flags, w.toNat, format.tail, va)
  else .ok (flags, 0, format, va)

/-- "evaluate precision field": a negative argument counts as 0. -/
def precision_field (format : List UInt8) (va : List (VaArg F)) (flags : Flags) :
    Except Fault (Flags × ℕ × List UInt8 × List (VaArg F)) := do
  let c ← peek format
  if c = 0x2E then do
    let flags := { flags with precision := true }
    let format := format.tail
    let c ← peek format
    if _is_digit c then do
      let (precision, format) ← _atoi format 0
      .ok (flags, precision, format, va)
    else if c = 0x2A then do
      let (v, va) ← va_word va
      let prec := to_int v
      .ok (flags, if prec > 0 then prec.toNat else 0, format.tail, va)
    else .ok (flags, 0, format, va)
  else .ok (flags, 0, format, va)

/-- "evaluate length field".  On x86_64 `ptrdiff_t`, `intmax_t` and `size_t` are as wide as
    `long`. -/
def length_field (format : List UInt8) (flags : Flags) : Except Fault (Flags × List UInt8) := do
  let c ← peek format
  if c = 0x6C then do
    let flags := { flags with long := true }
    let format := format.tail
    let c ← peek format
    if c = 0x6C then .ok ({ flags with long_long := true }, format.tail) else .ok (flags, format)
  else if c = 0x68 then do
    let flags := { flags with short := true }
    let format := format.tail
    let c ← peek format
    if c = 0x68 then .ok ({ flags with char := true }, format.tail) else .ok (flags, format)
  else if c = 0x74 ∨ c = 0x6A ∨ c = 0x7A then .ok ({ flags with long := true }, format.tail)
  else .ok (flags, format)

/-- The four fields, in their order: what stands between `%` and the conversion. -/
def directive (format : List UInt8) (va : List (VaArg F)) :
    Except Fault (Directive × List UInt8 × List (VaArg F)) := do
  let (flags, format) ← flags_field format Flags.zero
  let (flags, width, format, va) ← width_field format va flags
  let (flags, precision, format, va) ← precision_field format va flags
  let (flags, format) ← length_field format flags
  .ok (⟨flags, width, precision⟩, format, va)

/-! ## §5. The conversions. -/

/-- What `_ftoa` and `_etoa` write for a value, a precision, a width and flags.  Nothing is assumed
    of it. -/
structure FloatFormat (F : Type) where
  _ftoa : F → (prec width : ℕ) → Flags → List UInt8
  _etoa : F → (prec width : ℕ) → Flags → List UInt8

/-- The base of an integer conversion. -/
def base_of (c : UInt8) : ℕ :=
  if c = 0x78 ∨ c = 0x58 then 16 else if c = 0x6F then 8 else if c = 0x62 then 2 else 10

/-- `'d'` and `'i'`. -/
def is_signed (c : UInt8) : Bool := c == 0x64 || c == 0x69

/-- The flags an integer conversion goes on with: decimal has no mark, unsigned no plus or space,
    and a precision puts zeros out of force. -/
def integer_flags (flags : Flags) (c : UInt8) : Flags :=
  let flags := if base_of c = 10 then { flags with hash := false } else flags
  let flags := if c = 0x58 then { flags with uppercase := true } else flags
  let flags := if is_signed c then flags else { flags with plus := false, space := false }
  if flags.precision then { flags with zeropad := false } else flags

/-- The value of a signed conversion that is not `long`. -/
def int_value (flags : Flags) (v : UInt64) : ℤ :=
  if flags.char then v.toUInt8.toInt8.toInt
  else if flags.short then v.toUInt16.toInt16.toInt
  else to_int v

/-- The same for an unsigned one. -/
def unsigned_int_value (flags : Flags) (v : UInt64) : UInt64 :=
  if flags.char then v.toUInt8.toUInt64
  else if flags.short then v.toUInt16.toUInt64
  else v.toUInt32.toUInt64

/-- `value > 0 ? value : 0 - value`, as an unsigned number; undefined for the most negative
    value. -/
def magnitude (bits : ℕ) (value : ℤ) : Except Fault UInt64 :=
  if value > 0 then .ok (UInt64.ofInt value)
  else do
    let value ← negate bits value
    .ok (UInt64.ofInt value)

/-- "convert the integer": signed or not, and by the length that was given. -/
def convert_integer (o : Target τ) (s : Sink τ) (c : UInt8) (d : Directive) (v : UInt64) :
    Except Fault (Sink τ) :=
  let base := base_of c
  let flags := integer_flags d.flags c
  if is_signed c then
    if flags.long_long then do
      let value := v.toInt64.toInt
      let m ← magnitude 64 value
      _ntoa_long_long o s m (value < 0) base d.precision d.width flags
    else if flags.long then do
      let value := v.toInt64.toInt
      let m ← magnitude 64 value
      _ntoa_long o s m (value < 0) base d.precision d.width flags
    else do
      let value := int_value flags v
      let m ← magnitude 32 value
      _ntoa_long o s m (value < 0) base d.precision d.width flags
  else if flags.long_long then _ntoa_long_long o s v false base d.precision d.width flags
  else if flags.long then _ntoa_long o s v false base d.precision d.width flags
  else _ntoa_long o s (unsigned_int_value flags v) false base d.precision d.width flags

/-- `%c`: `while (l++ < width)` runs from 1. -/
def convert_char (o : Target τ) (s : Sink τ) (d : Directive) (v : UInt64) : Sink τ :=
  let s := if !d.flags.left then put_spaces o s (d.width - 1) else s
  let s := put o s v.toUInt8
  if d.flags.left then put_spaces o s (d.width - 1) else s

/-- `_strnlen_s`, the count up to 2^64 as an `unsigned int`. -/
def strnlen_loop : (str : List UInt8) → (maxsize : ℕ) → Except Fault ℕ
  | [], _ => .error .string
  | c :: str, maxsize =>
    if c ≠ 0 ∧ maxsize ≠ 0 then do
      let n ← strnlen_loop str (maxsize - 1)
      .ok (n + 1)
    else .ok 0

/-- `_strnlen_s`, the count up to 2^64 as an `unsigned int`. -/
def _strnlen_s (str : List UInt8) (maxsize : ℕ) : Except Fault ℕ := do
  let n ← strnlen_loop str maxsize
  .ok (n % 2 ^ 32)

/-- `while ((*p != 0) && (!(flags & FLAGS_PRECISION) || precision--))`. -/
def put_string (o : Target τ) (limited : Bool) :
    (p : List UInt8) → (precision : ℕ) → Sink τ → Except Fault (Sink τ)
  | [], _, _ => .error .string
  | c :: p, precision, s =>
    if c ≠ 0 ∧ (!limited ∨ precision ≠ 0) then put_string o limited p (precision - 1) (put o s c)
    else .ok s

/-- `(size_t)-1`. -/
def SIZE_MAX : ℕ := 2 ^ 64 - 1

/-- `%s`: the length is counted first, for the padding in front. -/
def convert_string (o : Target τ) (s : Sink τ) (d : Directive) (p : List UInt8) :
    Except Fault (Sink τ) := do
  -- a precision of 0 does not limit the count
  let l ← _strnlen_s p (if d.precision ≠ 0 then d.precision else SIZE_MAX)
  let l := if d.flags.precision then (if l < d.precision then l else d.precision) else l
  let s := if !d.flags.left then put_spaces o s (d.width - l) else s
  let s ← put_string o d.flags.precision p d.precision s
  .ok (if d.flags.left then put_spaces o s (d.width - l) else s)

/-- `sizeof(void*) * 2U`. -/
def POINTER_WIDTH : ℕ := 16

/-- `%p`: 16 digits in upper case. -/
def convert_pointer (o : Target τ) (s : Sink τ) (d : Directive) (v : UInt64) :
    Except Fault (Sink τ) :=
  _ntoa_long_long o s v false 16 d.precision POINTER_WIDTH
    { d.flags with zeropad := true, uppercase := true }

/-- The flags of `%f` and `%F`. -/
def fixed_flags (flags : Flags) (c : UInt8) : Flags :=
  if c = 0x46 then { flags with uppercase := true } else flags

/-- The flags of `%e`, `%E`, `%g` and `%G`. -/
def exponent_flags (flags : Flags) (c : UInt8) : Flags :=
  let flags := if c = 0x67 ∨ c = 0x47 then { flags with adapt_exp := true } else flags
  if c = 0x45 ∨ c = 0x47 then { flags with uppercase := true } else flags

/-- "evaluate specifier", for the character `c`; any other character is printed as it is. -/
def specifier (fp : FloatFormat F) (o : Target τ) (s : Sink τ) (c : UInt8) (d : Directive)
    (va : List (VaArg F)) : Except Fault (Sink τ × List (VaArg F)) :=
  if c = 0x64 ∨ c = 0x69 ∨ c = 0x75 ∨ c = 0x78 ∨ c = 0x58 ∨ c = 0x6F ∨ c = 0x62 then do
    let (v, va) ← va_word va
    let s ← convert_integer o s c d v
    .ok (s, va)
  else if c = 0x66 ∨ c = 0x46 then do
    let (v, va) ← va_double va
    .ok ((fp._ftoa v d.precision d.width (fixed_flags d.flags c)).foldl (put o) s, va)
  else if c = 0x65 ∨ c = 0x45 ∨ c = 0x67 ∨ c = 0x47 then do
    let (v, va) ← va_double va
    .ok ((fp._etoa v d.precision d.width (exponent_flags d.flags c)).foldl (put o) s, va)
  else if c = 0x63 then do
    let (v, va) ← va_word va
    .ok (convert_char o s d v, va)
  else if c = 0x73 then do
    let (p, va) ← va_string va
    let s ← convert_string o s d p
    .ok (s, va)
  else if c = 0x70 then do
    let (v, va) ← va_word va
    let s ← convert_pointer o s d v
    .ok (s, va)
  else .ok (put o s c, va)

/-! ## §6. The main loop. -/

/-- `while (*format)`.  Behind a directive `format++` passes its conversion, whatever that was. -/
def format_loop (fp : FloatFormat F) (o : Target τ) :
    (rounds : ℕ) → (format : List UInt8) → List (VaArg F) → Sink τ → Except Fault (Sink τ)
  | 0, _, _, _ => .error .rounds
  | rounds + 1, format, va, s => do
    let c ← peek format
    if c = 0 then .ok s
    else if c ≠ 0x25 then format_loop fp o rounds format.tail va (put o s c)
    else do
      let (d, format, va) ← directive format.tail va
      let c ← peek format
      let (s, va) ← specifier fp o s c d va
      format_loop fp o rounds format.tail va s

/-- `idx < maxlen ? idx : maxlen - 1U`. -/
def terminator_index (idx maxlen : ℕ) : ℕ :=
  if idx < maxlen then idx else (maxlen + SIZE_MAX) % 2 ^ 64

/-- `(int)idx`. -/
def int_result (idx : ℕ) : ℤ := (UInt32.ofNat idx).toInt32.toInt

/-- `_vsnprintf`: the result, and what the output function left.  Every round takes a character of
    the format. -/
def _vsnprintf (fp : FloatFormat F) (o : Target τ) (format : List UInt8) (va : List (VaArg F))
    (w : World τ) : Except Fault (ℤ × World τ) := do
  let o := if o.buffer = 0 then { o with out := ._out_null } else o
  let s ← format_loop fp o (format.length + 1) format va ⟨0, w⟩
  .ok (int_result s.idx, o.call 0 (terminator_index s.idx o.maxlen) s.world)

section Interface

variable (fp : FloatFormat F) (fct : τ → UInt8 → τ)

/-- `char buffer[1]` is at `local_buffer`; `vprintf_` is the same. -/
def printf_ (local_buffer : ℕ) (format : List UInt8) (va : List (VaArg F)) (w : World τ) :
    Except Fault (ℤ × World τ) :=
  _vsnprintf fp ⟨._out_char, local_buffer, SIZE_MAX, fct⟩ format va w

/-- `sprintf_`: there is no limit but the address space. -/
def sprintf_ (buffer : ℕ) (format : List UInt8) (va : List (VaArg F)) (w : World τ) :
    Except Fault (ℤ × World τ) :=
  _vsnprintf fp ⟨._out_buffer, buffer, SIZE_MAX, fct⟩ format va w

/-- `snprintf_`, with a limit; `vsnprintf_` is the same. -/
def snprintf_ (buffer count : ℕ) (format : List UInt8) (va : List (VaArg F)) (w : World τ) :
    Except Fault (ℤ × World τ) :=
  _vsnprintf fp ⟨._out_buffer, buffer, count, fct⟩ format va w

/-- `fctprintf`, with an output function of the caller; `out_fct_wrap` is at `out_fct_wrap`. -/
def fctprintf (out_fct_wrap : ℕ) (format : List UInt8) (va : List (VaArg F)) (w : World τ) :
    Except Fault (ℤ × World τ) :=
  _vsnprintf fp ⟨._out_fct, out_fct_wrap, SIZE_MAX, fct⟩ format va w

end Interface

end Hippos.Libc.Printf
