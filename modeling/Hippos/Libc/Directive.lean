/-
  Hippos.Libc.Directive — directives as they are written.

  A format is a list of items: characters, and directives with their flags, width, precision, length
  and conversion.  Written out and handed to `printf`, every item is read back as what it stands
  for: a 0 in front of a width is a flag and a number ends where its digits end.

  `Item.text` is how an item is written, `Spec.meaning` what a directive stands for, and `run` the
  text of a list of items.  That the parser inverts the first is proved field by field, each from
  what can stand behind it: a character that the next field, or the conversion, begins with, and
  that this field would not take.

  For the formats that the kernel uses, which have only `%d` and `%s`, `Prints` puts format,
  arguments and text together from the right.

  Main results:
    * `directive_text` — a directive is read back as what it stands for.
    * `render_loop_items` — the main loop takes one item in a round.
    * `int_conversion`, `run_string` — what `%d` and `%s` print.
    * `vsnprintf_items` — a format means its items.
-/
import Hippos.Libc.Format

namespace Hippos.Libc.Printf

open Hippos.Lib

variable {τ F : Type}

/-! ## §1. Items. -/

/-- A width or a precision. -/
inductive Amount where
  | none
  | number (n : ℕ)
  | star
  deriving Repr, DecidableEq

/-- A length modifier. -/
inductive Length where
  | none
  | l
  | ll
  | h
  | hh
  | t
  | j
  | z
  deriving Repr, DecidableEq

/-- `d i u x X o b f F e E g G c s p %`: the characters that `_vsnprintf` has a case for. -/
def conversions : List UInt8 :=
  [0x64, 0x69, 0x75, 0x78, 0x58, 0x6F, 0x62, 0x66, 0x46, 0x65, 0x45, 0x67, 0x47, 0x63, 0x73, 0x70,
   0x25]

/-- A directive as it is written.  A width 0 cannot be: its digit is a flag. -/
structure Spec where
  flags : List UInt8
  width : Amount
  precision : Option Amount
  length : Length
  conversion : UInt8
  flags_ok : ∀ c ∈ flags, is_flag c = true
  width_ok : width ≠ .number 0
  conversion_ok : conversion ∈ conversions

/-- A character that is not the start of a directive, or a directive. -/
inductive Item where
  | plain (c : UInt8) (nonzero : c ≠ 0) (no_directive : c ≠ 0x25)
  | directive (s : Spec)

/-- A number in decimal. -/
def decimal (n : ℕ) : List UInt8 := ((places 10 n).map Lib.digit_char).reverse

/-- How a width or a precision is written. -/
def Amount.text : Amount → List UInt8
  | .none => []
  | .number n => decimal n
  | .star => [0x2A]

/-- How a length is written. -/
def Length.text : Length → List UInt8
  | .none => []
  | .l => [0x6C]
  | .ll => [0x6C, 0x6C]
  | .h => [0x68]
  | .hh => [0x68, 0x68]
  | .t => [0x74]
  | .j => [0x6A]
  | .z => [0x7A]

/-- A precision has a dot in front, and may be nothing behind it. -/
def precision_written : Option Amount → List UInt8
  | none => []
  | some a => 0x2E :: a.text

/-- The directive between the percent sign and the conversion. -/
def Spec.fields (s : Spec) : List UInt8 :=
  s.flags ++ (s.width.text ++ (precision_written s.precision ++ s.length.text))

/-- How an item is written. -/
def Item.text : Item → List UInt8
  | .plain c _ _ => [c]
  | .directive s => 0x25 :: (s.fields ++ [s.conversion])

/-! ## §2. What they stand for. -/

/-- A flag that is set. -/
def set_flag (flags : Flags) (c : UInt8) : Flags := (flag_char flags c).getD flags

/-- A width: a number is an `unsigned int`, a negative argument pads on the right. -/
def Amount.as_width (va : List (VaArg F)) (flags : Flags) :
    Amount → Except Fault (Flags × ℕ × List (VaArg F))
  | .none => .ok (flags, 0, va)
  | .number n => .ok (flags, n % 2 ^ 32, va)
  | .star => do
    let (v, va) ← va_word va
    if to_int v < 0 then do
      let w ← negate 32 (to_int v)
      .ok ({ flags with left := true }, w.toNat, va)
    else .ok (flags, (to_int v).toNat, va)

/-- A precision: a lone dot is 0, and so is a negative argument. -/
def Amount.as_precision (va : List (VaArg F)) : Amount → Except Fault (ℕ × List (VaArg F))
  | .none => .ok (0, va)
  | .number n => .ok (n % 2 ^ 32, va)
  | .star => do
    let (v, va) ← va_word va
    .ok ((to_int v).toNat, va)

/-- What a precision stands for, if there is one. -/
def precision_meaning (va : List (VaArg F)) (flags : Flags) :
    Option Amount → Except Fault (Flags × ℕ × List (VaArg F))
  | none => .ok (flags, 0, va)
  | some a => do
    let (precision, va) ← a.as_precision va
    .ok ({ flags with precision := true }, precision, va)

/-- The flags that a length sets; `t`, `j` and `z` are as wide as `l`. -/
def Length.set (flags : Flags) : Length → Flags
  | .none => flags
  | .l => { flags with long := true }
  | .ll => { flags with long := true, long_long := true }
  | .h => { flags with short := true }
  | .hh => { flags with short := true, char := true }
  | .t => { flags with long := true }
  | .j => { flags with long := true }
  | .z => { flags with long := true }

/-- What a directive stands for: its flags, width and precision, of which the last two may be
    arguments. -/
def Spec.meaning (s : Spec) (va : List (VaArg F)) : Except Fault (Directive × List (VaArg F)) := do
  let (flags, width, va) ← s.width.as_width va (s.flags.foldl set_flag Flags.zero)
  let (flags, precision, va) ← precision_meaning va flags s.precision
  .ok (⟨s.length.set flags, width, precision⟩, va)

/-- The text of a list of items: each takes the arguments it needs. -/
def run (fp : FloatFormat F) : List Item → List (VaArg F) → Except Fault (List UInt8)
  | [], _ => .ok []
  | .plain c _ _ :: items, va => do
    let text ← run fp items va
    .ok (c :: text)
  | .directive s :: items, va => do
    let (d, va) ← s.meaning va
    let (text, va) ← specifier_text fp s.conversion d va
    let rest ← run fp items va
    .ok (text ++ rest)

/-! ## §3. Numbers. -/

/-- A decimal digit is read back. -/
theorem digit_char_is_digit {d : ℕ} (h : d < 10) :
    _is_digit (Lib.digit_char d) = true ∧ (Lib.digit_char d - 0x30).toNat = d := by
  have hall : ∀ d < 10, _is_digit (Lib.digit_char d) = true
      ∧ (Lib.digit_char d - 0x30).toNat = d := by decide
  exact hall d h

/-- `_atoi` reads the digits there are, modulo 2^32. -/
theorem atoi_digits (ds : List ℕ) (hds : ∀ d ∈ ds, d < 10) {c : UInt8}
    (hc : _is_digit c = false) (rest : List UInt8) :
    _atoi ((ds.map Lib.digit_char).reverse ++ c :: rest) 0
      = .ok (Nat.ofDigits 10 ds % 2 ^ 32, c :: rest) := by
  -- the characters in front are read first, so the induction is on what stands behind
  have hread : ∀ (tail : List UInt8) (ds : List ℕ), (∀ d ∈ ds, d < 10) →
      _atoi ((ds.map Lib.digit_char).reverse ++ tail) 0 =
      _atoi tail (Nat.ofDigits 10 ds % 2 ^ 32) := by
    intro tail ds
    induction ds generalizing tail with
    | nil => exact fun _ => rfl
    | cons d ds ih =>
      intro hds
      obtain ⟨hdigit, hvalue⟩ := digit_char_is_digit (hds d List.mem_cons_self)
      rw [List.map_cons, List.reverse_cons, List.append_assoc,
          ih _ fun x hx => hds x (List.mem_cons_of_mem d hx)]
      show _atoi (Lib.digit_char d :: tail) _ = _
      rw [_atoi, if_pos hdigit, hvalue, Nat.ofDigits_cons]
      congr 1
      generalize Nat.ofDigits 10 ds = n
      omega
  rw [hread _ ds hds, _atoi, if_neg (by rw [hc]; exact Bool.false_ne_true)]

/-- A number that is written out is read back, modulo 2^32. -/
theorem atoi_decimal (n : ℕ) {c : UInt8} (hc : _is_digit c = false) (rest : List UInt8) :
    _atoi (decimal n ++ c :: rest) 0 = .ok (n % 2 ^ 32, c :: rest) := by
  have hvalue : Nat.ofDigits 10 (places 10 n) = n := by
    rw [places, Nat.ofDigits_cons, Nat.ofDigits_digits, Nat.mod_add_div]
  rw [decimal, atoi_digits _ (fun d hd => places_lt (by omega) hd) hc, hvalue]

/-- A number starts with a digit, which is not 0 unless the number is. -/
theorem decimal_head (n : ℕ) : ∃ d s, decimal n = d :: s ∧ _is_digit d = true
    ∧ (n ≠ 0 → d ≠ 0x30) := by
  have hne : decimal n ≠ [] := by
    rw [decimal, ne_eq, List.reverse_eq_nil_iff, List.map_eq_nil_iff]
    exact List.cons_ne_nil _ _
  obtain ⟨d, s, hds⟩ := List.exists_cons_of_ne_nil hne
  refine ⟨d, s, hds, ?_, ?_⟩
  · have hmem : d ∈ decimal n := by
      rw [hds]
      exact List.mem_cons_self
    rw [decimal, List.mem_reverse, List.mem_map] at hmem
    obtain ⟨x, hx, rfl⟩ := hmem
    exact (digit_char_is_digit (places_lt (by omega) hx)).1
  · intro hn hzero
    have hnumeral : IsNumeral 10 (decimal n) n := by
      rw [decimal, places_of_pos (by omega) (Nat.pos_of_ne_zero hn)]
      exact isNumeral_digits (by omega) (by omega) (Nat.pos_of_ne_zero hn)
    have hsingle := hnumeral.no_leading_zero (by rw [hds, hzero]; rfl)
    have hreads := hnumeral.reads
    rw [hsingle] at hreads
    exact hn (Option.some.inj (hreads.symm.trans (by decide : read_numeral 10 [0x30] = some 0)))

/-- Decimal digits determine the number. -/
theorem decimal_injective {m n : ℕ} (h : decimal m = decimal n) : m = n := by
  have hread : ∀ k, read_numeral 10 (decimal k) = some k := by
    intro k
    rw [decimal, read_numeral_reverse (by decide) _ fun d hd => places_lt (by decide) hd, places,
        Nat.ofDigits_cons, Nat.ofDigits_digits, Nat.mod_add_div]
  have heq := hread m
  rw [h, hread n] at heq
  exact (Option.some.inj heq).symm

/-- A number ends where its digits end. -/
theorem decimal_prefix {m n : ℕ} {s t : List UInt8}
    (h : decimal m ++ 0x20 :: s = decimal n ++ 0x20 :: t) : m = n := by
  have hdigits : ∀ k (r : List UInt8),
      (decimal k ++ 0x20 :: r).takeWhile (fun c => _is_digit c) = decimal k := by
    intro k r
    have hall : ∀ c ∈ decimal k, _is_digit c = true := by
      intro c hc
      obtain ⟨d, hd, rfl⟩ := List.mem_map.mp (List.mem_reverse.mp hc)
      exact (digit_char_is_digit (places_lt (by decide) hd)).1
    rw [List.takeWhile_append_of_pos hall, List.takeWhile_cons_of_neg (by decide), List.append_nil]
  apply decimal_injective
  rw [← hdigits m s, h, hdigits n t]

/-! ## §4. Reading the fields back. -/

/-- What can stand behind the precision. -/
def behind_precision : List UInt8 := [0x6C, 0x68, 0x74, 0x6A, 0x7A] ++ conversions

/-- Behind the precision there is a length or the conversion. -/
theorem length_text_head (len : Length) {c : UInt8} (hc : c ∈ conversions) (rest : List UInt8) :
    ∃ x r, len.text ++ c :: rest = x :: r ∧ x ∈ behind_precision := by
  cases len with
  | none => exact ⟨c, rest, rfl, List.mem_append_right _ hc⟩
  | _ => exact ⟨_, _, rfl, by decide⟩

/-- Behind the width there is a dot, a length or the conversion. -/
theorem precision_text_head (p : Option Amount) (len : Length) {c : UInt8} (hc : c ∈ conversions)
    (rest : List UInt8) :
    ∃ x r, precision_written p ++ (len.text ++ c :: rest) = x :: r
      ∧ x ∈ 0x2E :: behind_precision := by
  cases p with
  | none =>
    obtain ⟨x, r, heq, hx⟩ := length_text_head len hc rest
    exact ⟨x, r, heq, List.mem_cons_of_mem _ hx⟩
  | some a => exact ⟨_, _, rfl, List.mem_cons_self⟩

/-- None of these is a flag, a digit or an asterisk, so flags and width end in front of them. -/
theorem no_flag_behind {c : UInt8} (hc : c ∈ 0x2E :: behind_precision) :
    is_flag c = false ∧ _is_digit c = false ∧ c ≠ 0x2A := by
  have hall : (0x2E :: behind_precision).all fun c => !is_flag c && !_is_digit c && c != 0x2A := by
    decide
  have hthis := List.all_eq_true.mp hall c hc
  simp only [Bool.and_eq_true, Bool.not_eq_true', bne_iff_ne] at hthis
  exact ⟨hthis.1.1, hthis.1.2, hthis.2⟩

/-- Behind the precision no dot follows. -/
theorem no_dot_behind {c : UInt8} (hc : c ∈ behind_precision) : c ≠ 0x2E := by
  have hall : behind_precision.all fun c => c != 0x2E := by decide
  exact bne_iff_ne.mp (List.all_eq_true.mp hall c hc)

/-- No conversion begins with the letter of a length. -/
theorem no_length_behind {c : UInt8} (hc : c ∈ conversions) :
    c ≠ 0x6C ∧ c ≠ 0x68 ∧ ¬ (c = 0x74 ∨ c = 0x6A ∨ c = 0x7A) := by
  have hall : conversions.all fun c =>
      c != 0x6C && c != 0x68 && c != 0x74 && c != 0x6A && c != 0x7A := by decide
  have hthis := List.all_eq_true.mp hall c hc
  simp only [Bool.and_eq_true, bne_iff_ne] at hthis
  exact ⟨hthis.1.1.1.1, hthis.1.1.1.2, by simp [hthis]⟩

/-- A digit other than 0 is no flag. -/
theorem no_flag_digit {d : UInt8} (hd : _is_digit d = true) (h0 : d ≠ 0x30) :
    is_flag d = false := by
  have hall : ∀ d : BitVec 8, _is_digit ⟨d⟩ = true → (⟨d⟩ : UInt8) ≠ 0x30 →
      is_flag ⟨d⟩ = false := by decide
  exact hall d.toBitVec hd h0

/-- The flags are read up to the first other character, and set in their order. -/
theorem flags_field_text (fl : List UInt8) {c : UInt8} (hc : is_flag c = false)
    (rest : List UInt8) :
    ∀ flags, (∀ x ∈ fl, is_flag x = true) →
      flags_field (fl ++ c :: rest) flags = .ok (fl.foldl set_flag flags, c :: rest) := by
  induction fl with
  | nil =>
    intro flags _
    have hnone : flag_char flags c = none := by
      rw [← Option.not_isSome_iff_eq_none, flag_char_isSome, hc]
      exact Bool.false_ne_true
    rw [List.nil_append, flags_field, hnone]
    rfl
  | cons x fl ih =>
    intro flags hfl
    have hx := hfl x List.mem_cons_self
    rw [← flag_char_isSome flags, Option.isSome_iff_exists] at hx
    obtain ⟨flags', hflags'⟩ := hx
    have hset : set_flag flags x = flags' := by
      rw [set_flag, hflags']
      rfl
    rw [List.cons_append, flags_field, hflags', List.foldl_cons, hset]
    exact ih flags' fun y hy => hfl y (List.mem_cons_of_mem x hy)

/-- The width is read back, in front of a character that would not go on with it. -/
theorem width_field_text (a : Amount) {c : UInt8} (hdigit : _is_digit c = false) (hstar : c ≠ 0x2A)
    (rest : List UInt8) (va : List (VaArg F)) (flags : Flags) :
    width_field (a.text ++ c :: rest) va flags
      = (a.as_width va flags).map fun (flags, w, va) => (flags, w, c :: rest, va) := by
  unfold width_field
  -- nothing, digits, or an asterisk
  cases a with
  | none =>
    show (if _is_digit c then _ else if c = 0x2A then _ else _) = _
    rw [if_neg (by rw [hdigit]; exact Bool.false_ne_true), if_neg hstar]
    rfl
  | number n =>
    obtain ⟨d, s, hds, hd, -⟩ := decimal_head n
    have hpeek : peek (decimal n ++ c :: rest) = .ok d := by
      rw [hds]
      rfl
    rw [Amount.text, hpeek, ok_bind, if_pos hd, atoi_decimal n hdigit rest]
    rfl
  | star =>
    rw [Amount.text, List.cons_append, peek, ok_bind, if_neg (by decide), if_pos rfl,
        Amount.as_width]
    cases va_word va with
    | error e => rfl
    | ok r =>
      show (if to_int r.1 < 0 then _ else _) = Except.map _ (if to_int r.1 < 0 then _ else _)
      split_ifs
      · cases negate 32 (to_int r.1) <;> rfl
      · rfl

/-- So is the precision, with its dot. -/
theorem precision_field_text (p : Option Amount) {c : UInt8} (hdigit : _is_digit c = false)
    (hstar : c ≠ 0x2A) (hdot : c ≠ 0x2E) (rest : List UInt8) (va : List (VaArg F)) (flags : Flags) :
    precision_field (precision_written p ++ c :: rest) va flags
      = (precision_meaning va flags p).map fun (flags, n, va) => (flags, n, c :: rest, va) := by
  unfold precision_field
  cases p with
  | none =>
    show (if c = 0x2E then _ else _) = _
    rw [if_neg hdot]
    rfl
  | some a =>
    show (peek (a.text ++ c :: rest) >>= _) = _
    cases a with
    | none =>
      show (if _is_digit c then _ else if c = 0x2A then _ else _) = _
      rw [if_neg (by rw [hdigit]; exact Bool.false_ne_true), if_neg hstar]
      rfl
    | number n =>
      obtain ⟨d, s, hds, hd, -⟩ := decimal_head n
      have hpeek : peek (decimal n ++ c :: rest) = .ok d := by
        rw [hds]
        rfl
      rw [Amount.text, hpeek, ok_bind, if_pos hd]
      show (_atoi (decimal n ++ c :: rest) 0 >>= _) = _
      rw [atoi_decimal n hdigit rest]
      rfl
    | star =>
      rw [Amount.text, List.cons_append, peek, ok_bind, if_neg (by decide), if_pos rfl]
      show (va_word va >>= _) = Except.map _ ((va_word va >>= _) >>= _)
      cases va_word va with
      | error e => rfl
      | ok r =>
        have htoNat : (if to_int r.1 > 0 then (to_int r.1).toNat else 0) = (to_int r.1).toNat := by
          split_ifs <;> omega
        show Except.ok (_, (if to_int r.1 > 0 then (to_int r.1).toNat else 0), _) = _
        rw [htoNat]
        rfl

/-- And the length. -/
theorem length_field_text (len : Length) {c : UInt8} (hc : c ∈ conversions) (rest : List UInt8)
    (flags : Flags) :
    length_field (len.text ++ c :: rest) flags = .ok (len.set flags, c :: rest) := by
  obtain ⟨hl, hh, htjz⟩ := no_length_behind hc
  unfold length_field
  cases len with
  | none =>
    show (if c = 0x6C then _ else if c = 0x68 then _ else if _ then _ else _) = _
    rw [if_neg hl, if_neg hh, if_neg htjz]
    rfl
  | l =>
    show (if c = 0x6C then _ else _) = _
    rw [if_neg hl]
    rfl
  | h =>
    show (if c = 0x68 then _ else _) = _
    rw [if_neg hh]
    rfl
  | _ => rfl

/-- **A directive is read back as what it stands for**, whatever follows.  The fields are read in
    their order, each up to where the next begins; a width is not 0, so its first digit is no
    flag. -/
theorem directive_text (s : Spec) (rest : List UInt8) (va : List (VaArg F)) :
    directive (s.fields ++ s.conversion :: rest) va
      = (s.meaning va).map fun (d, va) => (d, s.conversion :: rest, va) := by
  obtain ⟨x₁, r₁, h₁, hx₁⟩ := length_text_head s.length s.conversion_ok rest
  obtain ⟨x₂, r₂, h₂, hx₂⟩ := precision_text_head s.precision s.length s.conversion_ok rest
  obtain ⟨hflag₂, hdigit₂, hstar₂⟩ := no_flag_behind hx₂
  obtain ⟨-, hdigit₁, hstar₁⟩ := no_flag_behind (List.mem_cons_of_mem _ hx₁)
  -- what stands behind the flags
  have hhead : ∃ x r, s.width.text ++ (x₂ :: r₂) = x :: r ∧ is_flag x = false := by
    cases hw : s.width with
    | none => exact ⟨x₂, r₂, rfl, hflag₂⟩
    | number n =>
      obtain ⟨d, t, hd, hdigit, hzero⟩ := decimal_head n
      have hn : n ≠ 0 := by
        rintro rfl
        exact s.width_ok hw
      refine ⟨d, t ++ x₂ :: r₂, ?_, no_flag_digit hdigit (hzero hn)⟩
      rw [Amount.text, hd, List.cons_append]
    | star => exact ⟨0x2A, x₂ :: r₂, rfl, by decide⟩
  obtain ⟨x₃, r₃, h₃, hflag₃⟩ := hhead
  have hfields : s.fields ++ s.conversion :: rest = s.flags ++ x₃ :: r₃ := by
    rw [Spec.fields, List.append_assoc, List.append_assoc, List.append_assoc, h₂, h₃]
  unfold directive Spec.meaning
  rw [hfields, flags_field_text s.flags hflag₃ r₃ _ s.flags_ok, ok_bind]
  dsimp only
  rw [← h₃, width_field_text _ hdigit₂ hstar₂]
  cases s.width.as_width va (s.flags.foldl set_flag Flags.zero) with
  | error e => rfl
  | ok w =>
    show (precision_field (x₂ :: r₂) w.2.2 w.1 >>= _)
        = Except.map _ (precision_meaning _ _ _ >>= _)
    rw [← h₂, h₁, precision_field_text _ hdigit₁ hstar₁ (no_dot_behind hx₁)]
    cases precision_meaning w.2.2 w.1 s.precision with
    | error e => rfl
    | ok p =>
      show (length_field (x₁ :: r₁) p.1 >>= _) = _
      rw [← h₁, length_field_text _ s.conversion_ok]
      rfl

/-! ## §5. Formats. -/

/-- A list of items, written out. -/
def format_text (items : List Item) : List UInt8 := (items.map Item.text).flatten

/-- Items one after the other. -/
theorem format_text_append (items rest : List Item) :
    format_text (items ++ rest) = format_text items ++ format_text rest := by
  unfold format_text
  rw [List.map_append, List.flatten_append]

/-- An item is at least one character. -/
theorem items_length_le (items : List Item) : items.length ≤ (format_text items).length := by
  induction items with
  | nil => exact Nat.le_refl 0
  | cons item items ih =>
    have hpos : 0 < item.text.length := by
      cases item with
      | plain c _ _ => exact Nat.zero_lt_succ _
      | directive s => exact Nat.zero_lt_succ _
    rw [format_text, List.map_cons, List.flatten_cons, List.length_append, List.length_cons]
    rw [format_text] at ih
    omega

/-- The main loop takes one item in a round.  A character that stands for itself is handed on, a
    directive is parsed and converted; `run` does the same on the items, so the two are compared
    item by item. -/
theorem render_loop_items (fp : FloatFormat F) (t : List UInt8) (items : List Item) :
    ∀ (rounds : ℕ) (va : List (VaArg F)), items.length < rounds →
      render_loop fp rounds (format_text items ++ 0 :: t) va = run fp items va := by
  induction items with
  | nil =>
    intro rounds va hrounds
    obtain ⟨rounds, rfl⟩ := Nat.exists_eq_succ_of_ne_zero (by omega : rounds ≠ 0)
    rfl
  | cons item items ih =>
    intro rounds va hrounds
    rw [List.length_cons] at hrounds
    obtain ⟨rounds, rfl⟩ := Nat.exists_eq_succ_of_ne_zero (by omega : rounds ≠ 0)
    have hsplit : format_text (item :: items) ++ 0 :: t
        = item.text ++ (format_text items ++ 0 :: t) := by
      rw [format_text, List.map_cons, List.flatten_cons, List.append_assoc]
      rfl
    rw [hsplit]
    cases item with
    | plain c nonzero no_directive =>
      rw [Item.text, List.singleton_append, render_loop, peek, ok_bind, if_neg nonzero,
          if_pos no_directive, List.tail_cons, ih rounds va (by omega), run]
    | directive s =>
      have hne : (0x25 : UInt8) ≠ 0 := by decide
      rw [Item.text, List.cons_append, render_loop, peek, ok_bind, if_neg hne,
          if_neg (not_not_intro rfl), List.tail_cons, List.append_assoc, List.singleton_append,
          directive_text, run]
      cases s.meaning va with
      | error e => rfl
      | ok r =>
        show (specifier_text fp s.conversion r.1 r.2 >>= _) = (specifier_text _ _ _ _ >>= _)
        cases specifier_text fp s.conversion r.1 r.2 with
        | error e => rfl
        | ok x =>
          show (render_loop fp rounds (format_text items ++ 0 :: t) x.2 >>= _) = _
          rw [ih rounds x.2 (by omega)]
          rfl

/-- So the text of a format that is written out is that of its items, whatever is behind its NUL. -/
theorem render_items (fp : FloatFormat F) (items : List Item) (t : List UInt8)
    (va : List (VaArg F)) : render fp (format_text items ++ 0 :: t) va = run fp items va := by
  apply render_loop_items
  have hle := items_length_le items
  rw [List.length_append]
  omega

/-- `%s`. -/
def string_spec : Spec := ⟨[], .none, none, .none, 0x73, by simp, by decide, by decide⟩

/-- `%s` stands for a string up to its NUL.  Without a precision the length is not cut, and without
    a width nothing is padded. -/
theorem run_string (fp : FloatFormat F) {p : List UInt8} (hp : 0 ∈ p) (items : List Item)
    (va : List (VaArg F)) :
    run fp (.directive string_spec :: items) (.string p :: va)
      = (run fp items va).map fun text => before_nul p ++ text := by
  have hin : StringInside ⟨Flags.zero, 0, 0⟩ p := ⟨.inl hp, hp⟩
  have htext : string_text ⟨Flags.zero, 0, 0⟩ p = before_nul p := by
    unfold string_text justified
    rw [Nat.zero_sub]
    exact List.append_nil _
  rw [run]
  show (string_conversion ⟨Flags.zero, 0, 0⟩ p >>= _) >>= _ = _
  rw [string_conversion, if_pos hin, htext]
  show (run fp items va >>= _) = _
  cases run fp items va <;> rfl

/-- `%d`. -/
def int_spec : Spec := ⟨[], .none, none, .none, 0x64, by simp, by decide, by decide⟩

/-- An `int` that is not negative is written in decimal: ten digits fit the buffer, and there is
    nothing to pad.  Most of what the kernel prints are numbers of this kind. -/
theorem int_conversion {v : UInt32} (hv : v.toNat < 2 ^ 31) :
    integer_conversion 0x64 ⟨Flags.zero, 0, 0⟩ v.toUInt64 = .ok (decimal v.toNat) := by
  have hvalue : argument_value 0x64 Flags.zero v.toUInt64 = v.toNat := by
    show v.toUInt64.toUInt32.toInt32.toInt = v.toNat
    rw [UInt32.toUInt32_toUInt64]
    show v.toBitVec.toInt = v.toNat
    rw [BitVec.toInt_eq_toNat_of_lt (by show 2 * v.toNat < 2 ^ 32; omega)]
    rfl
  have hplain : ¬ Extreme 0x64 Flags.zero v.toUInt64 := by
    rintro ⟨-, h⟩
    rw [hvalue] at h
    change (v.toNat : ℤ) = -2 ^ 31 at h
    omega
  -- ten digits fit the buffer
  have hdigits : (places 10 v.toNat).length ≤ PRINTF_NTOA_BUFFER_SIZE := by
    have hlen : (Nat.digits 10 (v.toNat / 10)).length ≤ 10 := by
      rw [Nat.digits_length_le_iff (by omega)]
      omega
    rw [places, List.length_cons, PRINTF_NTOA_BUFFER_SIZE]
    omega
  have hnumeral : numeral false 10 v.toNat = decimal v.toNat := by
    unfold numeral decimal
    rw [List.take_of_length_le hdigits]
    congr 1
    apply List.map_congr_left
    intro d hd
    have hall : ∀ d < 10, digit_char false (UInt8.ofNat d) = Lib.digit_char d := by decide
    exact hall d (places_lt (by decide) hd)
  unfold integer_conversion
  rw [if_neg hplain]
  unfold conversion_text
  dsimp only
  rw [hvalue, show decide ((v.toNat : ℤ) < 0) = false from decide_eq_false (by omega),
      Int.natAbs_natCast]
  show Except.ok (integer_text v.toNat false 10 0 0 Flags.zero) = _
  rw [← hnumeral]
  unfold integer_text integer_buf padded
  dsimp only
  rw [show (if v.toNat = 0 then { Flags.zero with hash := false } else Flags.zero) = Flags.zero
        from ite_self _]
  simp [sign_char, top_letter, hash_text, zeros_text, Flags.zero, zeros, digits_text]

/-- `%d` stands for the text of its conversion. -/
theorem run_int_conversion (fp : FloatFormat F) (v : UInt64) (items : List Item)
    (va : List (VaArg F)) :
    run fp (.directive int_spec :: items) (.word v :: va)
      = integer_conversion 0x64 ⟨Flags.zero, 0, 0⟩ v >>= fun s =>
        (run fp items va).map fun text => s ++ text := by
  rw [run]
  show (integer_conversion 0x64 ⟨Flags.zero, 0, 0⟩ v >>= _) >>= _ = _
  cases integer_conversion 0x64 ⟨Flags.zero, 0, 0⟩ v with
  | error e => rfl
  | ok s =>
    show (run fp items va >>= _) = _
    cases run fp items va <;> rfl

/-- `%d` stands for the decimal digits. -/
theorem run_int (fp : FloatFormat F) {v : UInt32} (hv : v.toNat < 2 ^ 31) (items : List Item)
    (va : List (VaArg F)) :
    run fp (.directive int_spec :: items) (.word v.toUInt64 :: va)
      = (run fp items va).map fun text => decimal v.toNat ++ text := by
  rw [run_int_conversion, int_conversion hv, ok_bind]

/-- Characters stand for themselves. -/
theorem run_plain_items (fp : FloatFormat F) {s : List UInt8} (hs : ∀ c ∈ s, c ≠ 0 ∧ c ≠ 0x25) :
    ∃ items, format_text items = s ∧ ∀ rest va,
      run fp (items ++ rest) va = (run fp rest va).map fun text => s ++ text := by
  induction s with
  | nil =>
    refine ⟨[], rfl, fun rest va => ?_⟩
    rw [List.nil_append]
    cases run fp rest va <;> rfl
  | cons c s ih =>
    obtain ⟨items, htext, hrun⟩ := ih fun x hx => hs x (List.mem_cons_of_mem _ hx)
    obtain ⟨nonzero, no_directive⟩ := hs c List.mem_cons_self
    refine ⟨.plain c nonzero no_directive :: items, congrArg (c :: ·) htext, fun rest va => ?_⟩
    rw [List.cons_append, run, hrun]
    cases run fp rest va <;> rfl

/-- The bytes of a literal, without its NUL. -/
def literal (s : String) : List UInt8 := s.toUTF8.data.toList

/-- No NUL and no directive. -/
def is_plain (s : String) : Bool := (literal s).all fun c => c != 0 && c != 0x25

/-- So no character of the text is a NUL or a percent sign. -/
theorem is_plain_char {s : String} (hs : is_plain s = true) :
    ∀ c ∈ literal s, c ≠ 0 ∧ c ≠ 0x25 := by
  intro c hc
  have h := List.all_eq_true.mp hs c hc
  rw [Bool.and_eq_true, bne_iff_ne, bne_iff_ne] at h
  exact h

/-- No digit is a NUL. -/
theorem decimal_nonzero (n : ℕ) : ∀ c ∈ decimal n, c ≠ 0 := by
  intro c hc
  obtain ⟨d, hd, rfl⟩ := List.mem_map.mp (List.mem_reverse.mp hc)
  have hall : ∀ d < 10, Lib.digit_char d ≠ 0 := by decide
  exact hall d (places_lt (by decide) hd)

/-- **A format, its arguments and the text it stands for**, put together from the right. -/
structure Prints (fp : FloatFormat F) (format : List UInt8) (va : List (VaArg F))
    (text : List UInt8) : Prop where
  items : ∃ items, format_text items = format ∧ run fp items va = .ok text
  nonzero : ∀ c ∈ text, c ≠ 0

namespace Prints

variable {fp : FloatFormat F} {format text : List UInt8} {va : List (VaArg F)}

/-- The empty format. -/
theorem nil : Prints fp [] va [] :=
  ⟨⟨[], rfl, rfl⟩, fun _ h => absurd h List.not_mem_nil⟩

/-- A directive in front. -/
theorem directive {spec : Spec} {v : VaArg F} {s : List UInt8} (hs : ∀ c ∈ s, c ≠ 0)
    (hspec : ∀ items, run fp (.directive spec :: items) (v :: va)
      = (run fp items va).map fun text => s ++ text) (h : Prints fp format va text) :
    Prints fp ((Item.directive spec).text ++ format) (v :: va) (s ++ text) := by
  obtain ⟨⟨items, hformat, hrun⟩, hnonzero⟩ := h
  refine ⟨⟨.directive spec :: items, ?_, ?_⟩, ?_⟩
  · rw [← hformat]
    rfl
  · rw [hspec, hrun]
    rfl
  · intro c hc
    rcases List.mem_append.mp hc with hc | hc
    · exact hs c hc
    · exact hnonzero c hc

/-- A `%d` in front, with an argument that is no negative `int`. -/
theorem int {v : UInt32} (hv : v.toNat < 2 ^ 31) (h : Prints fp format va text) :
    Prints fp ([0x25, 0x64] ++ format) (.word v.toUInt64 :: va) (decimal v.toNat ++ text) :=
  directive (decimal_nonzero v.toNat) (fun items => run_int fp hv items va) h

/-- A `%s` in front, with a string that has a NUL. -/
theorem string {p : List UInt8} (hp : 0 ∈ p) (h : Prints fp format va text) :
    Prints fp ([0x25, 0x73] ++ format) (.string p :: va) (before_nul p ++ text) :=
  directive (before_nul_nonzero p) (fun items => run_string fp hp items va) h

/-- Characters in front. -/
theorem plain {s : List UInt8} (hs : ∀ c ∈ s, c ≠ 0 ∧ c ≠ 0x25) (h : Prints fp format va text) :
    Prints fp (s ++ format) va (s ++ text) := by
  obtain ⟨⟨items, hformat, hrun⟩, hnonzero⟩ := h
  obtain ⟨front, hfront, hplain⟩ := run_plain_items fp hs
  refine ⟨⟨front ++ items, ?_, ?_⟩, ?_⟩
  · rw [format_text_append, hfront, hformat]
  · rw [hplain, hrun]
    rfl
  · intro c hc
    rcases List.mem_append.mp hc with hc | hc
    · exact (hs c hc).1
    · exact hnonzero c hc

/-- A format without directives stands for itself. -/
theorem literal {s : String} (hs : is_plain s = true) :
    Prints fp (Printf.literal s) va (Printf.literal s) := by
  have h : Prints fp (Printf.literal s ++ []) va (Printf.literal s ++ []) :=
    plain (is_plain_char hs) nil
  rw [List.append_nil] at h
  exact h

/-- What such a format prints. -/
theorem render (h : Prints fp format va text) : render fp (format ++ [0]) va = .ok text := by
  obtain ⟨⟨items, hformat, hrun⟩, -⟩ := h
  rw [← hformat, render_items, hrun]

end Prints

/-- **A format means its items.**  What `_vsnprintf` outputs for a list of items, written out, is
    the text of one item after the other, each directive with the flags, width and precision that
    were written. -/
theorem vsnprintf_items (fp : FloatFormat F) {o : Target τ} (ho : o.buffer ≠ 0) (items : List Item)
    (t : List UInt8) (va : List (VaArg F)) (w : World τ) :
    _vsnprintf fp o (format_text items ++ 0 :: t) va w = (run fp items va).map fun text =>
      (int_result text.length, o.call 0 (terminator_index text.length o.maxlen)
        (text.foldl (put o) ⟨0, w⟩).world) := by
  rw [vsnprintf_eq fp ho, render_items]

/-- `snprintf(buffer, 8, "%03x!", 0x2A)` returns 4. -/
theorem vsnprintf_items_hex :
    ∃ w, _vsnprintf (⟨fun _ _ _ _ => [], fun _ _ _ _ => []⟩ : FloatFormat Unit)
      (⟨._out_buffer, 0x1000, 8, fun t _ => t⟩ : Target Unit)
      (format_text [.directive ⟨[0x30], .number 3, none, .none, 0x78, by simp [is_flag, flag_char],
          by decide, by decide⟩, .plain 0x21 (by decide) (by decide)] ++ 0 :: [])
      [.word 0x2A] ⟨⟨fun _ => 0, []⟩, ()⟩ = .ok (4, w) := by
  rw [vsnprintf_items _ (by decide)]
  exact ⟨_, rfl⟩

end Hippos.Libc.Printf
