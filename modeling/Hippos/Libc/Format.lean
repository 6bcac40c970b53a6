/-
  Hippos.Libc.Format — the formats of `printf` as a language.

  `_vsnprintf` reads its format once from left to right, and `format_loop_eq` has already split it
  into a renderer that decides what is printed and an output loop that prints it.  The renderer is
  the subject here.  Two things in it are not plain from the source: whether the 32-character
  buffers of `_ntoa_long` and `_ntoa_long_long` are ever full, and where the loop stops, which looks
  for a NUL and for nothing else.

  For the first each reading function gets one `_ends` lemma: what it leaves is a suffix of the
  format, and its faults are accounted for.  For the second each gets one `_skip` lemma: on a format
  that goes on with a NUL it leaves what the functions `skip_flags` .. `skip_length` leave, which
  look at the characters only.  A directive that breaks off leaves the NUL to the conversion, which
  prints it, and the scan goes on behind it.

  Main results:
    * `vsnprintf_ends` — every call comes to an end, with no conversion over its buffer.
    * `directive_skip` — the four fields of a directive are skipped up to the NUL at most.
    * `format_end` — a format is read past its end exactly when it breaks off inside a directive.
-/
import Hippos.Libc.Render

namespace Hippos.Libc.Printf

open Hippos.Lib

variable {τ F : Type}

/-! ## §1. Every call ends. -/

/-- A fault that a format or its arguments account for: an argument of the wrong kind or missing, an
    undefined negation, an overrun string or a read past the end.  Not among them are a full
    conversion buffer and running out of rounds. -/
def Accountable (e : Fault) : Prop := e ≠ .buffer ∧ e ≠ .rounds

/-- What is left of a format after some of it was read is a suffix of it: the parser never goes back
    and never skips to another string. -/
def Left (format : List UInt8) (format' : List UInt8) : Prop := format' <:+ format

/-- `format++` stays inside the format. -/
theorem left_tail (format : List UInt8) : Left format format.tail := List.tail_suffix format

/-- The fields are read one after the other, so what they leave is composed. -/
theorem Left.trans {a b c : List UInt8} (h : Left a b) (h' : Left b c) : Left a c :=
  List.IsSuffix.trans h' h

/-- `*format` is there to be read, or the read past the end is the fault. -/
theorem peek_ends (format : List UInt8) :
    Ends (fun _ => format ≠ []) Accountable (peek format) := by
  cases format with
  | nil => exact ⟨Fault.noConfusion, Fault.noConfusion⟩
  | cons c format => exact List.cons_ne_nil c format

/-- `va_arg` of an integer or a pointer; a missing or different argument is the caller's fault. -/
theorem va_word_ends (va : List (VaArg F)) :
    Ends (fun _ => True) Accountable (va_word va) := by
  unfold va_word
  split
  · trivial
  · exact ⟨Fault.noConfusion, Fault.noConfusion⟩

/-- The loop over `0`, `-`, `+`, space and `#` takes characters off the front until one is none of
    them. -/
theorem flags_field_ends (format : List UInt8) :
    ∀ flags, Ends (fun r => Left format r.2) Accountable (flags_field format flags) := by
  induction format with
  | nil => exact fun _ => ⟨Fault.noConfusion, Fault.noConfusion⟩
  | cons c format ih =>
    intro flags
    rw [flags_field]
    cases flag_char flags c with
    | some flags =>
      exact (ih flags).mono (fun _ h => (left_tail (c :: format)).trans h) fun _ h => h
    | none => exact List.suffix_refl _

/-- `_atoi` takes the digits off the front. -/
theorem atoi_ends (str : List UInt8) :
    ∀ i, Ends (fun r => Left str r.2) Accountable (_atoi str i) := by
  induction str with
  | nil => exact fun _ => ⟨Fault.noConfusion, Fault.noConfusion⟩
  | cons c str ih =>
    intro i
    rw [_atoi]
    apply Ends.ite
    · intro _
      exact (ih _).mono (fun _ h => (left_tail (c :: str)).trans h) fun _ h => h
    · intro _
      exact List.suffix_refl _

/-- A negation may be undefined, which the argument accounts for. -/
theorem negate_ends (bits : ℕ) (value : ℤ) :
    Ends (fun _ => True) Accountable (negate bits value) :=
  Ends.ite (fun _ => ⟨Fault.noConfusion, Fault.noConfusion⟩) fun _ => trivial

/-- The width: digits, an asterisk with its argument, or nothing. -/
theorem width_field_ends (format : List UInt8) (va : List (VaArg F)) (flags : Flags) :
    Ends (fun r => Left format r.2.2.1) Accountable (width_field format va flags) := by
  unfold width_field
  apply (peek_ends format).bind
  intro c _
  apply Ends.ite
  · intro _
    exact (atoi_ends format 0).bind fun r h => h
  · intro _
    apply Ends.ite
    · intro _
      apply (va_word_ends va).bind
      intro r _
      apply Ends.ite
      · intro _
        exact (negate_ends 32 _).bind fun _ _ => left_tail format
      · intro _
        exact left_tail format
    · intro _
      exact List.suffix_refl _

/-- The precision: nothing without a dot, and behind the dot digits, an asterisk or nothing. -/
theorem precision_field_ends (format : List UInt8) (va : List (VaArg F)) (flags : Flags) :
    Ends (fun r => Left format r.2.2.1) Accountable (precision_field format va flags) := by
  unfold precision_field
  apply (peek_ends format).bind
  intro c _
  apply Ends.ite
  · intro _
    apply (peek_ends format.tail).bind
    intro c _
    apply Ends.ite
    · intro _
      exact (atoi_ends format.tail 0).bind fun r h => (left_tail format).trans h
    · intro _
      apply Ends.ite
      · intro _
        exact (va_word_ends va).bind fun _ _ => (left_tail format).trans (left_tail _)
      · intro _
        exact left_tail format
  · intro _
    exact List.suffix_refl _

/-- The length: `l`, `ll`, `h`, `hh`, `t`, `j`, `z` or nothing. -/
theorem length_field_ends (format : List UInt8) (flags : Flags) :
    Ends (fun r => Left format r.2) Accountable (length_field format flags) := by
  -- `l` and `h` look one character further for their second letter
  have htwo : ∀ (c : UInt8) (flags flags' : Flags),
      Ends (fun r => Left format r.2) Accountable
        (do
          let c' ← peek format.tail
          if c' = c then .ok (flags', format.tail.tail) else .ok (flags, format.tail)) := by
    intro c flags flags'
    apply (peek_ends format.tail).bind
    intro _ _
    apply Ends.ite
    · intro _
      exact (left_tail format).trans (left_tail _)
    · intro _
      exact left_tail format
  unfold length_field
  apply (peek_ends format).bind
  intro c _
  apply Ends.ite
  · exact fun _ => htwo _ _ _
  · intro _
    apply Ends.ite
    · exact fun _ => htwo _ _ _
    · intro _
      apply Ends.ite
      · exact fun _ => left_tail format
      · exact fun _ => List.suffix_refl _

/-- The four fields of a directive in the order of the source, each on what the one before it
    left. -/
theorem directive_ends (format : List UInt8) (va : List (VaArg F)) :
    Ends (fun r => Left format r.2.1) Accountable (directive format va) := by
  unfold directive
  apply (flags_field_ends format Flags.zero).bind
  intro r₁ h₁
  apply (width_field_ends r₁.2 va r₁.1).bind
  intro r₂ h₂
  apply (precision_field_ends r₂.2.2.1 r₂.2.2.2 r₂.1).bind
  intro r₃ h₃
  apply (length_field_ends r₃.2.2.1 r₃.1).bind
  intro r₄ h₄
  exact ((h₁.trans h₂).trans h₃).trans h₄

/-- The integer conversions fault only where the negation of the value does.  Their text has at most
    32 characters, by the bounds of `ntoa_format`, so the buffer plays no part here. -/
theorem integer_conversion_ends (c : UInt8) (d : Directive) (v : UInt64) :
    Ends (fun _ => True) Accountable (integer_conversion c d v) :=
  Ends.ite (fun _ => ⟨Fault.noConfusion, Fault.noConfusion⟩) fun _ => trivial

/-- `%s` faults only where the array has neither a NUL nor a precision that stops before its end. -/
theorem string_conversion_ends (d : Directive) (p : List UInt8) :
    Ends (fun _ => True) Accountable (string_conversion d p) :=
  Ends.ite (fun _ => trivial) fun _ => ⟨Fault.noConfusion, Fault.noConfusion⟩

/-- `va_arg(va, char*)`. -/
theorem va_string_ends (va : List (VaArg F)) :
    Ends (fun _ => True) Accountable (va_string va) := by
  unfold va_string
  split
  · trivial
  · exact ⟨Fault.noConfusion, Fault.noConfusion⟩

/-- `va_arg(va, double)`. -/
theorem va_double_ends (va : List (VaArg F)) :
    Ends (fun _ => True) Accountable (va_double va) := by
  unfold va_double
  split
  · trivial
  · exact ⟨Fault.noConfusion, Fault.noConfusion⟩

/-- The `switch` over the specifier: every conversion of integers, characters, strings and pointers
    ends, and a floating one is the parameter `fp`, which is a total function. -/
theorem specifier_text_ends (fp : FloatFormat F) (c : UInt8) (d : Directive)
    (va : List (VaArg F)) :
    Ends (fun _ => True) Accountable (specifier_text fp c d va) := by
  unfold specifier_text
  split_ifs
  · -- integers
    apply (va_word_ends va).bind
    intro r _
    exact (integer_conversion_ends c d r.1).bind fun _ _ => trivial
  · exact (va_double_ends va).bind fun _ _ => trivial
  · exact (va_double_ends va).bind fun _ _ => trivial
  · exact (va_word_ends va).bind fun _ _ => trivial
  · -- strings
    apply (va_string_ends va).bind
    intro r _
    exact (string_conversion_ends d r.1).bind fun _ _ => trivial
  · exact (va_word_ends va).bind fun _ _ => trivial
  · trivial

/-- Every round takes at least one character off the format, so as many rounds as the format has
    characters, and one more, are enough.  This is the termination argument of the loop
    `while (*format)`. -/
theorem render_loop_ends (fp : FloatFormat F) (rounds : ℕ) :
    ∀ (format : List UInt8) (va : List (VaArg F)), format.length < rounds →
      Ends (fun _ => True) Accountable (render_loop fp rounds format va) := by
  induction rounds with
  | zero => exact fun _ _ h => absurd h (Nat.not_lt_zero _)
  | succ rounds ih =>
    intro format va hrounds
    -- the measure: what a round leaves, less the character it looked at, is shorter than the rest
    have htail : ∀ format' : List UInt8, Left format format' → format' ≠ [] →
        format'.tail.length < rounds := by
      intro format' hleft hne
      have hle := hleft.length_le
      have hpos := List.length_pos_of_ne_nil hne
      rw [List.length_tail]
      omega
    rw [render_loop]
    apply (peek_ends format).bind
    intro c hne
    apply Ends.ite
    · exact fun _ => trivial
    · intro _
      apply Ends.ite
      · intro _
        -- a plain character
        exact (ih _ va (htail format (List.suffix_refl _) hne)).bind fun _ _ => trivial
      · intro _
        -- a directive: the conversion is the character the four fields have left
        apply (directive_ends format.tail va).bind
        intro r hleft
        apply (peek_ends r.2.1).bind
        intro c hne'
        apply (specifier_text_ends fp c r.1 r.2.2).bind
        intro t _
        have hlt := htail r.2.1 ((left_tail format).trans hleft) hne'
        exact (ih _ t.2 hlt).bind fun _ _ => trivial

/-- **Every call comes to an end, and no conversion of integers, characters, strings or pointers
    overflows its buffer**, whatever the format, the arguments and the output.  The conversions of
    floating numbers are the parameter `fp`, so nothing is said of the buffer of `_ftoa` and
    `_etoa`. -/
theorem vsnprintf_ends (fp : FloatFormat F) (o : Target τ) (format : List UInt8)
    (va : List (VaArg F)) (w : World τ) :
    _vsnprintf fp o format va w ≠ .error .buffer
      ∧ _vsnprintf fp o format va w ≠ .error .rounds := by
  have hends : Ends (fun _ => True) Accountable (_vsnprintf fp o format va w) := by
    unfold _vsnprintf
    dsimp only
    -- what is printed does not depend on where it is put, so the renderer decides
    rw [format_loop_eq]
    have hloop := render_loop_ends fp _ format va (Nat.lt_succ_self _)
    refine Ends.bind (?_ : Ends (fun _ => True) Accountable _) fun _ _ => trivial
    exact hloop.map fun _ _ => trivial
  exact ⟨fun h => (hends.fault h).1 rfl, fun h => (hends.fault h).2 rfl⟩

/-! ## §2. Reading past the end. -/

/-- A character of the flags.  Which flags were set before makes no difference
    (`flag_char_isSome`). -/
def is_flag (c : UInt8) : Bool := (flag_char Flags.zero c).isSome

/-- What is left behind the flags of a directive. -/
def skip_flags (s : List UInt8) : List UInt8 := s.dropWhile is_flag

/-- What is left behind a number, an asterisk or nothing, as at the width and behind the dot. -/
def skip_amount (s : List UInt8) : List UInt8 :=
  match s with
  | [] => []
  | c :: s => if _is_digit c then (c :: s).dropWhile _is_digit else if c = 0x2A then s else c :: s

/-- What is left behind the precision, with its dot. -/
def skip_precision (s : List UInt8) : List UInt8 :=
  match s with
  | [] => []
  | c :: s => if c = 0x2E then skip_amount s else c :: s

/-- What is left behind the length; `ll` and `hh` are two characters. -/
def skip_length (s : List UInt8) : List UInt8 :=
  match s with
  | [] => []
  | c :: s =>
    if c = 0x6C then (if s.head? = some 0x6C then s.tail else s)
    else if c = 0x68 then (if s.head? = some 0x68 then s.tail else s)
    else if c = 0x74 ∨ c = 0x6A ∨ c = 0x7A then s
    else c :: s

/-- What is left behind the four fields of a directive: the conversion, when the string has one.
    The definition looks at the characters alone, not at arguments or at a state. -/
def skip_fields (s : List UInt8) : List UInt8 :=
  skip_length (skip_precision (skip_amount (skip_flags s)))

/-- **No directive breaks off**: behind the fields of each there is a character for the conversion.
    The recursion is over what `skip_fields` leaves, so `n` bounds the length; `complete_upto_eq`
    says that any bound will do. -/
def complete_upto : (n : ℕ) → List UInt8 → Bool
  | _, [] => true
  | 0, _ :: _ => false
  | n + 1, c :: s =>
    if c = 0x25 then !(skip_fields s).isEmpty && complete_upto n (skip_fields s).tail
    else complete_upto n s

/-- The format has a conversion for each of its `%`.  `"%"`, `"50%"` and `"%-08l"` are not
    complete. -/
def Complete (s : List UInt8) : Prop := complete_upto s.length s = true

instance (s : List UInt8) : Decidable (Complete s) := inferInstanceAs (Decidable (_ = _))

section Fields

variable {s : List UInt8} (t : List UInt8)

/-- Whether a character is a flag does not depend on the flags already set. -/
theorem flag_char_isSome (flags : Flags) (c : UInt8) :
    (flag_char flags c).isSome = is_flag c := by
  unfold is_flag flag_char
  split_ifs <;> rfl

/-- On a format that goes on with a NUL the flags are skipped, and nothing else: the NUL is no
    flag. -/
theorem flags_field_skip (s : List UInt8) :
    ∀ flags, ∃ flags', flags_field (s ++ 0 :: t) flags = .ok (flags', skip_flags s ++ 0 :: t) := by
  induction s with
  | nil => exact fun flags => ⟨flags, rfl⟩
  | cons c s ih =>
    intro flags
    have hflag := flag_char_isSome flags c
    rw [List.cons_append, flags_field, skip_flags, List.dropWhile_cons]
    cases hc : flag_char flags c with
    | some flags' =>
      have hyes : is_flag c = true := by
        rw [← hflag, hc]
        rfl
      rw [if_pos hyes]
      exact ih flags'
    | none =>
      have hno : ¬ is_flag c = true := by
        rw [← hflag, hc]
        exact Bool.false_ne_true
      rw [if_neg hno]
      exact ⟨flags, rfl⟩

/-- `_atoi` skips the digits of the string; the NUL is none. -/
theorem atoi_skip (s : List UInt8) :
    ∀ i, ∃ n, _atoi (s ++ 0 :: t) i = .ok (n, s.dropWhile _is_digit ++ 0 :: t) := by
  induction s with
  | nil => exact fun i => ⟨i, rfl⟩
  | cons c s ih =>
    intro i
    rw [List.cons_append, _atoi, List.dropWhile_cons]
    by_cases hc : _is_digit c = true
    · rw [if_pos hc, if_pos hc]
      exact ih _
    · rw [if_neg hc, if_neg hc]
      exact ⟨i, rfl⟩

/-- Any fault but a read past the end of the format.  Arguments may be wrong in any way. -/
def NotFormat (e : Fault) : Prop := e ≠ .format

/-- The arguments do not make the parser read further. -/
theorem va_word_not_format (va : List (VaArg F)) :
    Ends (fun _ => True) NotFormat (va_word va) := by
  unfold va_word
  split
  · trivial
  · exact Fault.noConfusion

/-- Nor does a negation. -/
theorem negate_not_format (bits : ℕ) (value : ℤ) :
    Ends (fun _ => True) NotFormat (negate bits value) :=
  Ends.ite (fun _ => Fault.noConfusion) fun _ => trivial

/-- The width skips what `skip_amount` does, whether the amount is written out or an argument. -/
theorem width_field_skip (va : List (VaArg F)) (flags : Flags) :
    Ends (fun r => r.2.2.1 = skip_amount s ++ 0 :: t) NotFormat
      (width_field (s ++ 0 :: t) va flags) := by
  unfold width_field
  -- the string may be used up, and then the NUL is the character looked at
  cases s with
  | nil => exact rfl
  | cons c s =>
    show Ends _ _ (if _is_digit c then _ else if c = 0x2A then _ else _)
    rw [skip_amount]
    by_cases hdigit : _is_digit c = true
    · obtain ⟨n, hn⟩ := atoi_skip t (c :: s) 0
      rw [if_pos hdigit, if_pos hdigit, hn]
      exact rfl
    · rw [if_neg hdigit, if_neg hdigit]
      by_cases hstar : c = 0x2A
      · rw [if_pos hstar, if_pos hstar]
        apply (va_word_not_format va).bind
        intro r _
        apply Ends.ite
        · intro _
          exact (negate_not_format 32 _).bind fun _ _ => rfl
        · intro _
          exact rfl
      · rw [if_neg hstar, if_neg hstar]
        exact rfl

/-- The precision skips what `skip_precision` does.  The string may end before the dot or behind
    it. -/
theorem precision_field_skip (va : List (VaArg F)) (flags : Flags) :
    Ends (fun r => r.2.2.1 = skip_precision s ++ 0 :: t) NotFormat
      (precision_field (s ++ 0 :: t) va flags) := by
  unfold precision_field
  cases s with
  | nil => exact rfl
  | cons c s =>
    show Ends _ _ (if c = 0x2E then _ else _)
    rw [skip_precision]
    by_cases hdot : c = 0x2E
    -- behind the dot the amount is read as at the width
    · rw [if_pos hdot, if_pos hdot]
      cases s with
      | nil => exact rfl
      | cons c s =>
        show Ends _ _ (if _is_digit c then _ else if c = 0x2A then _ else _)
        rw [skip_amount]
        by_cases hdigit : _is_digit c = true
        · obtain ⟨n, hn⟩ := atoi_skip t (c :: s) 0
          rw [if_pos hdigit, if_pos hdigit]
          show Ends _ _ (_atoi (c :: s ++ 0 :: t) 0 >>= _)
          rw [hn]
          exact rfl
        · rw [if_neg hdigit, if_neg hdigit]
          by_cases hstar : c = 0x2A
          · rw [if_pos hstar, if_pos hstar]
            exact (va_word_not_format va).bind fun _ _ => rfl
          · rw [if_neg hstar, if_neg hstar]
            exact rfl
    · rw [if_neg hdot, if_neg hdot]
      exact rfl

/-- A second `l` or `h` is skipped, when it is there; the NUL is not one. -/
theorem second_letter_skip {c : UInt8} (hc : c ≠ 0) (s : List UInt8) (flags flags' : Flags) :
    ∃ flags'', (do
      let c' ← peek (s ++ 0 :: t)
      if c' = c then .ok (flags', (s ++ 0 :: t).tail) else .ok (flags, s ++ 0 :: t))
        = (.ok (flags'', (if s.head? = some c then s.tail else s) ++ 0 :: t)
            : Except Fault (Flags × List UInt8)) := by
  cases s with
  | nil => exact ⟨flags, by rw [List.nil_append, peek, ok_bind, if_neg hc.symm]; rfl⟩
  | cons c' s =>
    rw [List.cons_append, peek, ok_bind]
    by_cases heq : c' = c
    · have hhead : (c' :: s).head? = some c := congrArg some heq
      exact ⟨flags', by rw [if_pos heq, if_pos hhead]; rfl⟩
    · have hhead : ¬ (c' :: s).head? = some c := fun h => heq (Option.some.inj h)
      exact ⟨flags, by rw [if_neg heq, if_neg hhead]; rfl⟩

/-- The length skips what `skip_length` does. -/
theorem length_field_skip (s : List UInt8) (flags : Flags) :
    ∃ flags', length_field (s ++ 0 :: t) flags = .ok (flags', skip_length s ++ 0 :: t) := by
  unfold length_field
  cases s with
  | nil => exact ⟨flags, rfl⟩
  | cons c s =>
    rw [List.cons_append, peek, ok_bind, skip_length]
    by_cases hl : c = 0x6C
    · rw [if_pos hl, if_pos hl]
      exact second_letter_skip t (by decide) s _ _
    · rw [if_neg hl, if_neg hl]
      by_cases hh : c = 0x68
      · rw [if_pos hh, if_pos hh]
        exact second_letter_skip t (by decide) s _ _
      · rw [if_neg hh, if_neg hh]
        by_cases htjz : c = 0x74 ∨ c = 0x6A ∨ c = 0x7A
        · exact ⟨_, by rw [if_pos htjz, if_pos htjz]; rfl⟩
        · exact ⟨_, by rw [if_neg htjz, if_neg htjz]; rfl⟩

/-- **The fields of a directive are skipped up to the NUL at most**, whatever the arguments are.
    `s` is the string behind the `%` and `t` what lies in memory behind its NUL. -/
theorem directive_skip (s : List UInt8) (va : List (VaArg F)) :
    Ends (fun r => r.2.1 = skip_fields s ++ 0 :: t) NotFormat (directive (s ++ 0 :: t) va) := by
  unfold directive
  obtain ⟨flags, hflags⟩ := flags_field_skip t s Flags.zero
  rw [hflags, ok_bind]
  -- each field starts on what the one before it left, with the NUL still behind it
  apply (width_field_skip t va flags).bind
  rintro ⟨flags₂, width, format₂, va₂⟩ h₂
  obtain rfl : format₂ = skip_amount (skip_flags s) ++ 0 :: t := h₂
  apply (precision_field_skip t va₂ flags₂).bind
  rintro ⟨flags₃, precision, format₃, va₃⟩ h₃
  obtain rfl : format₃ = skip_precision (skip_amount (skip_flags s)) ++ 0 :: t := h₃
  obtain ⟨flags₄, h₄⟩ := length_field_skip t (skip_precision (skip_amount (skip_flags s))) flags₃
  show Ends _ _ (length_field _ flags₃ >>= _)
  rw [h₄]
  exact rfl

end Fields

/-- Skipping only takes characters off the front. -/
theorem skip_fields_suffix (s : List UInt8) : skip_fields s <:+ s := by
  have hamount : ∀ s, skip_amount s <:+ s := by
    intro s
    cases s with
    | nil => exact List.suffix_refl _
    | cons c s =>
      rw [skip_amount]
      split_ifs
      · exact List.dropWhile_suffix _
      · exact List.suffix_cons c s
      · exact List.suffix_refl _
  have hprecision : ∀ s, skip_precision s <:+ s := by
    intro s
    cases s with
    | nil => exact List.suffix_refl _
    | cons c s =>
      rw [skip_precision]
      split_ifs
      · exact (hamount s).trans (List.suffix_cons c s)
      · exact List.suffix_refl _
  have hlength : ∀ s, skip_length s <:+ s := by
    intro s
    cases s with
    | nil => exact List.suffix_refl _
    | cons c s =>
      rw [skip_length]
      split_ifs
      · exact (List.tail_suffix s).trans (List.suffix_cons c s)
      · exact List.suffix_cons c s
      · exact (List.tail_suffix s).trans (List.suffix_cons c s)
      · exact List.suffix_cons c s
      · exact List.suffix_cons c s
      · exact List.suffix_refl _
  exact ((hlength _).trans (hprecision _)).trans ((hamount _).trans (List.dropWhile_suffix _))

/-- The bound of the recursion does not matter, as long as it is one. -/
theorem complete_upto_eq (n : ℕ) :
    ∀ s : List UInt8, s.length ≤ n → complete_upto n s = complete_upto s.length s := by
  induction n using Nat.strong_induction_on with
  | _ n ih =>
    intro s hlen
    cases s with
    | nil => cases n <;> rfl
    | cons c s =>
      obtain ⟨n, rfl⟩ := Nat.exists_eq_succ_of_ne_zero
        (by rw [List.length_cons] at hlen; omega : n ≠ 0)
      rw [List.length_cons] at hlen ⊢
      -- the recursive call is on a shorter string, for either bound
      have htail : (skip_fields s).tail.length ≤ s.length :=
        ((List.tail_suffix _).trans (skip_fields_suffix s)).length_le
      rw [complete_upto, complete_upto, ih n (Nat.lt_succ_self n) s (by omega),
          ih n (Nat.lt_succ_self n) _ (by omega)]
      by_cases hlt : s.length < n + 1
      · rw [ih s.length hlt _ htail]
      · omega

/-- A character outside a directive is read as it stands. -/
theorem complete_cons {c : UInt8} (hc : c ≠ 0x25) (s : List UInt8) :
    Complete (c :: s) ↔ Complete s := by
  unfold Complete
  rw [List.length_cons, complete_upto, if_neg hc]

/-- A `%` needs a character behind its fields, and what follows that has to be complete. -/
theorem complete_directive (s : List UInt8) :
    Complete (0x25 :: s) ↔ skip_fields s ≠ [] ∧ Complete (skip_fields s).tail := by
  have htail : (skip_fields s).tail.length ≤ s.length :=
    ((List.tail_suffix _).trans (skip_fields_suffix s)).length_le
  unfold Complete
  rw [List.length_cons, complete_upto, if_pos rfl, complete_upto_eq _ _ htail, Bool.and_eq_true,
      Bool.not_eq_true', List.isEmpty_eq_false_iff]

/-- No conversion touches the format. -/
theorem specifier_text_not_format (fp : FloatFormat F) (c : UInt8) (d : Directive)
    (va : List (VaArg F)) : Ends (fun _ => True) NotFormat (specifier_text fp c d va) := by
  have hdouble : Ends (fun _ => True) NotFormat (va_double va) := by
    unfold va_double
    split
    · trivial
    · exact Fault.noConfusion
  have hstring : Ends (fun _ => True) NotFormat (va_string va) := by
    unfold va_string
    split
    · trivial
    · exact Fault.noConfusion
  unfold specifier_text
  split_ifs
  · apply (va_word_not_format va).bind
    intro r _
    have hinteger : Ends (fun _ => True) NotFormat (integer_conversion c d r.1) :=
      Ends.ite (fun _ => Fault.noConfusion) fun _ => trivial
    exact hinteger.bind fun _ _ => trivial
  · exact hdouble.bind fun _ _ => trivial
  · exact hdouble.bind fun _ _ => trivial
  · exact (va_word_not_format va).bind fun _ _ => trivial
  · apply hstring.bind
    intro r _
    have hconvert : Ends (fun _ => True) NotFormat (string_conversion d r.1) :=
      Ends.ite (fun _ => trivial) fun _ => Fault.noConfusion
    exact hconvert.bind fun _ _ => trivial
  · exact (va_word_not_format va).bind fun _ _ => trivial
  · trivial

/-- A complete format is read to its NUL at most: by induction on the rounds, along the string, the
    NUL is met between two directives, where the loop stops. -/
theorem render_loop_complete (fp : FloatFormat F) (t : List UInt8) (rounds : ℕ) :
    ∀ (s : List UInt8) (va : List (VaArg F)), (∀ c ∈ s, c ≠ 0) → Complete s →
      Ends (fun _ => True) NotFormat (render_loop fp rounds (s ++ 0 :: t) va) := by
  induction rounds with
  | zero => exact fun _ _ _ _ => Fault.noConfusion
  | succ rounds ih =>
    intro s va hs hcomplete
    cases s with
    | nil => trivial
    | cons c s =>
      have hc := hs c List.mem_cons_self
      rw [List.cons_append, render_loop, peek, ok_bind, if_neg hc]
      by_cases hplain : c ≠ 0x25
      · rw [if_pos hplain]
        rw [complete_cons hplain] at hcomplete
        exact (ih s va (fun x hx => hs x (List.mem_cons_of_mem c hx)) hcomplete).bind
          fun _ _ => trivial
      · rw [if_neg hplain]
        rw [not_not.mp hplain, complete_directive] at hcomplete
        obtain ⟨hne, hrest⟩ := hcomplete
        -- the character behind the fields is part of the format
        obtain ⟨c', s', hskip⟩ := List.exists_cons_of_ne_nil hne
        rw [hskip] at hrest
        have hs' : ∀ x ∈ s', x ≠ 0 := by
          intro x hx
          apply hs x (List.mem_cons_of_mem c ((skip_fields_suffix s).subset _))
          rw [hskip]
          exact List.mem_cons_of_mem c' hx
        apply (directive_skip t s va).bind
        rintro ⟨d, format, va'⟩ hr
        obtain rfl : format = c' :: s' ++ 0 :: t := by
          rw [← hskip]
          exact hr
        apply (specifier_text_not_format fp c' d va').bind
        intro x _
        exact (ih s' x.2 hs' hrest).bind fun _ _ => trivial

/-- A format that breaks off does not come out at all.  Behind the NUL the memory of the string is
    used up, so the next read is past its end. -/
theorem render_loop_incomplete (fp : FloatFormat F) (rounds : ℕ) :
    ∀ (s : List UInt8) (va : List (VaArg F)), (∀ c ∈ s, c ≠ 0) → ¬ Complete s →
      Ends (fun _ => False) (fun _ => True) (render_loop fp rounds (s ++ [0]) va) := by
  induction rounds with
  | zero => exact fun _ _ _ _ => trivial
  | succ rounds ih =>
    intro s va hs hincomplete
    cases s with
    | nil => exact absurd rfl hincomplete
    | cons c s =>
      have hc := hs c List.mem_cons_self
      rw [List.cons_append, render_loop, peek, ok_bind, if_neg hc]
      by_cases hplain : c ≠ 0x25
      · rw [if_pos hplain]
        rw [complete_cons hplain] at hincomplete
        exact (ih s va (fun x hx => hs x (List.mem_cons_of_mem c hx)) hincomplete).bind
          fun _ h => h
      · rw [if_neg hplain]
        rw [not_not.mp hplain, complete_directive] at hincomplete
        apply ((directive_skip [] s va).mono (fun _ h => h) fun _ _ => trivial).bind
        rintro ⟨d, format, va'⟩ hr
        obtain rfl : format = skip_fields s ++ [0] := hr
        show Ends _ _ (peek (skip_fields s ++ [0]) >>= _)
        by_cases hnil : skip_fields s = []
        · -- the NUL is taken for a conversion, and nothing is left behind it
          rw [hnil, List.nil_append, peek, ok_bind]
          apply ((specifier_text_not_format fp 0 d va').mono (fun _ h => h)
            fun _ _ => trivial).bind
          intro x _
          cases rounds with
          | zero => trivial
          | succ rounds => trivial
        -- this directive is whole, so a later one breaks off
        · obtain ⟨c', s', hskip⟩ := List.exists_cons_of_ne_nil hnil
          have hs' : ∀ x ∈ s', x ≠ 0 := by
            intro x hx
            apply hs x (List.mem_cons_of_mem c ((skip_fields_suffix s).subset _))
            rw [hskip]
            exact List.mem_cons_of_mem c' hx
          have hrest : ¬ Complete s' := by
            rw [hskip] at hincomplete
            exact fun h => hincomplete ⟨List.cons_ne_nil c' s', h⟩
          rw [hskip, List.cons_append, peek, ok_bind]
          apply ((specifier_text_not_format fp c' d va').mono (fun _ h => h)
            fun _ _ => trivial).bind
          intro x _
          exact (ih s' x.2 hs' hrest).bind fun _ h => h

/-- **A format is read past its end exactly when it breaks off inside a directive.**  A complete one
    is not, whatever the arguments and whatever lies behind its NUL; no call with one that breaks
    off goes through when its array ends at the NUL. -/
theorem format_end (fp : FloatFormat F) {s : List UInt8} (hs : ∀ c ∈ s, c ≠ 0) :
    (Complete s → ∀ {τ : Type} (o : Target τ) (t : List UInt8) (va : List (VaArg F)) (w : World τ),
        _vsnprintf fp o (s ++ 0 :: t) va w ≠ .error .format)
      ∧ (¬ Complete s → ∀ {τ : Type} (o : Target τ) (va : List (VaArg F)) (w : World τ)
          (r : ℤ × World τ), _vsnprintf fp o (s ++ [0]) va w ≠ .ok r) := by
  constructor
  · intro hcomplete τ o t va w
    -- the rounds `_vsnprintf` starts with are its length and one, but any number would do
    have hloop := render_loop_complete fp t ((s ++ 0 :: t).length + 1) s va hs hcomplete
    have hends : Ends (fun _ => True) NotFormat (_vsnprintf fp o (s ++ 0 :: t) va w) := by
      unfold _vsnprintf
      dsimp only
      rw [format_loop_eq]
      refine Ends.bind (?_ : Ends (fun _ => True) NotFormat _) fun _ _ => trivial
      exact hloop.map fun _ _ => trivial
    exact fun h => hends.fault h rfl
  · intro hincomplete τ o va w r
    have hloop := render_loop_incomplete fp ((s ++ [0]).length + 1) s va hs hincomplete
    have hends : Ends (fun _ => False) (fun _ => True) (_vsnprintf fp o (s ++ [0]) va w) := by
      unfold _vsnprintf
      dsimp only
      rw [format_loop_eq]
      refine Ends.bind (?_ : Ends (fun _ => False) (fun _ => True) _) fun _ h => h.elim
      exact hloop.map fun _ h => h
    exact fun h => hends.value h

/-- `printf("5%")` does not go through: the NUL is the conversion, and `format++` is past the
    array. -/
theorem format_end_percent :
    ¬ ∃ r, _vsnprintf (⟨fun _ _ _ _ => [], fun _ _ _ _ => []⟩ : FloatFormat Unit)
      (⟨._out_char, 1, SIZE_MAX, fun t _ => t⟩ : Target Unit) ([0x35, 0x25] ++ [0]) []
      ⟨⟨fun _ => 0, []⟩, ()⟩ = .ok r := by
  rintro ⟨r, hr⟩
  exact (format_end _ (by simp)).2 (by decide) _ _ _ r hr

end Hippos.Libc.Printf
