/-
  Hippos.Libc.Render — the text of a format, whatever it is written to.

  Every function of `printf.c` that takes an output function writes a text to it which does not
  depend on it.  `render` is that text, computed without one; `_vsnprintf` writes it, character by
  character.  What a buffer then holds, and what a character function is handed, follows.

  So there are two halves.  The first goes through the conversions and says which text each writes,
  or which fault it ends with; strings need the most, since their length is counted before they are
  written, with other limits.  The second says what the output functions do with a text: one hands
  it on without its NULs, one stores what fits, and the terminating NUL is put behind it or over its
  last character.

  Main results:
    * `convert_string_iff` — what `%s` shows, and when it reads past its argument.
    * `specifier_eq`, `format_loop_eq` — a directive, and a format, write their text.
    * `holds_filled` — what a buffer holds in the end.
    * `one_text` — the four interfaces agree on one text, or on one fault.
-/
import Hippos.Libc.Integer

namespace Hippos.Libc.Printf

open Hippos.Lib

variable {τ F : Type}

/-! ## §1. Strings. -/

/-- A string argument can be read as far as `k` characters need: up to a NUL, or past the `k`. -/
def Readable (p : List UInt8) (k : ℕ) : Prop := 0 ∈ p ∨ k < p.length

instance (p : List UInt8) (k : ℕ) : Decidable (Readable p k) :=
  inferInstanceAs (Decidable (_ ∨ _))

/-- The characters before the first NUL. -/
def before_nul (p : List UInt8) : List UInt8 := p.takeWhile (· ≠ 0)

/-- A NUL ends a string. -/
theorem before_nul_cons_nul (p : List UInt8) : before_nul (0 :: p) = [] := rfl

/-- No other character does. -/
theorem before_nul_cons {c : UInt8} (hc : c ≠ 0) (p : List UInt8) :
    before_nul (c :: p) = c :: before_nul p := List.takeWhile_cons_of_pos (by simpa using hc)

/-- One character that is no NUL is one less to read. -/
theorem readable_cons {c : UInt8} (hc : c ≠ 0) (p : List UInt8) (k : ℕ) :
    Readable (c :: p) (k + 1) ↔ Readable p k := by
  unfold Readable
  rw [List.mem_cons, List.length_cons, Nat.add_lt_add_iff_right]
  constructor
  · intro h
    rcases h with (h | h) | h
    · exact absurd h.symm hc
    · exact Or.inl h
    · exact Or.inr h
  · intro h
    rcases h with h | h
    · exact Or.inl (Or.inr h)
    · exact Or.inr h

/-- No character is needed, but the one there is looked at. -/
theorem readable_zero {c : UInt8} (p : List UInt8) : Readable (c :: p) 0 :=
  Or.inr (Nat.zero_lt_succ _)

/-- A NUL is as far as one has to read. -/
theorem readable_nul (p : List UInt8) (k : ℕ) : Readable (0 :: p) k := Or.inl List.mem_cons_self

/-- `_strnlen_s` counts up to the NUL or the limit, and looks at the character there. -/
theorem strnlen_loop_eq (p : List UInt8) :
    ∀ k, strnlen_loop p k
      = if Readable p k then .ok (min k (before_nul p).length) else .error .string := by
  induction p with
  | nil =>
    intro k
    have hnot : ¬ Readable [] k := by simp [Readable]
    rw [strnlen_loop, if_neg hnot]
  | cons c p ih =>
    intro k
    rw [strnlen_loop]
    by_cases hc : c = 0
    · rw [if_neg fun h => h.1 hc, hc, if_pos (readable_nul p k), before_nul_cons_nul,
          List.length_nil, Nat.min_zero]
    · cases k with
      | zero => rw [if_neg fun h => h.2 rfl, if_pos (readable_zero p), Nat.zero_min]
      | succ k =>
        rw [if_pos ⟨hc, Nat.succ_ne_zero k⟩, Nat.add_sub_cancel, ih, before_nul_cons hc,
            List.length_cons, Nat.succ_min_succ]
        by_cases hr : Readable p k
        · rw [if_pos hr, if_pos ((readable_cons hc p k).mpr hr), ok_bind]
        · rw [if_neg hr, if_neg (mt (readable_cons hc p k).mp hr), error_bind]

/-- With a precision the string is written up to the NUL or the limit.  The limit is tested after
    the character, so one more is read. -/
theorem put_string_limited (o : Target τ) (p : List UInt8) :
    ∀ (k : ℕ) (s : Sink τ), put_string o true p k s
      = if Readable p k then .ok (((before_nul p).take k).foldl (put o) s)
        else .error .string := by
  induction p with
  | nil =>
    intro k s
    have hnot : ¬ Readable [] k := by simp [Readable]
    rw [put_string, if_neg hnot]
  | cons c p ih =>
    intro k s
    rw [put_string]
    by_cases hc : c = 0
    · rw [if_neg fun h => h.1 hc, hc, if_pos (readable_nul p k), before_nul_cons_nul,
          List.take_nil]
      rfl
    · cases k with
      | zero =>
        rw [if_neg (by simp), if_pos (readable_zero p), List.take_zero]
        rfl
      | succ k =>
        rw [if_pos ⟨hc, Or.inr (Nat.succ_ne_zero k)⟩, Nat.add_sub_cancel, ih, before_nul_cons hc,
            List.take_succ_cons, List.foldl_cons]
        simp only [readable_cons hc]

/-- Without one it has to have a NUL. -/
theorem put_string_whole (o : Target τ) (p : List UInt8) :
    ∀ (k : ℕ) (s : Sink τ), put_string o false p k s
      = if 0 ∈ p then .ok ((before_nul p).foldl (put o) s) else .error .string := by
  induction p with
  | nil =>
    intro k s
    rw [put_string, if_neg List.not_mem_nil]
  | cons c p ih =>
    intro k s
    rw [put_string]
    by_cases hc : c = 0
    · rw [if_neg fun h => h.1 hc, hc, if_pos List.mem_cons_self, before_nul_cons_nul]
      rfl
    · have hmem : 0 ∈ c :: p ↔ 0 ∈ p := by
        rw [List.mem_cons]
        exact or_iff_right fun h => hc h.symm
      rw [if_pos ⟨hc, Or.inl rfl⟩, ih, before_nul_cons hc, List.foldl_cons]
      simp only [hmem]

/-! ## §2. Texts of the conversions. -/

/-- A text that is taken to have `len` characters, in a field of `width`. -/
def justified (text : List UInt8) (len width : ℕ) (left : Bool) : List UInt8 :=
  (if !left then List.replicate (width - len) 0x20 else []) ++ text
    ++ (if left then List.replicate (width - len) 0x20 else [])

/-- Padding before and after a text. -/
theorem foldl_justified (o : Target τ) (s : Sink τ) (text : List UInt8) (len width : ℕ)
    (left : Bool) :
    (justified text len width left).foldl (put o) s
      = let s := if !left then put_spaces o s (width - len) else s
        let s := text.foldl (put o) s
        if left then put_spaces o s (width - len) else s := by
  unfold justified
  cases left <;> simp [put_spaces_eq]

/-- The text of `%c`. -/
def char_text (d : Directive) (v : UInt64) : List UInt8 :=
  justified [v.toUInt8] 1 d.width d.flags.left

/-- A character conversion writes its text. -/
theorem convert_char_eq (o : Target τ) (s : Sink τ) (d : Directive) (v : UInt64) :
    convert_char o s d v = (char_text d v).foldl (put o) s := by
  rw [char_text, foldl_justified]
  rfl

/-- How many characters `_strnlen_s` may count. -/
def count_limit (d : Directive) : ℕ := if d.precision ≠ 0 then d.precision else SIZE_MAX

/-- The length the padding goes by. -/
def string_length (d : Directive) (p : List UInt8) : ℕ :=
  let l := min (count_limit d) (before_nul p).length % 2 ^ 32
  if d.flags.precision then min l d.precision else l

/-- What is written of the string. -/
def shown (d : Directive) (p : List UInt8) : List UInt8 :=
  if d.flags.precision then (before_nul p).take d.precision else before_nul p

/-- **No character past the end of the string argument is read.** -/
def StringInside (d : Directive) (p : List UInt8) : Prop :=
  Readable p (count_limit d) ∧ if d.flags.precision then Readable p d.precision else 0 ∈ p

instance (d : Directive) (p : List UInt8) : Decidable (StringInside d p) := by
  unfold StringInside
  split <;> infer_instance

/-- The text of `%s`. -/
def string_text (d : Directive) (p : List UInt8) : List UInt8 :=
  justified (shown d p) (string_length d p) d.width d.flags.left

/-- Both ways to write a string. -/
theorem put_string_eq (o : Target τ) (s : Sink τ) (d : Directive) (p : List UInt8) :
    put_string o d.flags.precision p d.precision s
      = if (if d.flags.precision then Readable p d.precision else 0 ∈ p)
        then .ok ((shown d p).foldl (put o) s) else .error .string := by
  unfold shown
  cases d.flags.precision with
  | true => simp [put_string_limited]
  | false => simp [put_string_whole]

/-- **A string conversion writes its text, or reads past the end of the argument**: when the
    characters are counted, or when they are written. -/
theorem convert_string_eq (o : Target τ) (s : Sink τ) (d : Directive) (p : List UInt8) :
    convert_string o s d p = if StringInside d p then .ok ((string_text d p).foldl (put o) s)
      else .error .string := by
  have hlen : ∀ l : ℕ, (if d.flags.precision then (if l < d.precision then l else d.precision)
      else l) = if d.flags.precision then min l d.precision else l := by
    intro l
    split_ifs <;> omega
  unfold convert_string _strnlen_s
  rw [strnlen_loop_eq]
  show (if Readable p (count_limit d) then _ else _) >>= _ >>= _ = _
  by_cases hcount : Readable p (count_limit d)
  · rw [if_pos hcount, ok_bind, ok_bind]
    show (put_string o d.flags.precision p d.precision _ >>= _) = _
    rw [put_string_eq]
    by_cases hwrite : (if d.flags.precision then Readable p d.precision else 0 ∈ p)
    · have hin : StringInside d p := ⟨hcount, hwrite⟩
      rw [if_pos hwrite, if_pos hin, ok_bind, hlen, string_text, foldl_justified]
      rfl
    · have hout : ¬ StringInside d p := fun h => hwrite h.2
      rw [if_neg hwrite, if_neg hout, error_bind]
  · rw [if_neg hcount, if_neg fun h => hcount h.1, error_bind, error_bind]

/-- A string is no longer than its array. -/
theorem before_nul_length_le (p : List UInt8) : (before_nul p).length ≤ p.length :=
  (List.takeWhile_sublist _).length_le

/-- The padding goes by what is shown, for strings that an `unsigned int` can count. -/
theorem string_length_eq {d : Directive} (hprec : d.flags.precision = false → d.precision = 0)
    {p : List UInt8} (hlen : p.length < 2 ^ 32) : string_length d p = (shown d p).length := by
  have hle := before_nul_length_le p
  unfold string_length shown count_limit SIZE_MAX
  dsimp only
  cases hp : d.flags.precision with
  | true =>
    rw [if_pos rfl, if_pos rfl, List.length_take]
    split_ifs <;> omega
  | false =>
    rw [hprec hp, if_neg Bool.false_ne_true, if_neg Bool.false_ne_true, if_neg (by decide)]
    omega

/-- A character array without a NUL is read safely only up to the one before its last. -/
theorem stringInside_iff {d : Directive} (hprec : d.flags.precision = false → d.precision = 0)
    {p : List UInt8} (hlen : p.length < 2 ^ 32) :
    StringInside d p ↔ 0 ∈ p
      ∨ d.flags.precision = true ∧ 0 < d.precision ∧ d.precision < p.length := by
  unfold StringInside count_limit SIZE_MAX Readable
  cases hp : d.flags.precision with
  | true =>
    rw [if_pos rfl]
    -- a precision of 0 counts without a limit
    by_cases h0 : d.precision = 0
    · rw [if_neg (by simp [h0]), h0]
      simp only [Nat.lt_irrefl, false_and, and_false, or_false]
      constructor
      · rintro ⟨h | h, -⟩
        · exact h
        · omega
      · exact fun h => ⟨.inl h, .inl h⟩
    · rw [if_pos h0, and_self]
      simp only [true_and]
      exact or_congr_right ⟨fun h => ⟨Nat.pos_of_ne_zero h0, h⟩, fun h => h.2⟩
  | false =>
    rw [hprec hp, if_neg (by decide), if_neg Bool.false_ne_true]
    simp only [Bool.false_eq_true, false_and, or_false]
    exact ⟨fun h => h.2, fun h => ⟨.inl h, h⟩⟩

/-- **Strings.**  A conversion shows the characters before the NUL, as many as the precision allows,
    in the field.  Without a NUL the precision has to be positive and less than the length of the
    array, or a character behind it is read.  The array is shorter than 2^32, which an
    `unsigned int` can count; without a precision its value is 0, as the parser leaves it. -/
theorem convert_string_iff (o : Target τ) (s : Sink τ) (d : Directive) (p : List UInt8)
    (hprec : d.flags.precision = false → d.precision = 0) (hlen : p.length < 2 ^ 32) :
    convert_string o s d p
      = if 0 ∈ p ∨ d.flags.precision = true ∧ 0 < d.precision ∧ d.precision < p.length then
          .ok ((justified (shown d p) (shown d p).length d.width d.flags.left).foldl (put o) s)
        else .error .string := by
  rw [convert_string_eq, string_text, string_length_eq hprec hlen]
  exact if_congr (stringInside_iff hprec hlen) rfl rfl

/-- `printf("%.3s", p)` for three characters `p` reads the character behind them. -/
theorem convert_string_three :
    convert_string (⟨._out_null, 0, 0, fun t _ => t⟩ : Target Unit) ⟨0, ⟨⟨fun _ => 0, []⟩, ()⟩⟩
      ⟨{ Flags.zero with precision := true }, 0, 3⟩ [0x61, 0x62, 0x63] = .error .string := by
  rw [convert_string_iff _ _ _ _ (fun h => Bool.noConfusion h) (by decide), if_neg (by decide)]

/-! ## §3. The text of a format. -/

/-- The text of an integer conversion, undefined for one argument. -/
def integer_conversion (c : UInt8) (d : Directive) (v : UInt64) : Except Fault (List UInt8) :=
  if Extreme c d.flags v then .error .overflow else .ok (conversion_text c d v)

/-- Any other argument has its text. -/
theorem integer_conversion_eq {c : UInt8} {d : Directive} {v : UInt64}
    (h : ¬ Extreme c d.flags v) : integer_conversion c d v = .ok (conversion_text c d v) := if_neg h

/-- An integer conversion has a text but for one argument. -/
theorem integer_conversion_ok_iff (c : UInt8) (d : Directive) (v : UInt64) :
    (∃ s, integer_conversion c d v = .ok s) ↔ ¬ Extreme c d.flags v := by
  by_cases h : Extreme c d.flags v
  · rw [integer_conversion, if_pos h]
    exact iff_of_false (not_ok_error _) fun hn => hn h
  · rw [integer_conversion_eq h]
    exact iff_of_true ⟨_, rfl⟩ h

/-- The text of a string conversion, if its argument is not read past its end. -/
def string_conversion (d : Directive) (p : List UInt8) : Except Fault (List UInt8) :=
  if StringInside d p then .ok (string_text d p) else .error .string

/-- The text of `%p`. -/
def pointer_text (d : Directive) (v : UInt64) : List UInt8 :=
  integer_text v.toNat false 16 d.precision POINTER_WIDTH
    { d.flags with zeropad := true, uppercase := true }

/-- `specifier` without an output: the text, and the arguments that are left. -/
def specifier_text (fp : FloatFormat F) (c : UInt8) (d : Directive) (va : List (VaArg F)) :
    Except Fault (List UInt8 × List (VaArg F)) :=
  if c = 0x64 ∨ c = 0x69 ∨ c = 0x75 ∨ c = 0x78 ∨ c = 0x58 ∨ c = 0x6F ∨ c = 0x62 then do
    let (v, va) ← va_word va
    let text ← integer_conversion c d v
    .ok (text, va)
  else if c = 0x66 ∨ c = 0x46 then do
    let (v, va) ← va_double va
    .ok (fp._ftoa v d.precision d.width (fixed_flags d.flags c), va)
  else if c = 0x65 ∨ c = 0x45 ∨ c = 0x67 ∨ c = 0x47 then do
    let (v, va) ← va_double va
    .ok (fp._etoa v d.precision d.width (exponent_flags d.flags c), va)
  else if c = 0x63 then do
    let (v, va) ← va_word va
    .ok (char_text d v, va)
  else if c = 0x73 then do
    let (p, va) ← va_string va
    let text ← string_conversion d p
    .ok (text, va)
  else if c = 0x70 then do
    let (v, va) ← va_word va
    .ok (pointer_text d v, va)
  else .ok ([c], va)

/-- Output that is written where a text is given. -/
def write (o : Target τ) (s : Sink τ) (r : Except Fault (List UInt8 × List (VaArg F))) :
    Except Fault (Sink τ × List (VaArg F)) :=
  r.map fun (text, va) => (text.foldl (put o) s, va)

/-- **A directive writes its text**, or faults where its text does.  The cases are those of the
    `switch`; each has its own equation, so that only the arguments are left to be compared here. -/
theorem specifier_eq (fp : FloatFormat F) (o : Target τ) (s : Sink τ) (c : UInt8) (d : Directive)
    (va : List (VaArg F)) : specifier fp o s c d va = write o s (specifier_text fp c d va) := by
  unfold specifier specifier_text
  split_ifs
  · -- integers
    cases va_word va with
    | error e => rfl
    | ok r =>
      simp only [ok_bind, convert_integer_eq, integer_conversion]
      split_ifs <;> rfl
  · -- floating point
    cases va_double va <;> rfl
  · cases va_double va <;> rfl
  · -- a character
    cases va_word va with
    | error e => rfl
    | ok r =>
      simp only [ok_bind, convert_char_eq]
      rfl
  · -- a string
    cases va_string va with
    | error e => rfl
    | ok r =>
      simp only [ok_bind, convert_string_eq, string_conversion]
      split_ifs <;> rfl
  · -- a pointer
    cases va_word va with
    | error e => rfl
    | ok r =>
      simp only [ok_bind, convert_pointer_eq]
      rfl
  · rfl

/-- `format_loop` without an output. -/
def render_loop (fp : FloatFormat F) :
    (rounds : ℕ) → (format : List UInt8) → List (VaArg F) → Except Fault (List UInt8)
  | 0, _, _ => .error .rounds
  | rounds + 1, format, va => do
    let c ← peek format
    if c = 0 then .ok []
    else if c ≠ 0x25 then do
      let text ← render_loop fp rounds format.tail va
      .ok (c :: text)
    else do
      let (d, format, va) ← directive format.tail va
      let c ← peek format
      let (text, va) ← specifier_text fp c d va
      let rest ← render_loop fp rounds format.tail va
      .ok (text ++ rest)

/-- The text of a format. -/
def render (fp : FloatFormat F) (format : List UInt8) (va : List (VaArg F)) :
    Except Fault (List UInt8) := render_loop fp (format.length + 1) format va

/-- **The main loop writes the text of the format.**  By induction on the rounds: what the loop
    outputs through the target is the text, character by character, and the sink is where that
    leaves it. -/
theorem format_loop_eq (fp : FloatFormat F) (o : Target τ) (rounds : ℕ) :
    ∀ (format : List UInt8) (va : List (VaArg F)) (s : Sink τ),
      format_loop fp o rounds format va s
        = (render_loop fp rounds format va).map fun text => text.foldl (put o) s := by
  induction rounds with
  | zero => intro format va s; rfl
  | succ rounds ih =>
    intro format va s
    rw [format_loop, render_loop]
    cases peek format with
    | error e => rfl
    | ok c =>
      rw [ok_bind, ok_bind]
      by_cases hend : c = 0
      · rw [if_pos hend, if_pos hend]
        rfl
      · rw [if_neg hend, if_neg hend]
        by_cases hplain : c ≠ 0x25
        · -- a character of the format itself
          rw [if_pos hplain, if_pos hplain, ih]
          cases render_loop fp rounds format.tail va <;> rfl
        · rw [if_neg hplain, if_neg hplain]
          cases directive format.tail va with
          | error e => rfl
          | ok r =>
            rw [ok_bind, ok_bind]
            dsimp only
            cases peek r.2.1 with
            | error e => rfl
            | ok c =>
              rw [ok_bind, ok_bind, specifier_eq]
              cases specifier_text fp c r.1 r.2.2 with
              | error e => rfl
              | ok t =>
                show format_loop fp o rounds r.2.1.tail t.2 (t.1.foldl (put o) s) = _
                rw [ih, ok_bind]
                cases render_loop fp rounds r.2.1.tail t.2 with
                | error e => rfl
                | ok rest =>
                  rw [ok_bind]
                  show Except.ok (rest.foldl (put o) (t.1.foldl (put o) s))
                    = Except.ok ((t.1 ++ rest).foldl (put o) s)
                  rw [List.foldl_append]

/-! ## §4. Where the text goes. -/

/-- The output function changes the world alone. -/
theorem world_put (o : Target τ) (s : Sink τ) (c : UInt8) :
    (put o s c).world = o.call c s.idx s.world := rfl

/-- `_out_null` changes nothing. -/
theorem foldl_put_null (o : Target τ) (h : o.out = ._out_null) (text : List UInt8) :
    ∀ s, (text.foldl (put o) s).world = s.world := by
  induction text with
  | nil => intro s; rfl
  | cons c text ih =>
    intro s
    rw [List.foldl_cons, ih, world_put, Target.call, h]

/-- A NUL is not handed on. -/
theorem hand_on_nul (fct : τ → UInt8 → τ) (w : World τ) : hand_on fct 0 w = w := rfl

/-- Any other character is. -/
theorem hand_on_eq (fct : τ → UInt8 → τ) {c : UInt8} (hc : c ≠ 0) (w : World τ) :
    hand_on fct c w = { w with console := fct w.console c } := if_pos hc

/-- `putchar`, or the function of `fctprintf`, gets every character but NUL. -/
theorem foldl_put_handed (o : Target τ) (h : o.out = ._out_char ∨ o.out = ._out_fct)
    (text : List UInt8) :
    ∀ s, (text.foldl (put o) s).world
      = { s.world with console := (text.filter (· ≠ 0)).foldl o.fct s.world.console } := by
  have hcall : ∀ c idx (w : World τ), o.call c idx w = hand_on o.fct c w := by
    intro c idx w
    unfold Target.call
    rcases h with h | h <;> rw [h]
  induction text with
  | nil => intro s; rfl
  | cons c text ih =>
    intro s
    rw [List.foldl_cons, ih, world_put, hcall]
    by_cases hc : c = 0
    · rw [hc, hand_on_nul, List.filter_cons_of_neg (by decide)]
    · rw [hand_on_eq _ hc, List.filter_cons_of_pos (by simpa using hc), List.foldl_cons]

/-- A buffer gets the characters that fit.  The index goes on for those that do not. -/
theorem foldl_put_buffer (o : Target τ) (h : o.out = ._out_buffer) (text : List UInt8) :
    ∀ s, (text.foldl (put o) s).world
      = { s.world with
          memory := s.world.memory.stores (o.buffer + s.idx) (text.take (o.maxlen - s.idx)) } := by
  have hcall : ∀ c idx (w : World τ), o.call c idx w = _out_buffer c o.buffer idx o.maxlen w := by
    intro c idx w
    rw [Target.call, h]
  induction text with
  | nil =>
    intro s
    rw [List.take_nil]
    rfl
  | cons c text ih =>
    intro s
    rw [List.foldl_cons, ih, world_put, hcall, _out_buffer, idx_put]
    by_cases hroom : s.idx < o.maxlen
    · rw [if_pos hroom, show o.maxlen - s.idx = o.maxlen - (s.idx + 1) + 1 by omega,
          List.take_succ_cons, Memory.stores, Nat.add_assoc]
    · -- nothing more is written
      rw [if_neg hroom, Nat.sub_eq_zero_of_le (by omega), Nat.sub_eq_zero_of_le (by omega),
          List.take_zero, List.take_zero]
      rfl

/-- **The buffer holds what fits of the text, and a NUL**; nothing else is written or touched. -/
structure Holds (m m' : Memory) (buffer count : ℕ) (text : List UInt8) : Prop where
  bytes : ∀ a, m'.byte a = (m.stores buffer (text.take (count - 1) ++ [0])).byte a
  inside : ∀ a ∈ m'.accessed, a ∈ m.accessed ∨ (buffer ≤ a ∧ a < buffer + count)

/-- What fits of a text, with a NUL behind it or over its last character. -/
def filled (m : Memory) (buffer count : ℕ) (text : List UInt8) : Memory :=
  (m.stores buffer (text.take count)).store (buffer + min text.length (count - 1)) 0

/-- The text as far as it fits, then a NUL after it or over its last character.  It is what
    `snprintf` leaves in its array, and all that its callers read. -/
theorem holds_filled (m : Memory) (buffer : ℕ) {count : ℕ} (hcount : 0 < count)
    (text : List UInt8) :
    Holds m (filled m buffer count text) buffer count text where
  bytes := by
    intro a
    show (if a = buffer + min text.length (count - 1) then 0
      else (m.stores buffer (text.take count)).byte a) = _
    have hlen : (text.take (count - 1)).length = min text.length (count - 1) := by
      rw [List.length_take, Nat.min_comm]
    have hsplit : ∃ rest, text.take count = text.take (count - 1) ++ rest ∧ rest.length ≤ 1 := by
      refine ⟨(text.drop (count - 1)).take 1, ?_, by rw [List.length_take]; omega⟩
      rw [← List.take_add, Nat.sub_add_cancel hcount]
    obtain ⟨rest, hrest, hshort⟩ := hsplit
    rw [hrest, Memory.stores_append, Memory.stores_append, hlen]
    generalize m.stores buffer (text.take (count - 1)) = m₁
    by_cases ha : a = buffer + min text.length (count - 1)
    · rw [if_pos ha, ha]
      exact (if_pos rfl).symm
    · rw [if_neg ha, Memory.byte_stores_other _ _ _ (by omega)]
      exact (if_neg ha).symm
  inside := by
    intro a ha
    rcases List.mem_cons.mp ha with rfl | ha
    · exact Or.inr (by omega)
    · rw [Memory.mem_stores_accessed, List.length_take] at ha
      rcases ha with ha | ha
      · exact Or.inl ha
      · exact Or.inr (by omega)

/-- There is no NUL in a string. -/
theorem before_nul_nonzero (s : List UInt8) : ∀ c ∈ before_nul s, c ≠ 0 := by
  intro c hc
  have hkept := List.mem_takeWhile_imp hc
  exact of_decide_eq_true hkept

/-- A text without a NUL is all of its string. -/
theorem before_nul_of_nonzero {s : List UInt8} (hs : ∀ c ∈ s, c ≠ 0) : before_nul s = s := by
  rw [before_nul, List.takeWhile_eq_self_iff]
  intro c hc
  exact decide_eq_true (hs c hc)

/-- A string ends at its first NUL, whatever is behind it. -/
theorem before_nul_append_nul (s rest : List UInt8) :
    before_nul (s ++ 0 :: rest) = before_nul s := by
  induction s with
  | nil => rfl
  | cons c s ih =>
    by_cases hc : c = 0
    · rw [hc, List.cons_append, before_nul_cons_nul, before_nul_cons_nul]
    · rw [List.cons_append, before_nul_cons hc, before_nul_cons hc, ih]

/-- **The string in the buffer** is the text as far as it fits, up to its first NUL. -/
theorem bytes_filled (m : Memory) (buffer : ℕ) {count : ℕ} (hcount : 0 < count)
    (text : List UInt8) :
    ∃ rest, (filled m buffer count text).bytes buffer count
      = text.take (count - 1) ++ 0 :: rest := by
  have hlen : (text.take (count - 1) ++ [0]).length ≤ count := by
    rw [List.length_append, List.length_take, List.length_singleton]
    omega
  rw [Memory.bytes_congr fun i _ => (holds_filled m buffer hcount text).bytes (buffer + i),
      Memory.bytes_stores m buffer hlen, List.append_assoc]
  exact ⟨_, rfl⟩

/-- What is outside the buffer stays. -/
theorem bytes_filled_other (m : Memory) {buffer count : ℕ} (hcount : 0 < count)
    (text : List UInt8) {a n : ℕ} (h : a + n ≤ buffer ∨ buffer + count ≤ a) :
    (filled m buffer count text).bytes a n = m.bytes a n := by
  apply Memory.bytes_congr
  intro i hi
  rw [(holds_filled m buffer hcount text).bytes, Memory.byte_stores_other]
  rw [List.length_append, List.length_take, List.length_singleton]
  omega

/-! ## §5. `_vsnprintf` and its callers. -/

/-- `_vsnprintf` with an output function that is not replaced: the text is written, and then the
    NUL. -/
theorem vsnprintf_eq (fp : FloatFormat F) {o : Target τ} (ho : o.buffer ≠ 0) (format : List UInt8)
    (va : List (VaArg F)) (w : World τ) :
    _vsnprintf fp o format va w = (render fp format va).map fun text =>
      (int_result text.length, o.call 0 (terminator_index text.length o.maxlen)
        (text.foldl (put o) ⟨0, w⟩).world) := by
  unfold _vsnprintf
  dsimp only
  rw [if_neg ho, format_loop_eq, render]
  cases render_loop fp (format.length + 1) format va with
  | error e => rfl
  | ok text =>
    show Except.ok _ = Except.ok _
    dsimp only
    rw [idx_foldl_put, Nat.zero_add]

/-- The NUL goes behind the text or into the last place. -/
theorem terminator_index_eq {idx maxlen : ℕ} (h0 : 0 < maxlen) (hmax : maxlen ≤ SIZE_MAX) :
    terminator_index idx maxlen = min idx (maxlen - 1) := by
  rw [SIZE_MAX] at hmax
  unfold terminator_index
  rw [SIZE_MAX]
  split_ifs <;> omega

section Callers

variable (fp : FloatFormat F) (fct : τ → UInt8 → τ) (format : List UInt8) (va : List (VaArg F))
  (w : World τ)

/-- What `putchar`, or the function of `fctprintf`, makes of a text. -/
def handed (text : List UInt8) : World τ :=
  { w with console := (text.filter (· ≠ 0)).foldl fct w.console }

/-- An output function that is handed characters gets the text. -/
theorem vsnprintf_handed {o : Target τ} (ho : o.buffer ≠ 0)
    (h : o.out = ._out_char ∨ o.out = ._out_fct) :
    _vsnprintf fp o format va w = (render fp format va).map fun text =>
      (int_result text.length, handed o.fct w text) := by
  have hnul : ∀ idx (w' : World τ), o.call 0 idx w' = w' := by
    intro idx w'
    unfold Target.call
    rcases h with h | h <;> rw [h] <;> exact hand_on_nul o.fct w'
  rw [vsnprintf_eq fp ho]
  congr 1
  funext text
  rw [hnul, foldl_put_handed o h]
  rfl

/-- So does `putchar`. -/
theorem printf_eq {local_buffer : ℕ} (hlocal : local_buffer ≠ 0) :
    printf_ fp fct local_buffer format va w = (render fp format va).map fun text =>
      (int_result text.length, handed fct w text) :=
  vsnprintf_handed fp format va w hlocal (Or.inl rfl)

/-- And the function of the caller. -/
theorem fctprintf_eq {wrap : ℕ} (hwrap : wrap ≠ 0) :
    fctprintf fp fct wrap format va w = (render fp format va).map fun text =>
      (int_result text.length, handed fct w text) :=
  vsnprintf_handed fp format va w hwrap (Or.inr rfl)

/-- A buffer that is there, of at least one character, is filled. -/
theorem snprintf_eq {buffer count : ℕ} (hbuffer : buffer ≠ 0) (hcount : 0 < count)
    (hmax : count ≤ SIZE_MAX) :
    snprintf_ fp fct buffer count format va w = (render fp format va).map fun text =>
      (int_result text.length, { w with memory := filled w.memory buffer count text }) := by
  rw [snprintf_, vsnprintf_eq fp hbuffer]
  congr 1
  funext text
  rw [foldl_put_buffer _ rfl]
  show (int_result text.length, _out_buffer 0 buffer (terminator_index text.length count) count _)
    = _
  rw [terminator_index_eq hcount hmax, _out_buffer, if_pos (by omega)]
  rfl

/-- No buffer, or no room: only the length comes back. -/
theorem snprintf_null {buffer count : ℕ} (h : buffer = 0 ∨ count = 0) :
    snprintf_ fp fct buffer count format va w = (render fp format va).map fun text =>
      (int_result text.length, w) := by
  by_cases hbuffer : buffer = 0
  · unfold snprintf_ _vsnprintf
    dsimp only
    rw [if_pos hbuffer, format_loop_eq, render]
    cases render_loop fp (format.length + 1) format va with
    | error e => rfl
    | ok text =>
      show Except.ok _ = Except.ok _
      rw [idx_foldl_put, foldl_put_null _ rfl, Nat.zero_add]
      rfl
  · have hzero : count = 0 := by
      rcases h with h | h
      · exact absurd h hbuffer
      · exact h
    rw [snprintf_, vsnprintf_eq fp hbuffer]
    congr 1
    funext text
    rw [foldl_put_buffer _ rfl, hzero]
    rfl

/-- `sprintf_` trusts the buffer to be as large as any. -/
theorem sprintf_eq (buffer : ℕ) :
    sprintf_ fp fct buffer format va w = snprintf_ fp fct buffer SIZE_MAX format va w := rfl

/-- Every outcome of a format that has the text `text`. -/
structure Printed (text : List UInt8) : Prop where
  printf : ∀ local_buffer, local_buffer ≠ 0 →
    printf_ fp fct local_buffer format va w = .ok (int_result text.length, handed fct w text)
  fctprintf : ∀ wrap, wrap ≠ 0 →
    fctprintf fp fct wrap format va w = .ok (int_result text.length, handed fct w text)
  measured : ∀ buffer count, buffer = 0 ∨ count = 0 →
    snprintf_ fp fct buffer count format va w = .ok (int_result text.length, w)
  snprintf : ∀ buffer count, buffer ≠ 0 → 0 < count → count ≤ SIZE_MAX →
    ∃ m, snprintf_ fp fct buffer count format va w
        = .ok (int_result text.length, { w with memory := m })
      ∧ Holds w.memory m buffer count text
  sprintf : ∀ buffer, buffer ≠ 0 →
    ∃ m, sprintf_ fp fct buffer format va w
        = .ok (int_result text.length, { w with memory := m })
      ∧ Holds w.memory m buffer SIZE_MAX text

/-- Every outcome of a format that ends in a fault. -/
structure Fails (e : Fault) : Prop where
  printf : ∀ local_buffer, local_buffer ≠ 0 → printf_ fp fct local_buffer format va w = .error e
  fctprintf : ∀ wrap, wrap ≠ 0 → fctprintf fp fct wrap format va w = .error e
  snprintf : ∀ buffer count, count ≤ SIZE_MAX →
    snprintf_ fp fct buffer count format va w = .error e
  sprintf : ∀ buffer, sprintf_ fp fct buffer format va w = .error e

end Callers

/-- **One text, wherever it goes.**  A format and its arguments have one text, or one fault: the
    console is handed its characters but for NULs, a buffer of any size holds as much as fits with a
    NUL behind it, and the length that comes back is the same. -/
theorem one_text (fp : FloatFormat F) (format : List UInt8) (va : List (VaArg F)) :
    (∃ text, ∀ {τ : Type} (fct : τ → UInt8 → τ) (w : World τ), Printed fp fct format va w text)
      ∨ ∃ e, ∀ {τ : Type} (fct : τ → UInt8 → τ) (w : World τ), Fails fp fct format va w e := by
  cases hrender : render fp format va with
  | ok text =>
    -- `sprintf_` is the case without a limit
    have hsnprintf : ∀ {τ : Type} (fct : τ → UInt8 → τ) (w : World τ) (buffer count : ℕ),
        buffer ≠ 0 → 0 < count → count ≤ SIZE_MAX →
          ∃ m, snprintf_ fp fct buffer count format va w
              = .ok (int_result text.length, { w with memory := m })
            ∧ Holds w.memory m buffer count text := by
      intro τ fct w buffer count hbuffer hcount hmax
      refine ⟨_, ?_, holds_filled w.memory buffer hcount text⟩
      rw [snprintf_eq fp fct format va w hbuffer hcount hmax, hrender]
      rfl
    refine Or.inl ⟨text, fun fct w => ⟨?_, ?_, ?_, hsnprintf fct w, ?_⟩⟩
    · intro local_buffer hlocal
      rw [printf_eq fp fct format va w hlocal, hrender]
      rfl
    · intro wrap hwrap
      rw [fctprintf_eq fp fct format va w hwrap, hrender]
      rfl
    · intro buffer count h
      rw [snprintf_null fp fct format va w h, hrender]
      rfl
    · intro buffer hbuffer
      rw [sprintf_eq]
      exact hsnprintf fct w buffer SIZE_MAX hbuffer (by decide) (Nat.le_refl _)
  | error e =>
    have hsnprintf : ∀ {τ : Type} (fct : τ → UInt8 → τ) (w : World τ) (buffer count : ℕ),
        count ≤ SIZE_MAX → snprintf_ fp fct buffer count format va w = .error e := by
      intro τ fct w buffer count hmax
      by_cases h : buffer = 0 ∨ count = 0
      · rw [snprintf_null fp fct format va w h, hrender]
        rfl
      · rw [snprintf_eq fp fct format va w (fun h0 => h (Or.inl h0)) (by omega) hmax, hrender]
        rfl
    refine Or.inr ⟨e, fun fct w => ⟨?_, ?_, hsnprintf fct w, ?_⟩⟩
    · intro local_buffer hlocal
      rw [printf_eq fp fct format va w hlocal, hrender]
      rfl
    · intro wrap hwrap
      rw [fctprintf_eq fp fct format va w hwrap, hrender]
      rfl
    · intro buffer
      rw [sprintf_eq]
      exact hsnprintf fct w buffer SIZE_MAX (Nat.le_refl _)

end Hippos.Libc.Printf
