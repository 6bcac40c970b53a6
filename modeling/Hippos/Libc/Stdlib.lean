/-
  Hippos.Libc.Stdlib — `itoa` of the kernel's libc, `stdlib/itoa.c`.

  The digits come out least significant first and are reversed in place at the end.  Loops recurse
  on the rounds they have left and return `none` when they would need more; the negation is `none`
  where C leaves it undefined.  The division truncates towards zero, so on a negative value every
  remainder is negative as well, and the characters lie below '0'.

  The sign is kept apart from the digits throughout.  A value is its absolute value with a sign, the
  quotient has the same sign, and so does the remainder; the digit loop therefore writes the digits
  of the absolute value, through a map from remainders to characters that depends on the sign alone.
  Whether the text is right is then a question about that map: for a value that is not negative it
  writes digits, for a negative one it writes none.

  Main results:
    * `byte_reverse_loop` — the loop of `reverse` mirrors its range.
    * `digit_loop_eq` — the digit loop writes the digits of the absolute value.
    * `itoa_leaves`, `itoa_ends` — `itoa` comes to an end and leaves its text.
    * `writes_numeral_iff` — when that text is the numeral it should be.
-/
import Hippos.Lib.ByteMemory
import Hippos.Lib.Numeral

namespace Hippos.Libc

open Hippos.Lib

/-! ## §1. `itoa.c`. -/

/-- The loop of `reverse`.  Neither `int` goes below 0: `end` is decremented above `start` only. -/
def reverse_loop (str : ℕ) : (rounds start end_ : ℕ) → Memory → Option Memory
  | 0, _, _, _ => none
  | rounds + 1, start, end_, m =>
    if start < end_ then
      let (temp, m) := m.load (str + start)
      let (v, m) := m.load (str + end_)
      let m := (m.store (str + start) v).store (str + end_) temp
      reverse_loop str rounds (start + 1) (end_ - 1) m
    else some m

/-- The positions of `reverse` in its range are indices; `length - 1` is one for every text that is
    not empty. -/
def reverse (rounds : ℕ) (m : Memory) (str length : ℕ) : Option Memory :=
  reverse_loop str rounds 0 (length - 1) m

/-- `(rem > 9) ? (rem - 10) + 'a' : rem + '0'`, stored as a `char`. -/
def digit (rem : Int32) : UInt8 :=
  (if rem > 9 then (rem - 10) + 0x61 else rem + 0x30).toInt8.toUInt8

/-- `while (value)`: the remainder's character is stored and the value divided. -/
def digit_loop (str : ℕ) (base : Int32) :
    (rounds : ℕ) → (value : Int64) → (i : ℕ) → Memory → Option (ℕ × Memory)
  | 0, _, _, _ => none
  | rounds + 1, value, i, m =>
    if value = 0 then some (i, m)
    else
      let rem := (value % base.toInt64).toInt32
      digit_loop str base rounds (value / base.toInt64) (i + 1) (m.store (str + i) (digit rem))

/-- `-value`, which has no value for the least `long`. -/
def negate (value : Int64) : Option Int64 := if value = Int64.minValue then none else some (-value)

/-- `itoa` up to the call of `reverse`: the length, and memory with the string backwards. -/
def itoa_backwards (rounds : ℕ) (m : Memory) (value : Int64) (str : ℕ) (base : Int32) :
    Option (ℕ × Memory) :=
  let (i, m) := if value = 0 then (1, (m.store str 0x30).store (str + 1) 0) else (0, m)
  let isNegative := decide (value < 0) && base == 10
  match if isNegative then negate value else some value with
  | none => none
  | some value =>
    match digit_loop str base rounds value i m with
    | none => none
    | some (i, m) =>
      let (i, m) := if isNegative then (i + 1, m.store (str + i) 0x2D) else (i, m)
      some (i, m.store (str + i) 0)

/-- The returned pointer is `str`, so only memory is kept. -/
def itoa (rounds : ℕ) (m : Memory) (value : Int64) (str : ℕ) (base : Int32) : Option Memory :=
  match itoa_backwards rounds m value str base with
  | none => none
  | some (i, m) => reverse rounds m str i

/-! ## §2. The reversal. -/

/-- What one exchange leaves: the two ends have changed places. -/
theorem exchange_byte (m : Memory) (str : ℕ) {start end_ : ℕ} (h : start < end_) (b : ℕ) :
    (((((m.load (str + start)).2.load (str + end_)).2.store (str + start)
        (m.byte (str + end_))).store (str + end_) (m.byte (str + start))).byte b)
      = if b = str + start then m.byte (str + end_)
        else if b = str + end_ then m.byte (str + start) else m.byte b := by
  show (if b = str + end_ then m.byte (str + start) else if b = str + start
    then m.byte (str + end_) else m.byte b) = _
  by_cases hstart : b = str + start
  · rw [if_neg (by omega), if_pos hstart, if_pos hstart]
  · rw [if_neg hstart, if_neg hstart]

/-- **The loop of `reverse` mirrors the range it is given.**  By induction on the rounds, for any
    range: after one exchange the loop mirrors what lies between the two ends. -/
theorem byte_reverse_loop (str : ℕ) (rounds : ℕ) :
    ∀ (start end_ : ℕ) (m m' : Memory), reverse_loop str rounds start end_ m = some m' →
      ∀ b, m'.byte b = if str + start ≤ b ∧ b ≤ str + end_
        then m.byte (str + start + (str + end_ - b)) else m.byte b := by
  induction rounds with
  | zero =>
    intro start stop m m' h
    exact absurd h (by simp [reverse_loop])
  | succ rounds ih =>
    intro start stop m m' h b
    rw [reverse_loop] at h
    by_cases hlt : start < stop
    · -- the two ends, then what lies between
      rw [if_pos hlt] at h
      rw [ih _ _ _ _ h b]
      have hex := exchange_byte m str hlt
      dsimp only [Memory.load] at hex ⊢
      rw [hex, hex]
      by_cases hin : str + (start + 1) ≤ b ∧ b ≤ str + (stop - 1)
      · rw [if_pos hin, if_neg (by omega), if_neg (by omega), if_pos (by omega)]
        congr 1
        omega
      · rw [if_neg hin]
        by_cases hstart : b = str + start
        · rw [if_pos hstart, if_pos (by omega)]
          congr 1
          omega
        · rw [if_neg hstart]
          by_cases hstop : b = str + stop
          · rw [if_pos hstop, if_pos (by omega)]
            congr 1
            omega
          · rw [if_neg hstop, if_neg (by omega)]
    · -- nothing left, or the middle
      rw [if_neg hlt] at h
      obtain rfl := Option.some.inj h
      by_cases hin : str + start ≤ b ∧ b ≤ str + stop
      · rw [if_pos hin]
        congr 1
        omega
      · rw [if_neg hin]

/-- It ends: the range shrinks with every round. -/
theorem reverse_loop_ends (str : ℕ) (rounds : ℕ) :
    ∀ (start end_ : ℕ) (m : Memory), end_ - start < rounds →
      ∃ m', reverse_loop str rounds start end_ m = some m' := by
  induction rounds with
  | zero =>
    intro start stop m h
    exact absurd h (Nat.not_lt_zero _)
  | succ rounds ih =>
    intro start stop m h
    rw [reverse_loop]
    by_cases hlt : start < stop
    · rw [if_pos hlt]
      exact ih _ _ _ (by omega)
    · rw [if_neg hlt]
      exact ⟨m, rfl⟩

/-- Bytes outside of what `itoa` may write are unchanged. -/
def OutsideUnchanged (m m' : Memory) (a size : ℕ) : Prop :=
  ∀ b, b < a ∨ a + size ≤ b → m'.byte b = m.byte b

/-- **Reversing a text and its NUL leaves the string backwards.**  The NUL lies behind the range
    that is reversed, so it stays where it is. -/
theorem reverse_stringAt {rounds : ℕ} {m m₀ m' : Memory} {str : ℕ} {s : List UInt8} (hs : s ≠ [])
    (hnul : ∀ c ∈ s, c ≠ 0)
    (hbytes : ∀ b, m₀.byte b = ((m.stores str s).store (str + s.length) 0).byte b)
    (h : reverse rounds m₀ str s.length = some m') :
    m'.StringAt str s.reverse ∧ OutsideUnchanged m m' str (s.length + 1) := by
  have hlen : 0 < s.length := List.length_pos_iff.mpr hs
  have hstore : ∀ b, m₀.byte b = if b = str + s.length then 0 else (m.stores str s).byte b := hbytes
  have hrev := byte_reverse_loop str rounds 0 (s.length - 1) m₀ m' h
  refine ⟨⟨?_, ?_, ?_⟩, ?_⟩
  · -- mirrored
    intro i hi
    rw [List.length_reverse] at hi
    rw [hrev, if_pos (by omega), hstore, if_neg (by omega), List.getElem_reverse,
        show str + 0 + (str + (s.length - 1) - (str + i)) = str + (s.length - 1 - i) by omega]
    exact Memory.byte_stores s m str (by omega)
  · -- the NUL
    rw [List.length_reverse, hrev, if_neg (by omega), hstore, if_pos rfl]
  · intro c hc
    exact hnul c (List.mem_reverse.mp hc)
  · intro b hb
    rw [hrev, if_neg (by omega), hstore, if_neg (by omega),
        Memory.byte_stores_other _ _ _ (by omega)]

/-! ## §3. The digits. -/

/-- The character for a remainder of absolute value `d`, of a negative value or of another one. -/
def remainder_char (negative : Bool) (d : ℕ) : UInt8 :=
  if negative then 0x30 - UInt8.ofNat d else digit_char d

/-- `n` with its sign. -/
def signed (negative : Bool) (n : ℕ) : ℤ := if negative then -(n : ℤ) else n

/-- The character of a remainder with its sign. -/
theorem digit_signed {negative : Bool} {d : ℕ} (h : d < 36) :
    digit (Int32.ofInt (signed negative d)) = remainder_char negative d := by
  have hall : ∀ negative : Bool, ∀ d < 36,
      digit (Int32.ofInt (signed negative d)) = remainder_char negative d := by decide
  exact hall negative d h

/-- With a sign or without, only 0 is 0. -/
theorem signed_eq_zero {negative : Bool} {n : ℕ} : signed negative n = 0 ↔ n = 0 := by
  unfold signed
  split_ifs <;> omega

/-- Division towards zero keeps the sign. -/
theorem signed_tdiv (negative : Bool) (n b : ℕ) :
    (signed negative n).tdiv b = signed negative (n / b) := by
  unfold signed
  split_ifs
  · rw [Int.neg_tdiv, Int.ofNat_tdiv]
  · rw [Int.ofNat_tdiv]

/-- And so does its remainder. -/
theorem signed_tmod (negative : Bool) (n b : ℕ) :
    (signed negative n).tmod b = signed negative (n % b) := by
  unfold signed
  split_ifs
  · rw [Int.neg_tmod, Int.ofNat_tmod]
  · rw [Int.ofNat_tmod]

/-- A number with a sign is no further from 0 than the number. -/
theorem signed_bounds (negative : Bool) (n : ℕ) :
    -(n : ℤ) ≤ signed negative n ∧ signed negative n ≤ n := by
  unfold signed
  split_ifs <;> omega

section Digits

variable {base : Int32} {b : ℕ}

/-- One round: the quotient has the same sign, and the character is that of the remainder. -/
theorem digit_step (hbase : base.toInt = b) (htwo : 2 ≤ b) (hmax : b ≤ 36) {value : Int64}
    {negative : Bool} {n : ℕ} (hvalue : value.toInt = signed negative n) :
    (value / base.toInt64).toInt = signed negative (n / b)
      ∧ digit (value % base.toInt64).toInt32 = remainder_char negative (n % b) := by
  have hlow := value.le_toInt
  have hhigh := value.toInt_lt
  have hn : n ≤ 2 ^ 63 := by
    rw [hvalue] at hlow hhigh
    unfold signed at hlow hhigh
    split_ifs at hlow hhigh <;> omega
  have hquot : n / b ≤ 2 ^ 62 := by
    calc n / b ≤ n / 2 := Nat.div_le_div_left htwo (by omega)
      _ ≤ 2 ^ 62 := by omega
  have hrem : n % b < b := Nat.mod_lt _ (by omega)
  -- both results are small enough not to wrap
  constructor
  · have hb := signed_bounds negative (n / b)
    rw [Int64.toInt_div, Int32.toInt_toInt64, hvalue, hbase, signed_tdiv]
    exact Int.bmod_eq_of_le (by omega) (by omega)
  · have hb := signed_bounds negative (n % b)
    have hto : (value % base.toInt64).toInt32 = Int32.ofInt (signed negative (n % b)) := by
      rw [← Int32.toInt_inj, Int64.toInt_toInt32, Int64.toInt_mod, Int32.toInt_toInt64, hvalue,
          hbase, signed_tmod, Int32.toInt_ofInt]
    rw [hto, digit_signed (by omega)]

/-- **The digit loop** writes the digits of the absolute value, least significant first, and ends
    once it has a round for each and one more.  By induction on the rounds; the sign stays the same
    from one quotient to the next, and is in the characters alone. -/
theorem digit_loop_eq (hbase : base.toInt = b) (htwo : 2 ≤ b) (hmax : b ≤ 36) (str : ℕ)
    (rounds : ℕ) : ∀ (value : Int64) (negative : Bool) (n i : ℕ) (m : Memory),
      value.toInt = signed negative n →
      digit_loop str base rounds value i m
        = if (b.digits n).length < rounds
          then some (i + (b.digits n).length,
            m.stores (str + i) ((b.digits n).map (remainder_char negative)))
          else none := by
  induction rounds with
  | zero =>
    intro value negative n i m _
    rw [digit_loop, if_neg (Nat.not_lt_zero _)]
  | succ rounds ih =>
    intro value negative n i m hvalue
    have hzero : value = 0 ↔ n = 0 := by
      rw [← Int64.toInt_inj, hvalue, Int64.toInt_zero, signed_eq_zero]
    rw [digit_loop]
    rcases Nat.eq_zero_or_pos n with rfl | hn
    · -- no digit left
      rw [if_pos (hzero.mpr rfl), Nat.digits_zero, List.length_nil,
          if_pos (by omega : 0 < rounds + 1)]
      rfl
    · -- the last digit, then those of the quotient
      obtain ⟨hquot, hchar⟩ := digit_step hbase htwo hmax hvalue
      rw [if_neg fun h => absurd (hzero.mp h) (by omega), Nat.digits_def' htwo hn]
      dsimp only
      rw [ih _ negative (n / b) _ _ hquot, hchar, List.length_cons, List.map_cons,
          Memory.stores]
      by_cases hlen : (b.digits (n / b)).length < rounds
      · rw [if_pos hlen, if_pos (by omega), Nat.add_assoc i, Nat.add_comm 1, Nat.add_assoc]
      · rw [if_neg hlen, if_neg (by omega)]

end Digits

/-! ## §4. The whole text. -/

/-- The characters in the order `itoa` writes them, before the reversal: the digits, then the minus
    sign of a negative decimal. -/
def backwards (value : Int64) (b : ℕ) : List UInt8 :=
  if value = 0 then [0x30]
  else if value < 0 ∧ b = 10
    then (b.digits value.toInt.natAbs).map (remainder_char false) ++ [0x2D]
  else (b.digits value.toInt.natAbs).map (remainder_char (decide (value < 0)))

/-- The sign of the machine's comparison. -/
theorem neg_iff {value : Int64} : value < 0 ↔ value.toInt < 0 := by
  rw [Int64.lt_iff_toInt_lt, Int64.toInt_zero]

/-- A value other than 0 has an absolute value above 0. -/
theorem natAbs_pos {value : Int64} (h : value ≠ 0) : 0 < value.toInt.natAbs := by
  rw [Nat.pos_iff_ne_zero, ne_eq, Int.natAbs_eq_zero, ← Int64.toInt_zero, Int64.toInt_inj]
  exact h

/-- No character of a remainder is the NUL: the ones below '0' are at least 13. -/
theorem remainder_char_ne_nul {negative : Bool} {d : ℕ} (h : d < 36) :
    remainder_char negative d ≠ 0 := by
  have hall : ∀ negative : Bool, ∀ d < 36, remainder_char negative d ≠ 0 := by decide
  exact hall negative d h

/-- The text has no NUL in it. -/
theorem backwards_ne_nul {b : ℕ} (htwo : 2 ≤ b) (hmax : b ≤ 36) (value : Int64) :
    ∀ c ∈ backwards value b, c ≠ 0 := by
  have hdigits : ∀ negative, ∀ c ∈ (b.digits value.toInt.natAbs).map (remainder_char negative),
      c ≠ 0 := by
    intro negative c hc
    obtain ⟨d, hd, rfl⟩ := List.mem_map.mp hc
    have hlt := Nat.digits_lt_base htwo hd
    exact remainder_char_ne_nul (by omega)
  intro c hc
  unfold backwards at hc
  split_ifs at hc
  · rw [List.mem_singleton.mp hc]
    decide
  · rcases List.mem_append.mp hc with hc | hc
    · exact hdigits false c hc
    · rw [List.mem_singleton.mp hc]
      decide
  · exact hdigits _ c hc

/-- The text is never empty, so that `length - 1` is an index. -/
theorem backwards_ne_nil {b : ℕ} (value : Int64) : backwards value b ≠ [] := by
  unfold backwards
  split_ifs with hzero hneg
  · exact List.cons_ne_nil _ _
  · exact List.append_ne_nil_of_right_ne_nil _ (List.cons_ne_nil _ _)
  · rw [ne_eq, List.map_eq_nil_iff, Nat.digits_eq_nil_iff_eq_zero]
    exact (natAbs_pos hzero).ne'

/-- C leaves the negation undefined for the one value that has no negative. -/
def Overflows (value : Int64) (base : Int32) : Prop := value = Int64.minValue ∧ base = 10

section Text

variable {base : Int32} {b : ℕ}

/-- The comparison `base == 10` is that of the numbers. -/
theorem base_eq_ten (hbase : base.toInt = b) : base = 10 ↔ b = 10 := by
  rw [← Int32.toInt_inj, hbase]
  show (b : ℤ) = 10 ↔ b = 10
  omega

/-- A nonzero value is its absolute value with its sign. -/
theorem toInt_eq_signed (value : Int64) :
    value.toInt = signed (decide (value < 0)) value.toInt.natAbs := by
  unfold signed
  by_cases h : value < 0
  · have hlt := neg_iff.mp h
    rw [if_pos (decide_eq_true h)]
    omega
  · have hge := mt neg_iff.mpr h
    rw [decide_eq_false h, if_neg Bool.false_ne_true]
    omega

/-- Away from the overflow a negative value is negated. -/
theorem negate_eq {value : Int64} (hneg : value < 0) (hmin : value ≠ Int64.minValue) :
    negate value = some (-value) ∧ (-value).toInt = signed false value.toInt.natAbs := by
  have hlow := value.le_toInt
  have hlt := neg_iff.mp hneg
  have hne : value.toInt ≠ -2 ^ 63 := by
    intro h
    apply hmin
    rw [← Int64.toInt_inj, h]
    rfl
  refine ⟨if_neg hmin, ?_⟩
  -- above the minimum the negation does not wrap
  rw [Int64.toInt_neg, Int.bmod_eq_of_le (by omega) (by omega)]
  show -value.toInt = (value.toInt.natAbs : ℤ)
  omega

/-- Zero: the text is there before the loop, which has nothing to do. -/
theorem itoa_backwards_zero (hbase : base.toInt = b) (htwo : 2 ≤ b) (hmax : b ≤ 36) (rounds : ℕ)
    (m : Memory) (str : ℕ) :
    itoa_backwards rounds m 0 str base
      = if 0 < rounds
        then some (1, ((m.store str 0x30).store (str + 1) 0).store (str + 1) 0)
        else none := by
  have hloop := digit_loop_eq hbase htwo hmax str rounds 0 false 0 1
    ((m.store str 0x30).store (str + 1) 0) rfl
  rw [Nat.digits_zero, List.length_nil] at hloop
  unfold itoa_backwards
  rw [if_pos rfl, show (decide ((0 : Int64) < 0) && base == 10) = false from rfl]
  dsimp only
  rw [if_neg Bool.false_ne_true]
  dsimp only
  rw [hloop]
  by_cases hrounds : 0 < rounds
  · rw [if_pos hrounds, if_pos hrounds]
    rfl
  · rw [if_neg hrounds, if_neg hrounds]

/-- A negative value in base 10: its digits and a minus sign. -/
theorem itoa_backwards_minus (hbase : base.toInt = b) (htwo : 2 ≤ b) (hmax : b ≤ 36)
    {value : Int64} (hneg : value < 0) (hten : base = 10) (hmin : value ≠ Int64.minValue)
    (rounds : ℕ) (m : Memory) (str : ℕ) :
    itoa_backwards rounds m value str base
      = if (b.digits value.toInt.natAbs).length < rounds
        then some ((b.digits value.toInt.natAbs).length + 1,
          (m.stores str ((b.digits value.toInt.natAbs).map (remainder_char false)
            ++ [0x2D])).store (str + ((b.digits value.toInt.natAbs).length + 1)) 0)
        else none := by
  obtain ⟨hnegate, hsigned⟩ := negate_eq hneg hmin
  have hflag : (decide (value < 0) && base == 10) = true := by
    rw [decide_eq_true hneg, hten]
    rfl
  unfold itoa_backwards
  rw [if_neg (Int64.ne_of_lt hneg), hflag]
  dsimp only
  rw [if_pos rfl, hnegate]
  dsimp only
  rw [digit_loop_eq hbase htwo hmax str rounds _ false _ 0 m hsigned]
  by_cases hrounds : (b.digits value.toInt.natAbs).length < rounds
  · rw [if_pos hrounds, if_pos hrounds]
    dsimp only
    rw [if_pos rfl, Memory.stores_append, List.length_map, Nat.zero_add]
    rfl
  · rw [if_neg hrounds, if_neg hrounds]

/-- Any other value: the characters of its remainders, without a sign. -/
theorem itoa_backwards_plain (hbase : base.toInt = b) (htwo : 2 ≤ b) (hmax : b ≤ 36)
    {value : Int64} (hzero : value ≠ 0) (hplain : ¬ (value < 0 ∧ base = 10))
    (rounds : ℕ) (m : Memory) (str : ℕ) :
    itoa_backwards rounds m value str base
      = if (b.digits value.toInt.natAbs).length < rounds
        then some ((b.digits value.toInt.natAbs).length,
          (m.stores str ((b.digits value.toInt.natAbs).map
            (remainder_char (decide (value < 0))))).store
              (str + (b.digits value.toInt.natAbs).length) 0)
        else none := by
  have hflag : (decide (value < 0) && base == 10) = false := by
    rw [Bool.and_eq_false_iff, decide_eq_false_iff_not, beq_eq_false_iff_ne]
    exact not_and_or.mp hplain
  unfold itoa_backwards
  rw [if_neg hzero, hflag]
  dsimp only
  rw [if_neg Bool.false_ne_true]
  dsimp only
  rw [digit_loop_eq hbase htwo hmax str rounds _ _ _ 0 m (toInt_eq_signed value)]
  by_cases hrounds : (b.digits value.toInt.natAbs).length < rounds
  · rw [if_pos hrounds, if_pos hrounds]
    dsimp only
    rw [if_neg Bool.false_ne_true, Nat.zero_add]
    rfl
  · rw [if_neg hrounds, if_neg hrounds]

/-- **What `itoa` has written before it reverses**: the characters and a NUL, once the digit loop
    has rounds enough.  The three cases are the three lemmas above; the memories are compared byte
    by byte, because for 0 the NUL is stored twice. -/
theorem itoa_backwards_eq (hbase : base.toInt = b) (htwo : 2 ≤ b) (hmax : b ≤ 36) {value : Int64}
    (hdef : ¬ Overflows value base) (rounds : ℕ) (m : Memory) (str : ℕ) :
    (rounds ≤ (b.digits value.toInt.natAbs).length
        ∧ itoa_backwards rounds m value str base = none)
      ∨ ∃ m₀, itoa_backwards rounds m value str base = some ((backwards value b).length, m₀)
        ∧ ∀ a, m₀.byte a
          = ((m.stores str (backwards value b)).store (str + (backwards value b).length) 0).byte a
    := by
  have hten := base_eq_ten hbase
  by_cases hrounds : (b.digits value.toInt.natAbs).length < rounds
  · right
    unfold backwards
    by_cases hzero : value = 0
    · -- zero: its NUL is stored twice
      subst hzero
      rw [itoa_backwards_zero hbase htwo hmax, if_pos (Nat.zero_lt_of_lt hrounds), if_pos rfl]
      refine ⟨_, rfl, ?_⟩
      intro a
      show (if a = str + 1 then (0 : UInt8) else if a = str + 1 then 0 else _)
        = if a = str + 1 then 0 else _
      split_ifs <;> rfl
    · rw [if_neg hzero]
      by_cases hneg : value < 0 ∧ b = 10
      · -- a minus sign
        have hmin : value ≠ Int64.minValue := fun h => hdef ⟨h, hten.mpr hneg.2⟩
        rw [if_pos hneg, itoa_backwards_minus hbase htwo hmax hneg.1 (hten.mpr hneg.2) hmin,
            if_pos hrounds, List.length_append, List.length_map, List.length_singleton]
        exact ⟨_, rfl, fun a => rfl⟩
      · -- no sign
        rw [if_neg hneg, itoa_backwards_plain hbase htwo hmax hzero (by rwa [hten]),
            if_pos hrounds, List.length_map]
        exact ⟨_, rfl, fun a => rfl⟩
  · left
    refine ⟨Nat.not_lt.mp hrounds, ?_⟩
    by_cases hzero : value = 0
    · subst hzero
      rw [itoa_backwards_zero hbase htwo hmax, if_neg]
      rwa [show (0 : Int64).toInt.natAbs = 0 from rfl, Nat.digits_zero] at hrounds
    · by_cases hneg : value < 0 ∧ base = 10
      · have hmin : value ≠ Int64.minValue := fun h => hdef ⟨h, hneg.2⟩
        rw [itoa_backwards_minus hbase htwo hmax hneg.1 hneg.2 hmin, if_neg hrounds]
      · rw [itoa_backwards_plain hbase htwo hmax hzero hneg, if_neg hrounds]

/-- On the overflowing input nothing is promised, whatever the rounds. -/
theorem itoa_overflow {rounds : ℕ} {m : Memory} {value : Int64} {str : ℕ}
    (h : Overflows value base) : itoa rounds m value str base = none := by
  obtain ⟨rfl, rfl⟩ := h
  rfl

/-- **`itoa` leaves its text**, wherever it comes to an end, and writes nothing outside of it.  The
    text is known before the reversal; that mirrors it and leaves the NUL behind it. -/
theorem itoa_leaves (hbase : base.toInt = b) (htwo : 2 ≤ b) (hmax : b ≤ 36) {value : Int64}
    (hdef : ¬ Overflows value base) {rounds : ℕ} {m m' : Memory} {str : ℕ}
    (h : itoa rounds m value str base = some m') :
    m'.StringAt str (backwards value b).reverse
      ∧ OutsideUnchanged m m' str ((backwards value b).length + 1) := by
  rcases itoa_backwards_eq hbase htwo hmax hdef rounds m str with ⟨-, hnone⟩ | ⟨m₀, hsome, hbytes⟩
  · rw [itoa, hnone] at h
    exact absurd h (by simp)
  · rw [itoa, hsome] at h
    exact reverse_stringAt (backwards_ne_nil value) (backwards_ne_nul htwo hmax value) hbytes h

/-- **`itoa` comes to an end**, unless its negation overflows: the digit loop takes a round for each
    digit, the reversal at most one for each character. -/
theorem itoa_ends (hbase : base.toInt = b) (htwo : 2 ≤ b) (hmax : b ≤ 36) {value : Int64}
    (hdef : ¬ Overflows value base) (m : Memory) (str : ℕ) :
    ∃ rounds m', itoa rounds m value str base = some m' := by
  -- enough for either loop
  refine ⟨(b.digits value.toInt.natAbs).length + (backwards value b).length + 1, ?_⟩
  rcases itoa_backwards_eq hbase htwo hmax hdef
      ((b.digits value.toInt.natAbs).length + (backwards value b).length + 1) m str
    with ⟨hfew, -⟩ | ⟨m₀, hsome, -⟩
  · omega
  · obtain ⟨m', hreverse⟩ := reverse_loop_ends str
      ((b.digits value.toInt.natAbs).length + (backwards value b).length + 1) 0
      ((backwards value b).length - 1) m₀ (by omega)
    refine ⟨m', ?_⟩
    rw [itoa, hsome]
    exact hreverse

end Text

/-! ## §5. The right numeral. -/

/-- `s` is what should be written: a signed decimal, or the unsigned value in another base. -/
def Written (value : Int64) (b : ℕ) (s : List UInt8) : Prop :=
  if value < 0 ∧ b = 10 then ∃ ds, s = 0x2D :: ds ∧ IsNumeral b ds value.toInt.natAbs
  else IsNumeral b s value.toUInt64.toNat

/-- **`itoa` writes the right numeral**: it comes to an end with the numeral as a string at `str`,
    and writes nothing outside of it. -/
def WritesNumeral (m : Memory) (value : Int64) (str : ℕ) (base : Int32) : Prop :=
  ∃ rounds m' s, itoa rounds m value str base = some m' ∧ m'.StringAt str s
    ∧ OutsideUnchanged m m' str (s.length + 1) ∧ Written value base.toInt.toNat s

/-- The unsigned representation of a value that is not negative is the value. -/
theorem toUInt64_of_nonneg {value : Int64} (h : 0 ≤ value) :
    value.toUInt64.toNat = value.toInt.natAbs := by
  have hnonneg := mt neg_iff.mpr (Int64.not_lt.mpr h)
  have hcond : value.toInt = _ := BitVec.toInt_eq_toNat_cond value.toBitVec
  show value.toBitVec.toNat = _
  have hlt := value.toBitVec.isLt
  split_ifs at hcond <;> omega

section Numerals

variable {b : ℕ}

/-- A value that is not negative is written in digits. -/
theorem written_nonneg (htwo : 2 ≤ b) (hmax : b ≤ 36) {value : Int64} (h : 0 ≤ value) :
    Written value b (backwards value b).reverse := by
  have hneg : ¬ value < 0 := Int64.not_lt.mpr h
  unfold Written backwards
  rw [if_neg fun hex => hneg hex.1, toUInt64_of_nonneg h]
  by_cases hzero : value = 0
  · rw [if_pos hzero, hzero]
    refine ⟨?_, List.cons_ne_nil _ _, fun _ => rfl⟩
    show read_digit b 0 0x30 >>= pure = some 0
    rw [read_digit, show digit_value 0x30 = some 0 from rfl, Option.bind_some, if_pos (by omega)]
    rfl
  · rw [if_neg hzero, if_neg fun hex => hneg hex.1, decide_eq_false hneg]
    exact isNumeral_digits htwo hmax (natAbs_pos hzero)

/-- A negative value is written in base 10 with a sign and the digits of its absolute value. -/
theorem written_decimal {value : Int64} (h : value < 0) :
    Written value 10 (backwards value 10).reverse := by
  have hzero : value ≠ 0 := Int64.ne_of_lt h
  unfold Written backwards
  rw [if_pos ⟨h, rfl⟩, if_neg hzero, if_pos ⟨h, rfl⟩, List.reverse_append]
  exact ⟨_, rfl, isNumeral_digits (by omega) (by omega) (natAbs_pos hzero)⟩

/-- In any other base its first character is no digit. -/
theorem not_written_negative (htwo : 2 ≤ b) (hmax : b ≤ 36) (hten : b ≠ 10) {value : Int64}
    (h : value < 0) : ¬ Written value b (backwards value b).reverse := by
  have hzero : value ≠ 0 := Int64.ne_of_lt h
  have hpos := (natAbs_pos hzero).ne'
  have hne : b.digits value.toInt.natAbs ≠ [] := by
    rwa [ne_eq, Nat.digits_eq_nil_iff_eq_zero]
  -- the most significant remainder is negative
  have hlt := Nat.digits_lt_base htwo (List.getLast_mem hne)
  have hlast := Nat.getLast_digit_ne_zero b hpos
  have hnone : ∀ d < 36, d ≠ 0 → digit_value (remainder_char true d) = none := by decide
  unfold Written backwards
  rw [if_neg fun hex => hten hex.2, if_neg hzero, if_neg fun hex => hten hex.2, decide_eq_true h]
  intro hnumeral
  refine hnumeral.head ?_ (hnone _ (by omega) hlast)
  rw [List.head?_reverse, List.getLast?_map, List.getLast?_eq_some_getLast hne, Option.map_some]

end Numerals

/-- In any other base than 10 a negative value is not written right. -/
theorem not_writesNumeral_negative {base : Int32} {b : ℕ} (hbase : base.toInt = b) (htwo : 2 ≤ b)
    (hmax : b ≤ 36) (hten : b ≠ 10) {value : Int64} (hneg : value < 0) (m : Memory) (str : ℕ) :
    ¬ WritesNumeral m value str base := by
  intro h
  obtain ⟨rounds, m', s, hrun, hstring, -, hwritten⟩ := h
  have hdef : ¬ Overflows value base := fun hover => hten ((base_eq_ten hbase).mp hover.2)
  have hleft := (itoa_leaves hbase htwo hmax hdef hrun).1
  rw [hbase, Int.toNat_natCast, hstring.unique hleft] at hwritten
  exact not_written_negative htwo hmax hten hneg hwritten

/-- **`itoa` writes the right numeral exactly of values that are not negative, and in base 10 of
    negative ones that can be negated.**  In other bases a negative value is never made unsigned, so
    its remainders are negative and the first character is no digit. -/
theorem writes_numeral_iff {base : Int32} (htwo : 2 ≤ base.toInt) (hmax : base.toInt ≤ 36)
    (m : Memory) (value : Int64) (str : ℕ) :
    WritesNumeral m value str base ↔ 0 ≤ value ∨ (base = 10 ∧ value ≠ Int64.minValue) := by
  obtain ⟨b, hbase⟩ := Int.eq_ofNat_of_zero_le (by omega : 0 ≤ base.toInt)
  have hten := base_eq_ten hbase
  constructor
  · intro h
    by_contra hnot
    rw [not_or, Int64.not_le, hten] at hnot
    obtain ⟨hneg, hnot⟩ := hnot
    by_cases hb : b = 10
    · -- the negation overflows
      obtain ⟨rounds, m', s, hrun, -⟩ := h
      have hmin : value = Int64.minValue := by
        by_contra hmin
        exact hnot ⟨hb, hmin⟩
      rw [itoa_overflow ⟨hmin, hten.mpr hb⟩] at hrun
      exact absurd hrun (by simp)
    · exact not_writesNumeral_negative hbase (by omega) (by omega) hb hneg m str h
  · intro hex
    have hdef : ¬ Overflows value base := by
      intro hover
      rcases hex with hnonneg | hdec
      · rw [hover.1] at hnonneg
        exact absurd hnonneg (by decide)
      · exact hdec.2 hover.1
    have hwritten : Written value b (backwards value b).reverse := by
      by_cases hneg : value < 0
      · rcases hex with hnonneg | hdec
        · exact absurd hneg (Int64.not_lt.mpr hnonneg)
        · rw [hten.mp hdec.1]
          exact written_decimal hneg
      · exact written_nonneg (by omega) (by omega) (Int64.not_lt.mp hneg)
    obtain ⟨rounds, m', hrun⟩ := itoa_ends hbase (by omega) (by omega) hdef m str
    obtain ⟨hstring, houtside⟩ := itoa_leaves hbase (by omega) (by omega) hdef hrun
    refine ⟨rounds, m', _, hrun, hstring, ?_, ?_⟩
    · rw [List.length_reverse]
      exact houtside
    · rw [hbase]
      exact hwritten

/-- Memory full of zeros. -/
def zeros : Memory := { byte := fun _ => 0, accessed := [] }

theorem writes_numeral_255 :
    WritesNumeral zeros 255 0x1000 16
      ↔ 0 ≤ (255 : Int64) ∨ ((16 : Int32) = 10 ∧ 255 ≠ Int64.minValue) :=
  writes_numeral_iff (by decide) (by decide) zeros 255 0x1000

/-- -1 in base 16 comes out as "/", the character below '0'. -/
theorem minus_one_hexadecimal :
    (itoa 3 zeros (-1) 0x1000 16).map (fun m => (m.byte 0x1000, m.byte 0x1001)) = some (0x2F, 0)
      ∧ ¬ WritesNumeral zeros (-1) 0x1000 16 :=
  ⟨by decide, not_writesNumeral_negative (b := 16) (by decide) (by omega) (by omega) (by omega)
    (by decide) zeros 0x1000⟩

end Hippos.Libc
