/-
  Hippos.Lib.Numeral — numerals in bases up to 36.

  A numeral is read from the left, one digit at a time, and has no digit 0 in front of others.
  Mathlib's `Nat.digits` puts the least significant digit first, which is also the order in which a
  number is taken apart; written backwards and spelled out, those digits are the numeral.  In a line
  of text a number stands between spaces, with a sign or zeros in front.

  The reading functions are the specification of what is written: `read_numeral` of a bare numeral,
  `read_integer` of one with a sign among spaces, `read_marked` of one with the mark of its base.
  For each there are the lemmas that take away what does not count.

  Main results:
    * `read_numeral_reverse` — digits written backwards read as the number they are of.
    * `isNumeral_digits` — the numeral of a positive number.
    * `ofDigits_take_places` — the last digits are the number modulo a power of the base.
    * `read_integer_spaces_front`, `read_integer_spaces_end`, `read_digits_zeros` — what does not
      count.
    * `read_integer_unsigned`, `read_integer_minus`, `read_integer_plus` — a number with its sign.
-/
import Mathlib.Data.List.TakeWhile
import Mathlib.Data.Nat.Digits.Lemmas
import Mathlib.Tactic.Common

namespace Hippos.Lib

/-! ## §1. Reading. -/

/-- The value of a digit 0-9 or a-z. -/
def digit_value (c : UInt8) : Option ℕ :=
  if 0x30 ≤ c ∧ c ≤ 0x39 then some (c.toNat - 0x30)
  else if 0x61 ≤ c ∧ c ≤ 0x7A then some (c.toNat - 0x61 + 10)
  else none

/-- One more digit on the right. -/
def read_digit (base n : ℕ) (c : UInt8) : Option ℕ :=
  (digit_value c).bind fun d => if d < base then some (base * n + d) else none

/-- The number a text stands for in `base`. -/
def read_numeral (base : ℕ) (s : List UInt8) : Option ℕ := s.foldlM (read_digit base) 0

/-- **`s` is the numeral of `n`**: it reads as `n`, and the digit 0 stands in front only of
    nothing. -/
structure IsNumeral (base : ℕ) (s : List UInt8) (n : ℕ) : Prop where
  reads : read_numeral base s = some n
  nonempty : s ≠ []
  no_leading_zero : s.head? = some 0x30 → s = [0x30]

/-- A numeral starts with a digit. -/
theorem IsNumeral.head {base : ℕ} {c : UInt8} {s : List UInt8} {n : ℕ} (h : IsNumeral base s n)
    (hc : s.head? = some c) : digit_value c ≠ none := by
  intro hnone
  cases s with
  | nil => exact h.nonempty rfl
  | cons c' s =>
    obtain rfl := Option.some.inj hc
    have hreads := h.reads
    rw [read_numeral, List.foldlM_cons, read_digit, hnone] at hreads
    exact absurd hreads (by simp)

/-! ## §2. Writing. -/

/-- The digit of value `d`. -/
def digit_char (d : ℕ) : UInt8 :=
  if d ≤ 9 then UInt8.ofNat (0x30 + d) else UInt8.ofNat (0x61 + d - 10)

/-- A digit is read back.  There are 36 of them. -/
theorem digit_value_char {d : ℕ} (h : d < 36) : digit_value (digit_char d) = some d := by
  have hall : ∀ d < 36, digit_value (digit_char d) = some d := by decide
  exact hall d h

/-- Only the digit 0 is written as 0. -/
theorem digit_char_eq_zero {d : ℕ} (h : d < 36) (hzero : digit_char d = 0x30) : d = 0 := by
  have hall : ∀ d < 36, digit_char d = 0x30 → d = 0 := by decide
  exact hall d h hzero

/-- **Digits written backwards read as the number they are of.**  By induction on the digits, the
    most significant of which is the last.  It is the lemma for every loop that divides and keeps
    remainders. -/
theorem read_numeral_reverse {base : ℕ} (hbase : base ≤ 36) (ds : List ℕ)
    (hds : ∀ d ∈ ds, d < base) :
    read_numeral base (ds.map digit_char).reverse = some (Nat.ofDigits base ds) := by
  induction ds with
  | nil => rfl
  | cons d ds ih =>
    have hd := hds d List.mem_cons_self
    have hrest := ih fun x hx => hds x (List.mem_cons_of_mem d hx)
    rw [read_numeral] at hrest ⊢
    -- the first digit is read last
    rw [List.map_cons, List.reverse_cons, List.foldlM_append, hrest]
    show read_digit base (Nat.ofDigits base ds) (digit_char d) >>= pure = _
    rw [read_digit, digit_value_char (by omega), Option.bind_some, if_pos hd, Nat.ofDigits_cons,
        Nat.add_comm]
    rfl

/-- **The numeral of a positive number** is its digits, most significant first, and it has no zero
    in front. -/
theorem isNumeral_digits {base n : ℕ} (hbase : 1 < base) (hmax : base ≤ 36) (hn : 0 < n) :
    IsNumeral base ((base.digits n).map digit_char).reverse n where
  reads := by
    rw [read_numeral_reverse hmax _ fun d hd => Nat.digits_lt_base hbase hd, Nat.ofDigits_digits]
  nonempty := by
    rw [ne_eq, List.reverse_eq_nil_iff, List.map_eq_nil_iff, Nat.digits_eq_nil_iff_eq_zero]
    omega
  no_leading_zero := by
    intro hhead
    have hne : base.digits n ≠ [] := by
      rw [ne_eq, Nat.digits_eq_nil_iff_eq_zero]
      omega
    -- the first character is the last digit, which is not 0
    rw [List.head?_reverse, List.getLast?_map, List.getLast?_eq_some_getLast hne,
        Option.map_some, Option.some.injEq] at hhead
    have hlt := Nat.digits_lt_base hbase (List.getLast_mem hne)
    exact absurd (digit_char_eq_zero (by omega) hhead)
      (Nat.getLast_digit_ne_zero base (by omega))

/-! ## §3. Places. -/

/-- The digits of `n`, least significant first, at least one. -/
def places (base n : ℕ) : List ℕ := n % base :: base.digits (n / base)

/-- A positive number has its digits. -/
theorem places_of_pos {base n : ℕ} (hbase : 1 < base) (hn : 0 < n) :
    places base n = base.digits n := (Nat.digits_def' hbase hn).symm

/-- One division gives one place. -/
theorem places_succ {base n : ℕ} (hbase : 1 < base) (h : n / base ≠ 0) :
    places base n = n % base :: places base (n / base) := by
  rw [places_of_pos hbase (Nat.pos_of_ne_zero h), places]

/-- Every place is below the base. -/
theorem places_lt {base n : ℕ} (hbase : 1 < base) {d : ℕ} (hd : d ∈ places base n) : d < base := by
  rcases List.mem_cons.mp hd with rfl | hd
  · exact Nat.mod_lt _ (by omega)
  · exact Nat.digits_lt_base hbase hd

/-- The first `k` places are the number modulo `base ^ k`, which is what is left when the others are
    cut off by a buffer that is full. -/
theorem ofDigits_take_places {base : ℕ} (hbase : 1 < base) (n k : ℕ) :
    Nat.ofDigits base ((places base n).take k) = n % base ^ k := by
  rw [← Nat.ofDigits_mod_pow_eq_ofDigits_take k (by omega) _ fun d hd => places_lt hbase hd, places,
      Nat.ofDigits_cons, Nat.ofDigits_digits, Nat.mod_add_div]

/-! ## §4. Integers among other characters. -/

/-- Upper-case letters count as lower-case ones. -/
def lower (c : UInt8) : UInt8 := if 0x41 ≤ c ∧ c ≤ 0x5A then c + 0x20 else c

/-- The number of a text in letters of either case. -/
def read_digits (base : ℕ) (s : List UInt8) : Option ℕ := read_numeral base (s.map lower)

/-- Zeros in front do not count, however many there are. -/
theorem read_digits_zeros {base : ℕ} (hbase : 0 < base) (k : ℕ) (s : List UInt8) :
    read_digits base (List.replicate k 0x30 ++ s) = read_digits base s := by
  induction k with
  | zero => rfl
  | succ k ih =>
    have hzero : read_digit base 0 (lower 0x30) = some 0 := by
      rw [read_digit, show digit_value (lower 0x30) = some 0 by decide, Option.bind_some,
          if_pos hbase, Nat.mul_zero]
    rw [← ih, List.replicate_succ, List.cons_append, read_digits, read_numeral, List.map_cons,
        List.foldlM_cons, hzero]
    rfl

/-- An integer up to the next space: a sign or none, and digits. -/
def read_signed (base : ℕ) (s : List UInt8) : Option ℤ :=
  match s with
  | 0x2D :: s => (read_digits base (s.takeWhile (· ≠ 0x20))).map fun n : ℕ => -(n : ℤ)
  | 0x2B :: s => (read_digits base (s.takeWhile (· ≠ 0x20))).map fun n : ℕ => (n : ℤ)
  | s => (read_digits base (s.takeWhile (· ≠ 0x20))).map fun n : ℕ => (n : ℤ)

/-- An integer with spaces in front. -/
def read_integer (base : ℕ) (s : List UInt8) : Option ℤ :=
  read_signed base (s.dropWhile (· = 0x20))

/-- Spaces in front do not count. -/
theorem read_integer_spaces_front (base k : ℕ) (s : List UInt8) :
    read_integer base (List.replicate k 0x20 ++ s) = read_integer base s := by
  have hspaces : ∀ c ∈ List.replicate k (0x20 : UInt8), decide (c = 0x20) = true := by
    intro c hc
    rw [List.eq_of_mem_replicate hc]
    rfl
  rw [read_integer, List.dropWhile_append_of_pos hspaces]
  rfl

/-- Without a sign only digits are read. -/
theorem read_signed_digits {base : ℕ} {s : List UInt8} (hminus : s.head? ≠ some 0x2D)
    (hplus : s.head? ≠ some 0x2B) :
    read_signed base s = (read_digits base (s.takeWhile (· ≠ 0x20))).map fun n : ℕ => (n : ℤ) := by
  unfold read_signed
  split
  · exact absurd rfl hminus
  · exact absurd rfl hplus
  · rfl

/-- Spaces behind a text do not make its first word longer. -/
theorem takeWhile_spaces (s : List UInt8) (k : ℕ) :
    (s ++ List.replicate k 0x20).takeWhile (· ≠ 0x20) = s.takeWhile (· ≠ 0x20) := by
  have hspaces : (List.replicate k (0x20 : UInt8)).takeWhile (· ≠ 0x20) = [] := by
    rw [List.takeWhile_replicate]
    rfl
  rw [List.takeWhile_append, hspaces]
  split_ifs with hall
  · have hs := List.takeWhile_sublist (fun c : UInt8 => decide (c ≠ 0x20)) (l := s)
    rw [List.append_nil, hs.eq_of_length hall]
  · rfl

/-- Spaces at the end do not count. -/
theorem read_integer_spaces_end (base k : ℕ) (s : List UInt8) :
    read_integer base (s ++ List.replicate k 0x20) = read_integer base s := by
  have hspaces : (List.replicate k (0x20 : UInt8)).dropWhile (· = 0x20) = [] := by
    rw [List.dropWhile_replicate]
    rfl
  unfold read_integer
  rw [List.dropWhile_append, hspaces]
  -- behind the spaces in front: nothing, or a first character that may be a sign
  cases s.dropWhile (· = 0x20) with
  | nil => rfl
  | cons c s =>
    show read_signed base (c :: (s ++ List.replicate k 0x20)) = read_signed base (c :: s)
    have htake := takeWhile_spaces s k
    by_cases hminus : c = 0x2D
    · subst hminus
      show (read_digits base ((s ++ List.replicate k 0x20).takeWhile (· ≠ 0x20))).map _ = _
      rw [htake]
      rfl
    · by_cases hplus : c = 0x2B
      · subst hplus
        show (read_digits base ((s ++ List.replicate k 0x20).takeWhile (· ≠ 0x20))).map _ = _
        rw [htake]
        rfl
      · have hminus' : ∀ s : List UInt8, (c :: s).head? ≠ some 0x2D :=
          fun _ h => hminus (Option.some.inj h)
        have hplus' : ∀ s : List UInt8, (c :: s).head? ≠ some 0x2B :=
          fun _ h => hplus (Option.some.inj h)
        rw [read_signed_digits (hminus' _) (hplus' _), read_signed_digits (hminus' _) (hplus' _),
            ← List.cons_append, takeWhile_spaces]

/-- A character that is neither a space nor a sign. -/
def Unsigned (c : UInt8) : Prop := c ≠ 0x20 ∧ c ≠ 0x2D ∧ c ≠ 0x2B

instance (c : UInt8) : Decidable (Unsigned c) := inferInstanceAs (Decidable (_ ∧ _))

/-- A text without spaces is one word. -/
theorem takeWhile_unsigned {s : List UInt8} (hs : ∀ c ∈ s, Unsigned c) :
    s.takeWhile (· ≠ 0x20) = s := by
  rw [List.takeWhile_eq_self_iff]
  intro c hc
  exact decide_eq_true (hs c hc).1

/-- And nothing is in front of it. -/
theorem dropWhile_unsigned {s : List UInt8} (hs : ∀ c ∈ s, Unsigned c) :
    s.dropWhile (· = 0x20) = s := by
  cases s with
  | nil => rfl
  | cons c s =>
    rw [List.dropWhile_cons_of_neg]
    rw [decide_eq_true_eq]
    exact (hs c List.mem_cons_self).1

/-- **Digits stand for themselves**, without a sign in front of them. -/
theorem read_integer_unsigned (base : ℕ) {s : List UInt8} (hs : ∀ c ∈ s, Unsigned c) :
    read_integer base s = (read_digits base s).map fun n : ℕ => (n : ℤ) := by
  have hhead : ∀ c, s.head? = some c → Unsigned c := fun c h => hs c (List.mem_of_head? h)
  rw [read_integer, dropWhile_unsigned hs, read_signed_digits, takeWhile_unsigned hs]
  · exact fun h => (hhead _ h).2.1 rfl
  · exact fun h => (hhead _ h).2.2 rfl

/-- A minus negates them. -/
theorem read_integer_minus (base : ℕ) {s : List UInt8} (hs : ∀ c ∈ s, Unsigned c) :
    read_integer base (0x2D :: s) = (read_digits base s).map fun n : ℕ => -(n : ℤ) := by
  show (read_digits base (s.takeWhile (· ≠ 0x20))).map _ = _
  rw [takeWhile_unsigned hs]

/-- A plus does not. -/
theorem read_integer_plus (base : ℕ) {s : List UInt8} (hs : ∀ c ∈ s, Unsigned c) :
    read_integer base (0x2B :: s) = (read_digits base s).map fun n : ℕ => (n : ℤ) := by
  show (read_digits base (s.takeWhile (· ≠ 0x20))).map _ = _
  rw [takeWhile_unsigned hs]

/-! ## §5. Numbers with a mark. -/

/-- The first word of a text. -/
def word (s : List UInt8) : List UInt8 := (s.dropWhile (· = 0x20)).takeWhile (· ≠ 0x20)

/-- A word among spaces is found. -/
theorem word_padded {s : List UInt8} (hs : ∀ c ∈ s, Unsigned c) (i j : ℕ) :
    word (List.replicate i 0x20 ++ s ++ List.replicate j 0x20) = s := by
  have hspaces : ∀ k, ∀ c ∈ List.replicate k (0x20 : UInt8), decide (c = 0x20) = true := by
    intro k c hc
    rw [List.eq_of_mem_replicate hc]
    rfl
  rw [word, List.append_assoc, List.dropWhile_append_of_pos (hspaces i), List.dropWhile_append,
      dropWhile_unsigned hs, List.dropWhile_replicate]
  cases s with
  | nil => rfl
  | cons c s =>
    show ((c :: s) ++ List.replicate j 0x20).takeWhile (· ≠ 0x20) = c :: s
    rw [takeWhile_spaces, takeWhile_unsigned hs]

/-- What stands behind the mark of a base: `0x` or `0X` for 16, `0b` for 2, and 0 for the others. -/
def unmark (base : ℕ) (s : List UInt8) : Option (List UInt8) :=
  match s with
  | 0x30 :: s =>
    if base = 16 then
      if s.head? = some 0x78 ∨ s.head? = some 0x58 then some s.tail else none
    else if base = 2 then
      if s.head? = some 0x62 then some s.tail else none
    else some s
  | _ => none

/-- A number that has to have a mark, between spaces. -/
def read_marked (base : ℕ) (s : List UInt8) : Option ℕ :=
  (unmark base (word s)).bind (read_digits base)

end Hippos.Lib
