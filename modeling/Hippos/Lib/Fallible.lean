/-
  Hippos.Lib.Fallible — what fallible computations end with.

  A computation of type `Except ε α` ends with a value or with a fault.  `Ends P E` bounds both: the
  values meet `P`, the faults meet `E`.  The rules follow the ways such computations are put
  together, so a bound for a function comes from the bounds for what it calls, without a look at how
  that ends.

  Main results:
    * `bind_eq_ok` — a sequence goes through exactly when both of its parts do.
    * `Ends.bind`, `Ends.map`, `Ends.ite` — the rules, one for each way to put computations
      together.
    * `Ends.value`, `Ends.fault` — what a bound says of an outcome that is known.
-/
import Mathlib.Tactic.Common

namespace Hippos.Lib

variable {ε α β : Type}

/-- A value is handed to what follows. -/
@[simp] theorem ok_bind (a : α) (f : α → Except ε β) : ((.ok a : Except ε α) >>= f) = f a := rfl

/-- A fault ends the sequence. -/
@[simp] theorem error_bind (e : ε) (f : α → Except ε β) :
    ((.error e : Except ε α) >>= f) = .error e := rfl

/-- A fault is no value. -/
theorem not_ok_error (e : ε) : ¬ ∃ a, (.error e : Except ε α) = .ok a := by
  rintro ⟨a, h⟩
  cases h

/-- A sequence that goes through goes through its first part: the way to take a computation apart
    without unfolding what it is made of. -/
theorem bind_eq_ok {x : Except ε α} {f : α → Except ε β} {b : β} :
    (x >>= f) = .ok b ↔ ∃ a, x = .ok a ∧ f a = .ok b := by
  cases x with
  | ok a =>
    rw [ok_bind]
    constructor
    · exact fun h => ⟨a, rfl, h⟩
    · rintro ⟨a', ha, h⟩
      rw [Except.ok.inj ha]
      exact h
  | error e =>
    rw [error_bind]
    constructor
    · exact fun h => nomatch h
    · rintro ⟨a', ha, -⟩
      exact nomatch ha

/-- `x` ends with a value that meets `P`, or with a fault that meets `E`.  With `False` for one of
    them only the other is left. -/
def Ends (P : α → Prop) (E : ε → Prop) : Except ε α → Prop
  | .ok a => P a
  | .error e => E e

namespace Ends

variable {P : α → Prop} {Q : β → Prop} {E : ε → Prop} {x : Except ε α}

/-- **Sequencing**: the second computation starts from what the first one ends with. -/
theorem bind {f : α → Except ε β} (hx : Ends P E x) (hf : ∀ a, P a → Ends Q E (f a)) :
    Ends Q E (x >>= f) := by
  cases x with
  | ok a => exact hf a hx
  | error e => exact hx

/-- A total function of what a computation ends with. -/
theorem map {f : α → β} (hx : Ends P E x) (hf : ∀ a, P a → Q (f a)) : Ends Q E (x.map f) := by
  cases x with
  | ok a => exact hf a hx
  | error e => exact hx

/-- Weaker bounds, of either kind. -/
theorem mono {P' : α → Prop} {E' : ε → Prop} (hx : Ends P E x) (hP : ∀ a, P a → P' a)
    (hE : ∀ e, E e → E' e) : Ends P' E' x := by
  cases x with
  | ok a => exact hP a hx
  | error e => exact hE e hx

/-- A branch: each side may use its condition. -/
theorem ite {c : Prop} [Decidable c] {y : Except ε α} (hx : c → Ends P E x)
    (hy : ¬ c → Ends P E y) : Ends P E (if c then x else y) := by
  by_cases h : c
  · rw [if_pos h]
    exact hx h
  · rw [if_neg h]
    exact hy h

/-- The bound on a value that came out. -/
theorem value (hx : Ends P E x) {a : α} (h : x = .ok a) : P a := by
  rw [h] at hx
  exact hx

/-- The bound on a fault that came out. -/
theorem fault (hx : Ends P E x) {e : ε} (h : x = .error e) : E e := by
  rw [h] at hx
  exact hx

end Ends

end Hippos.Lib
