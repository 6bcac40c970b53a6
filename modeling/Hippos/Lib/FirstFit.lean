/-
  Hippos.Lib.FirstFit — runs of free numbers and the least one that fits.

  `FreeRun free b n` says that `n` consecutive numbers from `b` on are free, `FirstFit` that `b` is
  the least start below a bound.  Two facts carry the clients: a number that is not free stops every
  run before it, and under a period no run that avoids `0` leaves the first period.

  A search for a run is two nested loops, over the starts and along each run.  What they look at on
  their way is unrolled one number at a time, in the two lemmas `exists_run_succ` and
  `exists_before_hit_succ`, so that an induction over the rounds of a loop can follow them.

  Main results:
    * `freeRun_succ`, `exists_run_succ`, `exists_before_hit_succ` — one step of a run, of a look
      along it, and of a search.
    * `firstFit_iff` — the least start, without the set it is the least of.
    * `FirstFit.le_period` — first fit stays in the first period.
-/
import Mathlib.Order.Bounds.Basic
import Mathlib.Tactic.Common
import Mathlib.Algebra.GroupWithZero.Nat

namespace Hippos.Lib

/-- `n` consecutive free numbers starting at `b`. -/
def FreeRun (free : ℕ → Prop) (b n : ℕ) : Prop := ∀ i < n, free (b + i)

/-- `b` is the least start below `bound` of a run of `n` free numbers. -/
def FirstFit (free : ℕ → Prop) (bound n b : ℕ) : Prop :=
  IsLeast {b | b < bound ∧ FreeRun free b n} b

variable {free : ℕ → Prop} {bound n b s p : ℕ}

/-- A run stays one when its own numbers stay free. -/
theorem FreeRun.mono {free' : ℕ → Prop} (h : FreeRun free b n)
    (himp : ∀ i, b ≤ i → i < b + n → free i → free' i) : FreeRun free' b n :=
  fun i hi => himp (b + i) (by omega) (by omega) (h i hi)

/-- An empty run fits everywhere. -/
theorem freeRun_zero : FreeRun free b 0 := fun _ hi => absurd hi (Nat.not_lt_zero _)

/-- A run is its first number and the run behind it.  This is the equation that a loop over the run
    follows, round by round. -/
theorem freeRun_succ : FreeRun free b (n + 1) ↔ free b ∧ FreeRun free (b + 1) n := by
  constructor
  · intro h
    refine ⟨h 0 (Nat.succ_pos n), ?_⟩
    intro i hi
    rw [Nat.add_right_comm, Nat.add_assoc]
    exact h (i + 1) (Nat.succ_lt_succ hi)
  · intro h i hi
    obtain ⟨hb, h⟩ := h
    cases i with
    | zero => exact hb
    | succ i =>
      rw [← Nat.add_assoc, Nat.add_right_comm]
      exact h i (Nat.lt_of_succ_lt_succ hi)

/-- A look along a run, bit by bit: the first number is looked at in any case, the others only when
    it is free.  `Q` is what is recorded of each number looked at. -/
theorem exists_run_succ {Q : ℕ → Prop} :
    (∃ j < n + 1, FreeRun free b j ∧ Q (b + j))
      ↔ Q b ∨ free b ∧ ∃ j < n, FreeRun free (b + 1) j ∧ Q (b + 1 + j) := by
  constructor
  · intro h
    obtain ⟨j, hj, hrun, hq⟩ := h
    cases j with
    | zero => exact Or.inl hq
    | succ j =>
      obtain ⟨hfree, hrun⟩ := freeRun_succ.mp hrun
      rw [show b + (j + 1) = b + 1 + j by omega] at hq
      exact Or.inr ⟨hfree, j, by omega, hrun, hq⟩
  · intro h
    rcases h with hq | ⟨hfree, j, hj, hrun, hq⟩
    · exact ⟨0, Nat.succ_pos n, freeRun_zero, hq⟩
    · rw [show b + 1 + j = b + (j + 1) by omega] at hq
      exact ⟨j + 1, by omega, freeRun_succ.mpr ⟨hfree, hrun⟩, hq⟩

/-- A search up to its first hit: the first number is tried in any case, the later ones only when it
    is no hit.  `R` is what the attempt at a number records. -/
theorem exists_before_hit_succ {hit R : ℕ → Prop} :
    (∃ c, b ≤ c ∧ c < b + (n + 1) ∧ (∀ d, b ≤ d → d < c → ¬ hit d) ∧ R c)
      ↔ R b ∨ ¬ hit b ∧ ∃ c, b + 1 ≤ c ∧ c < b + 1 + n
          ∧ (∀ d, b + 1 ≤ d → d < c → ¬ hit d) ∧ R c := by
  constructor
  · intro h
    obtain ⟨c, hbc, hc, hnone, hr⟩ := h
    by_cases hcb : c = b
    · rw [hcb] at hr
      exact Or.inl hr
    · exact Or.inr ⟨hnone b (Nat.le_refl b) (by omega), c, by omega, by omega,
        fun d hd hdc => hnone d (by omega) hdc, hr⟩
  · intro h
    rcases h with hr | ⟨hnot, c, hbc, hc, hnone, hr⟩
    · exact ⟨b, Nat.le_refl b, by omega, fun d hd hdb => absurd hd (by omega), hr⟩
    · refine ⟨c, by omega, by omega, ?_, hr⟩
      intro d hd hdc
      by_cases hdb : d = b
      · rw [hdb]
        exact hnot
      · exact hnone d (by omega) hdc

/-- **A number that is not free stops every run.** -/
theorem FreeRun.le_stop (h : FreeRun free b n) (hs : ¬ free s) (hb : b ≤ s) : b + n ≤ s := by
  by_contra hlt
  have hfree := h (s - b) (by omega)
  rw [Nat.add_sub_cancel' hb] at hfree
  exact hs hfree

/-- The least start: below the bound, free, and with no earlier start, whether or not that is below
    the bound too.  An earlier one is, so the two readings of "least" are one. -/
theorem firstFit_iff :
    FirstFit free bound n b ↔
      b < bound ∧ FreeRun free b n ∧ ∀ c < b, ¬ FreeRun free c n := by
  constructor
  · intro h
    obtain ⟨⟨hlt, hrun⟩, hleast⟩ := h
    refine ⟨hlt, hrun, ?_⟩
    intro c hc hrunc
    have hle : b ≤ c := hleast ⟨by omega, hrunc⟩
    omega
  · intro h
    obtain ⟨hlt, hrun, hmin⟩ := h
    refine ⟨⟨hlt, hrun⟩, ?_⟩
    intro c hc
    by_contra hle
    exact hmin c (by omega) hc.2

/-- **First fit stays in the first period** when `0` is not free: then no multiple of the period is,
    so a run that starts below one ends there, and one that starts above it could have started a
    period earlier. -/
theorem FirstFit.le_period (h : FirstFit free bound n b) (hp : 0 < p)
    (hper : ∀ i, free (i + p) ↔ free i) (h0 : ¬ free 0) : b + n ≤ p := by
  obtain ⟨hlt, hrun, hmin⟩ := firstFit_iff.mp h
  have hstop : ¬ free p := by
    have hp0 := hper 0
    rw [Nat.zero_add] at hp0
    rw [hp0]
    exact h0
  apply hrun.le_stop hstop
  -- a start past the period would also start one period earlier
  by_contra hpb
  have hearlier : FreeRun free (b - p) n := by
    intro i hi
    rw [← hper (b - p + i), show b - p + i + p = b + i by omega]
    exact hrun i hi
  exact hmin (b - p) (by omega) hearlier

end Hippos.Lib
