/-
  Hippos.Lib.Reach — what holds along every run.

  A run of a step relation is `Relation.ReflTransGen`.  Two rules are used everywhere: an invariant
  needs only its step case, and a forward simulation carries every concrete run to an abstract one.
  A run of a transition function is a fold over its inputs; there a guard on every step separates
  the runs that keep an invariant from those that leave it for good, and a fold that keeps a running
  minimum or maximum ends with a bound that is attained.

  Main results:
    * `reach_invariant`, `reach_simulation` — invariants and simulations of a step relation.
    * `foldl_invariant`, `foldl_violates` — guarded runs, and those that miss a guard.
    * `foldl_attainedBound` — a running bound is attained.
-/
import Mathlib.Logic.Relation

namespace Hippos.Lib

open Relation

/-! ## §1. Step relations. -/

variable {α β : Type*} {r : α → α → Prop} {q : β → β → Prop}

/-- **Invariant rule.**  A property that every step preserves survives every run.  The induction on
    the run is made here, once for all clients; what is left to them is the step. -/
theorem reach_invariant {P : α → Prop} (step : ∀ a a', P a → r a a' → P a')
    {a a' : α} (h : P a) (run : ReflTransGen r a a') : P a' := by
  induction run with
  | refl => exact h
  | tail _ last ih => exact step _ _ ih last

/-- **Forward simulation.**  If every concrete step is matched by an abstract run, then so is every
    concrete run.  A step may be matched by the empty run, where the abstract system sees nothing of
    it. -/
theorem reach_simulation {R : α → β → Prop}
    (step : ∀ a a' b, R a b → r a a' → ∃ b', ReflTransGen q b b' ∧ R a' b')
    {a a' : α} {b : β} (h : R a b) (run : ReflTransGen r a a') :
    ∃ b', ReflTransGen q b b' ∧ R a' b' := by
  induction run with
  | refl => exact ⟨b, .refl, h⟩
  | tail _ last ih =>
    obtain ⟨b₁, run₁, h₁⟩ := ih
    obtain ⟨b₂, run₂, h₂⟩ := step _ _ _ h₁ last
    exact ⟨b₂, run₁.trans run₂, h₂⟩

/-! ## §2. Guarded folds. -/

section Guarded

variable {σ ι : Type*} {f : σ → ι → σ} {ok : σ → ι → Prop}

/-- Every input meets its guard in the state it is read in. -/
def Guarded (f : σ → ι → σ) (ok : σ → ι → Prop) : σ → List ι → Prop
  | _, [] => True
  | s, i :: is => ok s i ∧ Guarded f ok (f s i) is

/-- A run in two parts is guarded when both are, the second from where the first one ends. -/
theorem guarded_append (is js : List ι) :
    ∀ s, Guarded f ok s (is ++ js) ↔ Guarded f ok s is ∧ Guarded f ok (is.foldl f s) js := by
  induction is with
  | nil => intro s; simp [Guarded]
  | cons i is ih =>
    intro s
    rw [List.cons_append, Guarded, Guarded, ih, List.foldl_cons, and_assoc]

/-- **A guarded run keeps the invariant.**  The guard of an input is about the state that it is read
    in, so it comes from the run itself. -/
theorem foldl_invariant {P : σ → Prop} (step : ∀ s i, P s → ok s i → P (f s i)) (is : List ι) :
    ∀ s, P s → Guarded f ok s is → P (is.foldl f s) := by
  induction is with
  | nil => exact fun s h _ => h
  | cons i is ih => exact fun s h hg => ih (f s i) (step s i h hg.1) hg.2

/-- What no step undoes, no run undoes. -/
theorem foldl_stays {P : σ → Prop} (stay : ∀ s i, P s → P (f s i)) (is : List ι) :
    ∀ s, P s → P (is.foldl f s) := by
  induction is with
  | nil => exact fun s h => h
  | cons i is ih => exact fun s h => ih (f s i) (stay s i h)

/-- **A run that misses a guard ends badly**, when missing one is bad and bad is for good.  Beside
    `foldl_invariant` it makes the guards necessary as well as sufficient. -/
theorem foldl_violates {P : σ → Prop} (stay : ∀ s i, P s → P (f s i))
    (enter : ∀ s i, ¬ ok s i → P (f s i)) (is : List ι) :
    ∀ s, ¬ Guarded f ok s is → P (is.foldl f s) := by
  induction is with
  | nil => exact fun s h => absurd trivial h
  | cons i is ih =>
    intro s h
    rw [List.foldl_cons]
    by_cases hi : ok s i
    · exact ih (f s i) fun hg => h ⟨hi, hg⟩
    · exact foldl_stays stay is (f s i) (enter s i hi)

end Guarded

/-! ## §3. Running bounds. -/

/-- `m` bounds `a` and the offered values below (for `le`), and is one of them. -/
structure AttainedBound {ι γ : Type*} (le : γ → γ → Prop) (offers : ι → Prop) (value : ι → γ)
    (is : List ι) (a m : γ) : Prop where
  start : le m a
  bound : ∀ i ∈ is, offers i → le m (value i)
  attained : m = a ∨ ∃ i ∈ is, offers i ∧ m = value i

/-- **A fold that keeps a running bound ends with an attained one**, when each round does so for the
    input it reads.  The relation is any preorder, so minima and maxima are both instances. -/
theorem foldl_attainedBound {σ ι γ : Type*} {le : γ → γ → Prop} {offers : ι → Prop}
    {value : ι → γ} {f : σ → ι → σ} {key : σ → γ} (refl : ∀ a, le a a)
    (trans : ∀ a b c, le a b → le b c → le a c)
    (step : ∀ s i, AttainedBound le offers value [i] (key s) (key (f s i))) (is : List ι) :
    ∀ s, AttainedBound le offers value is (key s) (key (is.foldl f s)) := by
  induction is with
  | nil =>
    intro s
    exact ⟨refl _, fun _ hi => absurd hi List.not_mem_nil, Or.inl rfl⟩
  | cons i is ih =>
    intro s
    -- the first round, then the others
    obtain ⟨hle₁, hbound₁, hatt₁⟩ := step s i
    obtain ⟨hle₂, hbound₂, hatt₂⟩ := ih (f s i)
    rw [List.foldl_cons]
    refine ⟨trans _ _ _ hle₂ hle₁, ?_, ?_⟩
    · intro j hj hoffer
      -- the bound after all rounds is below the one after the first
      rcases List.mem_cons.mp hj with rfl | hj
      · exact trans _ _ _ hle₂ (hbound₁ j (List.mem_singleton.mpr rfl) hoffer)
      · exact hbound₂ j hj hoffer
    · rcases hatt₂ with heq | ⟨j, hj, hoffer, heq⟩
      · -- no later value improved on the first round
        rcases hatt₁ with heq₁ | ⟨j, hj, hoffer, heq₁⟩
        · exact Or.inl (heq.trans heq₁)
        · rw [List.mem_singleton.mp hj] at hoffer heq₁
          exact Or.inr ⟨i, List.mem_cons_self, hoffer, heq.trans heq₁⟩
      · exact Or.inr ⟨j, List.mem_cons_of_mem i hj, hoffer, heq⟩

end Hippos.Lib
