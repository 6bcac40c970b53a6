/-
  Hippos.Lib.Machine — machines that answer their inputs and may fault.

  A transition function takes a state and an input to an output and a new state, or to a fault.  One
  machine refines another when related states answer every input alike and stay related; then they
  answer every sequence of inputs alike, up to and including the fault at which a sequence ends.

  Main results:
    * `Matches.bind` — computations that match, one after the other.
    * `runs_refine` — from one input to every run: refinement.
    * `runs_invariant` — from one input to every run: invariants.
-/
import Hippos.Lib.Fallible

namespace Hippos.Lib

variable {ε α β σ τ ι ω : Type}

/-- Both end in the same fault, or with related values: neither of the two computations can fail
    where the other goes through. -/
def Matches (R : α → β → Prop) : Except ε α → Except ε β → Prop
  | .ok a, .ok b => R a b
  | .error e, .error e' => e = e'
  | _, _ => False

/-- Sequencing: related values go on to computations that match, and a fault ends both.  `hf` is
    asked for related values only. -/
theorem Matches.bind {α' β' : Type} {R : α → β → Prop} {R' : α' → β' → Prop}
    {x : Except ε α} {y : Except ε β} {f : α → Except ε α'} {g : β → Except ε β'}
    (h : Matches R x y) (hf : ∀ a b, R a b → Matches R' (f a) (g b)) :
    Matches R' (x >>= f) (y >>= g) := by
  cases x with
  | ok a =>
    cases y with
    | ok b => exact hf a b h
    | error e => exact h.elim
  | error e =>
    cases y with
    | ok b => exact h.elim
    | error e' => exact h

/-- When the one goes through, so does the other. -/
theorem Matches.value {R : α → β → Prop} {x : Except ε α} {b : β} (h : Matches R x (.ok b)) :
    ∃ a, x = .ok a ∧ R a b := by
  cases x with
  | ok a => exact ⟨a, rfl, h⟩
  | error e => exact h.elim

/-- And the other way round. -/
theorem Matches.symm_value {R : α → β → Prop} {a : α} {y : Except ε β}
    (h : Matches R (.ok a) y) : ∃ b, y = .ok b ∧ R a b := by
  cases y with
  | ok b => exact ⟨b, rfl, h⟩
  | error e => exact h.elim

/-- What a run outputs, and where it ends; the first fault ends it. -/
def runs (f : σ → ι → Except ε (ω × σ)) : σ → List ι → Except ε (List ω × σ)
  | s, [] => .ok ([], s)
  | s, i :: is => do
    let (o, s) ← f s i
    let (os, s) ← runs f s is
    .ok (o :: os, s)

/-- The same output, and related states. -/
def Answers (R : σ → τ → Prop) (r : ω × σ) (q : ω × τ) : Prop := r.1 = q.1 ∧ R r.2 q.2

/-- **Machines that answer every input alike answer every run alike.**  By induction on the inputs,
    with the relation for the states they have led to.  Faults are part of the answer, so the runs
    also end at the same input. -/
theorem runs_refine {f : σ → ι → Except ε (ω × σ)} {g : τ → ι → Except ε (ω × τ)}
    {R : σ → τ → Prop} (step : ∀ s t i, R s t → Matches (Answers R) (f s i) (g t i))
    (is : List ι) :
    ∀ s t, R s t → Matches (Answers R) (runs f s is) (runs g t is) := by
  induction is with
  | nil => exact fun s t h => ⟨rfl, h⟩
  | cons i is ih =>
    intro s t h
    apply (step s t i h).bind
    rintro r q ⟨hout, hstate⟩
    apply (ih r.2 q.2 hstate).bind
    rintro r' q' ⟨hout', hstate'⟩
    refine ⟨?_, hstate'⟩
    show r.1 :: r'.1 = q.1 :: q'.1
    rw [hout, hout']

/-- **An invariant of every answered input is one of every answered run.**  Inputs that end in a
    fault need not keep it, since nothing comes after them. -/
theorem runs_invariant {f : σ → ι → Except ε (ω × σ)} {P : σ → Prop}
    (step : ∀ s i r, P s → f s i = .ok r → P r.2) (is : List ι) :
    ∀ s r, P s → runs f s is = .ok r → P r.2 := by
  induction is with
  | nil =>
    intro s r h hrun
    obtain rfl := Except.ok.inj hrun
    exact h
  | cons i is ih =>
    intro s r h hrun
    rw [runs] at hrun
    obtain ⟨q, hfirst, hrun⟩ := bind_eq_ok.mp hrun
    obtain ⟨q', hrest, hrun⟩ := bind_eq_ok.mp hrun
    obtain rfl := Except.ok.inj hrun
    exact ih q.2 q' (step s i q h hfirst) hrest

end Hippos.Lib
