/-
  Hippos.Lib.Slots — a table of slots that are free or held by a key.

  Each key holds at most one slot.  Filling a free slot, or freeing one that is held, adds or
  removes one key and leaves the other holders alone; so a table is a finite set of keys with what
  their slots say, as far as anything looks keys up.

  `Shows` is that relation.  Its four rules are the ways in which a table can change in one slot;
  each keeps the keys distinct and says what the set of keys is then.

  Main results:
    * `Distinct.unique` — two slots of one key are the same slot.
    * `keys_length_eq_iff` — no slot is free exactly when there are as many keys as slots.
    * `Shows.fill`, `Shows.free`, `Shows.rewrite`, `Shows.blank` — one slot changed.
-/
import Mathlib.Data.Finset.Card
import Mathlib.Data.List.Nodup
import Mathlib.Tactic.Common

namespace Hippos.Lib

variable {σ κ : Type*}

/-- The keys that hold a slot. -/
def keys (key : σ → Option κ) (slots : List σ) : List κ := slots.filterMap key

/-- **Each key holds at most one slot.** -/
def Distinct (key : σ → Option κ) (slots : List σ) : Prop := (keys key slots).Nodup

variable {key : σ → Option κ}

/-- A key holds some slot. -/
theorem mem_keys {slots : List σ} {k : κ} : k ∈ keys key slots ↔ ∃ s ∈ slots, key s = some k :=
  List.mem_filterMap

/-- Two tables side by side. -/
theorem keys_append (a b : List σ) : keys key (a ++ b) = keys key a ++ keys key b :=
  List.filterMap_append

/-- A held slot adds its key. -/
theorem keys_held {s : σ} {k : κ} (h : key s = some k) (b : List σ) :
    keys key (s :: b) = k :: keys key b := List.filterMap_cons_some h

/-- A free slot adds none. -/
theorem keys_free {s : σ} (h : key s = none) (b : List σ) : keys key (s :: b) = keys key b :=
  List.filterMap_cons_none h

/-- A slot that is held among the others: its key and theirs. -/
theorem keys_held_perm {s : σ} {k : κ} (h : key s = some k) (a b : List σ) :
    (keys key (a ++ s :: b)).Perm (k :: (keys key a ++ keys key b)) := by
  rw [keys_append, keys_held h]
  exact List.perm_middle

/-- A free slot among the others: only theirs. -/
theorem keys_free_eq {s : σ} (h : key s = none) (a b : List σ) :
    keys key (a ++ s :: b) = keys key a ++ keys key b := by
  rw [keys_append, keys_free h]

/-- Two slots of one key are the same slot.  A search may therefore stop at the first slot it finds
    for its key. -/
theorem Distinct.unique {slots : List σ} (h : Distinct key slots) {s s' : σ} {k : κ}
    (hs : s ∈ slots) (hs' : s' ∈ slots) (hk : key s = some k) (hk' : key s' = some k) : s = s' := by
  obtain ⟨a, b, rfl⟩ := List.append_of_mem hs
  have hnot := (List.nodup_cons.mp ((keys_held_perm hk a b).nodup_iff.mp h)).1
  rw [← keys_append] at hnot
  rcases List.mem_append.mp hs' with ha | hb
  · exact absurd (mem_keys.mpr ⟨s', List.mem_append_left _ ha, hk'⟩) hnot
  · rcases List.mem_cons.mp hb with rfl | hb
    · rfl
    · exact absurd (mem_keys.mpr ⟨s', List.mem_append_right _ hb, hk'⟩) hnot

/-- A key is as often there as its slots. -/
theorem keys_length_le (key : σ → Option κ) (slots : List σ) :
    (keys key slots).length ≤ slots.length :=
  List.length_filterMap_le key slots

/-- No slot is free exactly when there are as many keys as slots.  Together with the bound above it,
    counting keys tells whether there is room. -/
theorem keys_length_eq_iff (key : σ → Option κ) (slots : List σ) :
    (keys key slots).length = slots.length ↔ ∀ s ∈ slots, key s ≠ none := by
  induction slots with
  | nil => exact ⟨fun _ s hs => absurd hs List.not_mem_nil, fun _ => rfl⟩
  | cons s slots ih =>
    have hle := keys_length_le key slots
    rw [List.forall_mem_cons, ← ih, List.length_cons]
    cases h : key s with
    | none =>
      rw [keys_free h]
      constructor
      · intro heq
        omega
      · exact fun hne => absurd rfl hne.1
    | some k =>
      rw [keys_held h, List.length_cons]
      constructor
      · exact fun heq => ⟨Option.some_ne_none k, by omega⟩
      · exact fun hne => by rw [hne.2]

/-- Counted from `i`, the slot `j` is such as `p` asks for. -/
def SlotAt (p : σ → Prop) (slots : List σ) (i j : ℕ) : Prop :=
  ∃ a s b, slots = a ++ s :: b ∧ j = i + a.length ∧ p s

/-- The first slot. -/
theorem SlotAt.here (p : σ → Prop) {s : σ} (h : p s) (slots : List σ) (i : ℕ) :
    SlotAt p (s :: slots) i i := ⟨[], s, slots, rfl, rfl, h⟩

/-- One of the others. -/
theorem SlotAt.later {p : σ → Prop} {slots : List σ} {i j : ℕ} (h : SlotAt p slots (i + 1) j)
    (s : σ) : SlotAt p (s :: slots) i j := by
  obtain ⟨a, s', b, hsplit, hj, hs'⟩ := h
  refine ⟨s :: a, s', b, by rw [hsplit]; rfl, ?_, hs'⟩
  rw [hj, List.length_cons]
  omega

/-- A slot changed by its index is changed where it stands. -/
theorem modify_append_cons (a : List σ) (s : σ) (b : List σ) (f : σ → σ) :
    (a ++ s :: b).modify a.length f = a ++ f s :: b := by
  induction a with
  | nil => rfl
  | cons x a ih => exact congrArg (x :: ·) ih

/-- **A table shows a set of keys and what their slots say.** -/
structure Shows {ν : Type*} (key : σ → Option κ) (value : σ → ν) (slots : List σ)
    (held : Finset κ) (tells : κ → ν) : Prop where
  distinct : Distinct key slots
  held : ∀ k, k ∈ held ↔ k ∈ keys key slots
  tells : ∀ s ∈ slots, ∀ k, key s = some k → value s = tells k

namespace Shows

variable {ν : Type*} {value : σ → ν} {held : Finset κ} {tells : κ → ν}

/-- What a free slot tells does not matter. -/
theorem blank {a b : List σ} {s s' : σ} (h : Shows key value (a ++ s :: b) held tells)
    (hs : key s = none) (hs' : key s' = none) : Shows key value (a ++ s' :: b) held tells where
  distinct := by
    rw [Distinct, keys_free_eq hs', ← keys_free_eq hs]
    exact h.distinct
  held k' := by rw [h.held, keys_free_eq hs, keys_free_eq hs']
  tells x hx k' hk' := by
    apply h.tells x _ k' hk'
    rcases List.mem_append.mp hx with ha | hb
    · exact List.mem_append_left _ ha
    · rcases List.mem_cons.mp hb with rfl | hb
      · rw [hs'] at hk'
        exact absurd hk' (Option.some_ne_none k').symm
      · exact List.mem_append_right _ (List.mem_cons_of_mem s hb)

variable [DecidableEq κ]

/-- As many keys as there are. -/
theorem card {slots : List σ} (h : Shows key value slots held tells) :
    held.card = (keys key slots).length := by
  rw [← List.toFinset_card_of_nodup h.distinct]
  congr 1
  ext k
  rw [List.mem_toFinset, h.held]

/-- **Filling a free slot adds its key.** -/
theorem fill {a b : List σ} {s s' : σ} {k : κ} (h : Shows key value (a ++ s :: b) held tells)
    (hs : key s = none) (hk : k ∉ held) (hs' : key s' = some k) :
    Shows key value (a ++ s' :: b) (insert k held) (Function.update tells k (value s')) where
  distinct := by
    -- the new key is held by no other slot
    have hnot : k ∉ keys key a ++ keys key b := by
      rw [← keys_free_eq hs, ← h.held]
      exact hk
    rw [Distinct, (keys_held_perm hs' a b).nodup_iff, List.nodup_cons, ← keys_free_eq hs]
    rw [← keys_free_eq hs] at hnot
    exact ⟨hnot, h.distinct⟩
  held k' := by
    rw [Finset.mem_insert, h.held, keys_free_eq hs, (keys_held_perm hs' a b).mem_iff, List.mem_cons]
  tells x hx k' hk' := by
    by_cases heq : k' = k
    · -- the slot that was filled
      subst heq
      rw [Function.update_self]
      rcases List.mem_append.mp hx with ha | hb
      · exact absurd ((h.held k').mpr (mem_keys.mpr ⟨x, List.mem_append_left _ ha, hk'⟩)) hk
      · rcases List.mem_cons.mp hb with rfl | hb
        · rfl
        · exact absurd ((h.held k').mpr
            (mem_keys.mpr ⟨x, List.mem_append_right _ (List.mem_cons_of_mem s hb), hk'⟩)) hk
    · rw [Function.update_of_ne heq]
      apply h.tells x _ k' hk'
      rcases List.mem_append.mp hx with ha | hb
      · exact List.mem_append_left _ ha
      · rcases List.mem_cons.mp hb with rfl | hb
        · exact absurd (Option.some.inj (hk'.symm.trans hs')) heq
        · exact List.mem_append_right _ (List.mem_cons_of_mem s hb)

/-- **Freeing a slot removes its key.** -/
theorem free {a b : List σ} {s s' : σ} {k : κ} (h : Shows key value (a ++ s :: b) held tells)
    (hs : key s = some k) (hs' : key s' = none) :
    Shows key value (a ++ s' :: b) (held.erase k) tells where
  distinct := by
    rw [Distinct, keys_free_eq hs']
    exact (List.nodup_cons.mp ((keys_held_perm hs a b).nodup_iff.mp h.distinct)).2
  held k' := by
    -- the key freed was held only here
    have hnot := (List.nodup_cons.mp ((keys_held_perm hs a b).nodup_iff.mp h.distinct)).1
    rw [Finset.mem_erase, h.held, keys_free_eq hs', (keys_held_perm hs a b).mem_iff, List.mem_cons]
    constructor
    · rintro ⟨hne, heq | hmem⟩
      · exact absurd heq hne
      · exact hmem
    · intro hmem
      refine ⟨?_, .inr hmem⟩
      rintro rfl
      exact hnot hmem
  tells x hx k' hk' := by
    apply h.tells x _ k' hk'
    rcases List.mem_append.mp hx with ha | hb
    · exact List.mem_append_left _ ha
    · rcases List.mem_cons.mp hb with rfl | hb
      · rw [hs'] at hk'
        exact absurd hk' (Option.some_ne_none k').symm
      · exact List.mem_append_right _ (List.mem_cons_of_mem s hb)

/-- **Rewriting a slot under its key changes what it tells**, and no key is added or removed. -/
theorem rewrite {a b : List σ} {s s' : σ} {k : κ} (h : Shows key value (a ++ s :: b) held tells)
    (hs : key s = some k) (hs' : key s' = some k) :
    Shows key value (a ++ s' :: b) (insert k held) (Function.update tells k (value s')) where
  distinct := by
    rw [Distinct, (keys_held_perm hs' a b).nodup_iff, ← (keys_held_perm hs a b).nodup_iff]
    exact h.distinct
  held k' := by
    rw [Finset.mem_insert, h.held, (keys_held_perm hs a b).mem_iff,
        (keys_held_perm hs' a b).mem_iff, List.mem_cons]
    tauto
  tells x hx k' hk' := by
    have hmem : x = s' ∨ x ∈ a ++ s :: b := by
      rcases List.mem_append.mp hx with ha | hb
      · exact .inr (List.mem_append_left _ ha)
      · rcases List.mem_cons.mp hb with heq | hb
        · exact .inl heq
        · exact .inr (List.mem_append_right _ (List.mem_cons_of_mem s hb))
    by_cases heq : k' = k
    · subst heq
      rw [Function.update_self]
      rcases hmem with rfl | hmem
      · rfl
      · -- another slot of the key would be this one
        have hnot := (List.nodup_cons.mp ((keys_held_perm hs a b).nodup_iff.mp h.distinct)).1
        rcases List.mem_append.mp hx with ha | hb
        · exact absurd (List.mem_append_left _ (mem_keys.mpr ⟨x, ha, hk'⟩)) hnot
        · rcases List.mem_cons.mp hb with rfl | hb
          · rfl
          · exact absurd (List.mem_append_right _ (mem_keys.mpr ⟨x, hb, hk'⟩)) hnot
    · rw [Function.update_of_ne heq]
      rcases hmem with rfl | hmem
      · exact absurd (Option.some.inj (hk'.symm.trans hs')) heq
      · exact h.tells x hmem k' hk'

end Shows

end Hippos.Lib
