/-
  Hippos.Mem.Scan — what the loops of the allocator compute.

  One lemma per loop and per question: which bits it leaves (`…_bit`), what it answers (`…_fst`),
  which rows it reads (`…_touched`).  The last two are exact, so they serve both to show that an
  access stays inside the bitmap and to exhibit one that does not.  `kalloc_cases` then says once
  what a call of `kalloc` can do.

  The search is described through what `bitmap_check` sees and not through the bits, since that is
  what it goes by: a run is free when the check answers no for each of its numbers, whatever rows
  these lead to.  The look-ahead accepts exactly the free runs, and the scan answers the first start
  of one.  Both loops only read, so the words at the end are those at the start (`…_word`), and
  facts about the first round carry over to the later ones.

  Main results:
    * `use_loop_bit`, `free_loop_bit` — the marking loops rewrite their block and nothing else.
    * `look_ahead_fst`, `scan_fst_of_fits`, `scan_fst_of_not_fits` — what the search answers.
    * `scan_touched`, `find_touched` — which rows it reads, exactly.
    * `kalloc_cases` — the three things a call of `kalloc` can do.
-/
import Hippos.Mem.Pmm
import Hippos.Lib.FirstFit
import Mathlib.Data.Nat.Find

namespace Hippos.Mem

open Hippos.Lib

/-- Bit `i` looks free to `bitmap_check`. -/
def MapStorage.Free (map : MapStorage) (i : ℕ) : Prop := map.seen i = false

/-- What looks free depends on the words alone. -/
theorem MapStorage.Free_congr {map map' : MapStorage} (h : map'.word = map.word) :
    map'.Free = map.Free := by
  funext i
  unfold MapStorage.Free MapStorage.seen MapStorage.bit
  rw [h]

/-- A bit the check finds used does not look free. -/
theorem MapStorage.not_free_of_seen {map : MapStorage} {i : ℕ} (h : map.seen i = true) :
    ¬ map.Free i := by
  unfold MapStorage.Free
  rw [h]
  exact Bool.noConfusion

/-- Nor do the bits depend on anything else. -/
theorem MapStorage.bit_congr {map map' : MapStorage} (h : map'.word = map.word) (i : ℕ) :
    map'.bit i = map.bit i := by
  unfold MapStorage.bit
  rw [h]

/-! ## §1. The marking loops. -/

/-- A bit number of the block does not wrap. -/
theorem index_add_toNat {index : UInt64} {i n : ℕ} (hi : i < n) (h : index.toNat + n ≤ 2 ^ 64) :
    (index + UInt64.ofNat i).toNat = index.toNat + i := by
  rw [UInt64.toNat_add, UInt64.toNat_ofNat']
  omega

/-- Either loop rewrites the bits of the block and no other.  By induction on the rounds: `v` is
    what the operation writes. -/
theorem page_loop_bit {op : MapStorage → UInt64 → MapStorage} {v : Bool}
    (hop : ∀ map b i, (op map b).bit i = if i = b.toNat then v else map.bit i)
    (map : MapStorage) (index : UInt64) (n : ℕ) (h : index.toNat + n ≤ 2 ^ 64) (i : ℕ) :
    (page_loop op map index n).bit i
      = if index.toNat ≤ i ∧ i < index.toNat + n then v else map.bit i := by
  induction n with
  | zero =>
    rw [page_loop, if_neg (by omega)]
  | succ n ih =>
    rw [page_loop, hop, ih (by omega), index_add_toNat (Nat.lt_succ_self n) h]
    -- the last round adds the last bit of the block
    split_ifs with hlast hbefore hblock hblock
    · rfl
    · omega
    · rfl
    · omega
    · omega
    · rfl

/-- The marking loop of `kalloc` uses exactly the pages of the block.  The loop adds to a 64-bit
    index, which the bound keeps from wrapping. -/
theorem use_loop_bit (map : MapStorage) (index : UInt64) (n : ℕ) (h : index.toNat + n ≤ 2 ^ 64)
    (i : ℕ) :
    (use_loop map index n).bit i
      = (decide (index.toNat ≤ i ∧ i < index.toNat + n) || map.bit i) := by
  have hop : ∀ map b i, (bitmap_use map b).bit i = if i = b.toNat then true else map.bit i := by
    intro map b i
    rw [bitmap_use_bit]
    by_cases hi : i = b.toNat <;> simp [hi]
  rw [use_loop, page_loop_bit hop map index n h i]
  split_ifs with hi <;> simp [hi]

/-- The loop of `kfree` frees exactly the pages of the block. -/
theorem free_loop_bit (map : MapStorage) (index : UInt64) (n : ℕ) (h : index.toNat + n ≤ 2 ^ 64)
    (i : ℕ) :
    (free_loop map index n).bit i
      = (!decide (index.toNat ≤ i ∧ i < index.toNat + n) && map.bit i) := by
  have hop : ∀ map b i, (bitmap_free map b).bit i = if i = b.toNat then false else map.bit i := by
    intro map b i
    rw [bitmap_free_bit]
    by_cases hi : i = b.toNat <;> simp [hi]
  rw [free_loop, page_loop_bit hop map index n h i]
  split_ifs with hi <;> simp [hi]

/-- Either loop reads and writes the rows of the block's bits. -/
theorem page_loop_touched {op : MapStorage → UInt64 → MapStorage}
    (hop : ∀ map b, (op map b).touched = b.toNat / 64 :: map.touched)
    (map : MapStorage) (index : UInt64) (n : ℕ) (h : index.toNat + n ≤ 2 ^ 64) (t : ℕ) :
    t ∈ (page_loop op map index n).touched
      ↔ t ∈ map.touched ∨ ∃ i < n, t = (index.toNat + i) / 64 := by
  induction n with
  | zero => simp [page_loop]
  | succ n ih =>
    rw [page_loop, hop, List.mem_cons, ih (by omega), index_add_toNat (Nat.lt_succ_self n) h]
    simp only [Nat.lt_succ_iff_lt_or_eq, or_and_right, exists_or, exists_eq_left]
    rw [or_comm, or_assoc]

/-- The rows that marking a block touches. -/
theorem use_loop_touched (map : MapStorage) (index : UInt64) (n : ℕ)
    (h : index.toNat + n ≤ 2 ^ 64) (t : ℕ) :
    t ∈ (use_loop map index n).touched
      ↔ t ∈ map.touched ∨ ∃ i < n, t = (index.toNat + i) / 64 :=
  page_loop_touched bitmap_use_touched map index n h t

/-- And those that freeing one does. -/
theorem free_loop_touched (map : MapStorage) (index : UInt64) (n : ℕ)
    (h : index.toNat + n ≤ 2 ^ 64) (t : ℕ) :
    t ∈ (free_loop map index n).touched
      ↔ t ∈ map.touched ∨ ∃ i < n, t = (index.toNat + i) / 64 :=
  page_loop_touched bitmap_free_touched map index n h t

/-! ## §2. The look-ahead. -/

/-- The 64-bit sum of two bit numbers leads the check to the same bit as the exact sum. -/
theorem seen_add (map : MapStorage) (b i : UInt64) :
    map.seen (b + i).toNat = map.seen (b.toNat + i.toNat) := by
  unfold MapStorage.seen
  rw [UInt64.toNat_add]
  congr 1
  omega

/-- And to the same row. -/
theorem seenRow_add (b i : UInt64) : seenRow (b + i).toNat = seenRow (b.toNat + i.toNat) := by
  unfold seenRow
  rw [UInt64.toNat_add]
  omega

/-- The test `page_count_i == page_count - 1` holds in the last round only. -/
theorem last_round_iff {n i : UInt64} {rounds : ℕ} (h : n.toNat = i.toNat + (rounds + 1)) :
    (i == n - 1) = decide (rounds = 0) := by
  have hn := n.toNat_lt
  rw [Bool.eq_iff_iff, beq_iff_eq, decide_eq_true_iff, ← UInt64.toNat_inj, UInt64.toNat_sub,
      UInt64.toNat_one]
  omega

/-- Where a round follows, the counter is incremented without a wrap. -/
theorem succ_toNat {n i : UInt64} {rounds : ℕ} (h : n.toNat = i.toNat + (rounds + 1)) :
    (i + 1).toNat = i.toNat + 1 := by
  have hn := n.toNat_lt
  rw [UInt64.toNat_add, UInt64.toNat_one]
  omega

/-- One round of the look-ahead: a used bit ends it, and so does the last round, with a yes. -/
theorem look_ahead_succ (b n : UInt64) (rounds : ℕ) (i : UInt64) (map : MapStorage)
    (h : n.toNat = i.toNat + (rounds + 1)) :
    look_ahead b n (rounds + 1) i map
      = if map.seen (b.toNat + i.toNat) then (false, map.touch (seenRow (b.toNat + i.toNat)))
        else if rounds = 0 then (true, map.touch (seenRow (b.toNat + i.toNat)))
        else look_ahead b n rounds (i + 1) (map.touch (seenRow (b.toNat + i.toNat))) := by
  rw [look_ahead]
  simp only [bitmap_check_fst, bitmap_check_snd, last_round_iff h, seen_add, seenRow_add,
    decide_eq_true_eq]

/-- It only reads. -/
theorem look_ahead_word (b n : UInt64) (rounds : ℕ) :
    ∀ (i : UInt64) (map : MapStorage), (look_ahead b n rounds i map).2.word = map.word := by
  induction rounds with
  | zero => intro i map; rfl
  | succ rounds ih =>
    intro i map
    simp only [look_ahead, bitmap_check_fst, bitmap_check_snd]
    split_ifs
    · rfl
    · rfl
    · rw [ih, MapStorage.touch_word]

/-- **The look-ahead accepts exactly the free runs.**  By induction on the rounds left: the first
    page seen as used ends the loop, and what has been read before is only touched. -/
theorem look_ahead_fst (b n : UInt64) (rounds : ℕ) :
    ∀ (i : UInt64) (map : MapStorage), n.toNat = i.toNat + rounds →
      ((look_ahead b n rounds i map).1 = true
        ↔ 0 < rounds ∧ FreeRun map.Free (b.toNat + i.toNat) rounds) := by
  induction rounds with
  | zero => intro i map _; simp [look_ahead]
  | succ rounds ih =>
    intro i map h
    rw [look_ahead_succ b n rounds i map h, freeRun_succ]
    by_cases hused : map.seen (b.toNat + i.toNat) = true
    · -- a used bit breaks the loop
      have hnot : ¬ map.Free (b.toNat + i.toNat) := MapStorage.not_free_of_seen hused
      simp [hused, hnot]
    · have hfree : map.Free (b.toNat + i.toNat) := Bool.eq_false_iff.mpr hused
      rw [if_neg hused]
      by_cases hlast : rounds = 0
      · -- the last round returns
        subst hlast
        simp [hfree, freeRun_zero]
      · -- the other rounds look at the next bit
        have hi := succ_toNat h
        rw [if_neg hlast, ih (i + 1) _ (by omega), hi, ← Nat.add_assoc,
            MapStorage.Free_congr (MapStorage.touch_word _ _)]
        simp [hfree, Nat.pos_of_ne_zero hlast]

/-- **The look-ahead reads the run it follows and the bit that stops it.**  It comes to bit `j` of
    the run when the bits before it are free. -/
theorem look_ahead_touched (b n : UInt64) (rounds : ℕ) :
    ∀ (i : UInt64) (map : MapStorage), n.toNat = i.toNat + rounds → ∀ t,
      (t ∈ (look_ahead b n rounds i map).2.touched
        ↔ t ∈ map.touched ∨ ∃ j < rounds, FreeRun map.Free (b.toNat + i.toNat) j
            ∧ t = seenRow (b.toNat + i.toNat + j)) := by
  induction rounds with
  | zero => intro i map _ t; simp [look_ahead]
  | succ rounds ih =>
    intro i map h t
    rw [look_ahead_succ b n rounds i map h]
    rw [exists_run_succ (Q := fun k => t = seenRow k)]
    by_cases hused : map.seen (b.toNat + i.toNat) = true
    · have hnot : ¬ map.Free (b.toNat + i.toNat) := MapStorage.not_free_of_seen hused
      simp only [hused, if_true, MapStorage.touch_touched, List.mem_cons, hnot, false_and,
        or_false]
      exact or_comm
    · have hfree : map.Free (b.toNat + i.toNat) := Bool.eq_false_iff.mpr hused
      rw [if_neg hused]
      by_cases hlast : rounds = 0
      · subst hlast
        simp only [if_true, MapStorage.touch_touched, List.mem_cons, Nat.not_lt_zero, false_and,
          exists_false, and_false, or_false]
        exact or_comm
      · have hi := succ_toNat h
        rw [if_neg hlast, ih (i + 1) _ (by omega) t, hi, ← Nat.add_assoc,
            MapStorage.Free_congr (MapStorage.touch_word _ _), MapStorage.touch_touched,
            List.mem_cons, or_assoc, or_left_comm]
        simp only [hfree, true_and]

/-! ## §3. The scan. -/

/-- A request for `n` pages can be served at `b`. -/
def Fits (map : MapStorage) (n b : ℕ) : Prop := 0 < n ∧ FreeRun map.Free b n

/-- Whether a request fits depends on the words alone. -/
theorem Fits_congr {map map' : MapStorage} (h : map'.word = map.word) : Fits map' = Fits map := by
  funext n b
  unfold Fits
  rw [MapStorage.Free_congr h]

/-- The first page of a fit looks free. -/
theorem Fits.free {map : MapStorage} {n b : ℕ} (h : Fits map n b) : map.Free b := h.2 0 h.1

/-- One round of the scan. -/
theorem scan_succ (n : UInt64) (rounds : ℕ) (b : UInt64) (map : MapStorage) :
    scan n (rounds + 1) b map
      = if map.seen b.toNat then scan n rounds (b + 1) (map.touch (seenRow b.toNat))
        else
          let ahead := look_ahead b n n.toNat 0 (map.touch (seenRow b.toNat))
          if ahead.1 then (BIT_TO_PAGE b, ahead.2) else scan n rounds (b + 1) ahead.2 := by
  rw [scan]
  simp only [bitmap_check_fst, bitmap_check_snd]

/-- The look-ahead of the scan decides `Fits`. -/
theorem ahead_fst (n b : UInt64) (map : MapStorage) (row : ℕ) :
    ((look_ahead b n n.toNat 0 (map.touch row)).1 = true) ↔ Fits map n.toNat b.toNat := by
  rw [look_ahead_fst b n n.toNat 0 _ (by simp)]
  simp only [UInt64.toNat_zero, Nat.add_zero, Fits,
    MapStorage.Free_congr (MapStorage.touch_word map row)]

/-- And changes nothing. -/
theorem ahead_word (n b : UInt64) (map : MapStorage) (row : ℕ) :
    (look_ahead b n n.toNat 0 (map.touch row)).2.word = map.word := by
  rw [look_ahead_word, MapStorage.touch_word]

/-- Nothing fits at a used bit. -/
theorem not_fits_of_seen {map : MapStorage} {n b : ℕ} (h : map.seen b = true) :
    ¬ Fits map n b := by
  intro hfits
  exact MapStorage.not_free_of_seen h hfits.free

/-- The scan's bit number does not wrap. -/
theorem bit_succ_toNat {b : UInt64} {rounds : ℕ} (h : b.toNat + (rounds + 1) ≤ 2 ^ 52) :
    (b + 1).toNat = b.toNat + 1 := by
  rw [UInt64.toNat_add, UInt64.toNat_one]
  omega

/-- The scan only reads. -/
theorem scan_word (n : UInt64) (rounds : ℕ) :
    ∀ (b : UInt64) (map : MapStorage), (scan n rounds b map).2.word = map.word := by
  induction rounds with
  | zero => intro b map; rfl
  | succ rounds ih =>
    intro b map
    rw [scan_succ]
    dsimp only
    split_ifs
    · rw [ih, MapStorage.touch_word]
    · exact ahead_word n b map _
    · rw [ih, ahead_word]

/-- **The scan answers the first fit.**  By induction on the rounds left: the fit is at the first
    bit, or no round before it succeeds and the rest of the scan finds it. -/
theorem scan_fst_of_fits (n : UInt64) (rounds : ℕ) :
    ∀ (b : UInt64) (map : MapStorage), b.toNat + rounds ≤ 2 ^ 52 →
      ∀ c : UInt64, b ≤ c → c.toNat < b.toNat + rounds → Fits map n.toNat c.toNat →
        (∀ d, b.toNat ≤ d → d < c.toNat → ¬ Fits map n.toNat d) →
        (scan n rounds b map).1 = BIT_TO_PAGE c := by
  induction rounds with
  | zero =>
    intro b map _ c hbc hc _ _
    rw [UInt64.le_iff_toNat_le] at hbc
    omega
  | succ rounds ih =>
    intro b map hbound c hbc hc hfits hleast
    have hb1 := bit_succ_toNat hbound
    rw [UInt64.le_iff_toNat_le] at hbc
    rw [scan_succ]
    dsimp only
    by_cases hcb : c = b
    · -- this round finds it
      subst hcb
      rw [if_neg (fun hseen => not_fits_of_seen hseen hfits),
          if_pos ((ahead_fst n c map _).mpr hfits)]
    · -- a later round does
      have hne : c.toNat ≠ b.toNat := fun heq => hcb (UInt64.toNat_inj.mp heq)
      have hnotb : ¬ Fits map n.toNat b.toNat := hleast b.toNat (Nat.le_refl _) (by omega)
      -- whether the round looks ahead or not, the words are the same for the next one
      have hlater : ∀ map', map'.word = map.word →
          (scan n rounds (b + 1) map').1 = BIT_TO_PAGE c := by
        intro map' hword
        refine ih (b + 1) map' (by omega) c ?_ (by omega) ?_ ?_
        · rw [UInt64.le_iff_toNat_le]
          omega
        · rw [Fits_congr hword]
          exact hfits
        · intro d hd hdc
          rw [Fits_congr hword]
          exact hleast d (by omega) hdc
      split_ifs with hseen hahead
      · exact hlater _ (MapStorage.touch_word _ _)
      · exact absurd ((ahead_fst n b map _).mp hahead) hnotb
      · exact hlater _ (ahead_word n b map _)

/-- A scan that meets no fit answers `NULL`. -/
theorem scan_fst_of_not_fits (n : UInt64) (rounds : ℕ) :
    ∀ (b : UInt64) (map : MapStorage), b.toNat + rounds ≤ 2 ^ 52 →
      (∀ d, b.toNat ≤ d → d < b.toNat + rounds → ¬ Fits map n.toNat d) →
        (scan n rounds b map).1 = NULL := by
  induction rounds with
  | zero => intro b map _ _; rfl
  | succ rounds ih =>
    intro b map hbound hnone
    have hb1 := bit_succ_toNat hbound
    have hlater : ∀ map', map'.word = map.word → (scan n rounds (b + 1) map').1 = NULL := by
      intro map' hword
      apply ih (b + 1) map' (by omega)
      intro d hd hdr
      rw [Fits_congr hword]
      exact hnone d (by omega) (by omega)
    rw [scan_succ]
    dsimp only
    split_ifs with hseen hahead
    · -- the first bit is used
      exact hlater _ (MapStorage.touch_word _ _)
    · -- the look-ahead never succeeds
      exact absurd ((ahead_fst n b map _).mp hahead) (hnone _ (Nat.le_refl _) (by omega))
    · -- it fails
      exact hlater _ (ahead_word n b map _)

/-- Row `t` is read by the round of the scan at `c`. -/
def ReadAt (map : MapStorage) (n c t : ℕ) : Prop :=
  ∃ j, (j = 0 ∨ j < n) ∧ FreeRun map.Free c j ∧ t = seenRow (c + j)

/-- Which rows are read depends on the words alone. -/
theorem ReadAt_congr {map map' : MapStorage} (h : map'.word = map.word) :
    ReadAt map' = ReadAt map := by
  funext n c t
  unfold ReadAt
  rw [MapStorage.Free_congr h]

/-- A round that finds its first bit used reads that bit only. -/
theorem readAt_of_seen {map : MapStorage} {n c t : ℕ} (h : map.seen c = true) :
    ReadAt map n c t ↔ t = seenRow c := by
  constructor
  · intro hex
    obtain ⟨j, -, hrun, ht⟩ := hex
    cases j with
    | zero => exact ht
    | succ j => exact absurd (freeRun_succ.mp hrun).1 (MapStorage.not_free_of_seen h)
  · intro ht
    exact ⟨0, Or.inl rfl, freeRun_zero, ht⟩

/-- A round that finds its first bit free reads that bit and looks ahead. -/
theorem ahead_touched (n b : UInt64) (map : MapStorage) (t : ℕ) :
    t ∈ (look_ahead b n n.toNat 0 (map.touch (seenRow b.toNat))).2.touched
      ↔ t ∈ map.touched ∨ ReadAt map n.toNat b.toNat t := by
  rw [look_ahead_touched b n n.toNat 0 _ (by simp) t, MapStorage.touch_touched, List.mem_cons,
      MapStorage.Free_congr (MapStorage.touch_word _ _)]
  simp only [UInt64.toNat_zero, Nat.add_zero, ReadAt]
  constructor
  · intro h
    rcases h with (ht | ht) | ⟨j, hj, hrun, ht⟩
    · exact Or.inr ⟨0, Or.inl rfl, freeRun_zero, ht⟩
    · exact Or.inl ht
    · exact Or.inr ⟨j, Or.inr hj, hrun, ht⟩
  · intro h
    rcases h with ht | ⟨j, hj | hj, hrun, ht⟩
    · exact Or.inl (Or.inr ht)
    · subst hj
      exact Or.inl (Or.inl ht)
    · exact Or.inr ⟨j, hj, hrun, ht⟩

/-- **The scan reads what its rounds read, up to the round that finds a fit.**  An equivalence, so
    that a row that is read can be exhibited as well as excluded. -/
theorem scan_touched (n : UInt64) (rounds : ℕ) :
    ∀ (b : UInt64) (map : MapStorage), b.toNat + rounds ≤ 2 ^ 52 → ∀ t,
      (t ∈ (scan n rounds b map).2.touched
        ↔ t ∈ map.touched ∨ ∃ c, b.toNat ≤ c ∧ c < b.toNat + rounds
            ∧ (∀ d, b.toNat ≤ d → d < c → ¬ Fits map n.toNat d)
            ∧ ReadAt map n.toNat c t) := by
  induction rounds with
  | zero =>
    intro b map _ t
    have hnone : ¬ ∃ c, b.toNat ≤ c ∧ c < b.toNat + 0
        ∧ (∀ d, b.toNat ≤ d → d < c → ¬ Fits map n.toNat d) ∧ ReadAt map n.toNat c t := by
      intro hex
      obtain ⟨c, hbc, hc, -⟩ := hex
      omega
    rw [scan, iff_false_intro hnone, or_false]
  | succ rounds ih =>
    intro b map hbound t
    have hb1 := bit_succ_toNat hbound
    have hlater : ∀ map', map'.word = map.word →
        (t ∈ (scan n rounds (b + 1) map').2.touched ↔ t ∈ map'.touched
          ∨ ∃ c, (b + 1).toNat ≤ c ∧ c < (b + 1).toNat + rounds
              ∧ (∀ d, (b + 1).toNat ≤ d → d < c → ¬ Fits map n.toNat d)
              ∧ ReadAt map n.toNat c t) := by
      intro map' hword
      have h := ih (b + 1) map' (by omega) t
      rwa [Fits_congr hword, ReadAt_congr hword] at h
    -- the rounds are the one at `b` and, if that finds nothing, the later ones
    rw [exists_before_hit_succ, ← hb1, scan_succ]
    dsimp only
    split_ifs with hseen hahead
    · -- the first bit is used: one row, then the later rounds
      rw [hlater _ (MapStorage.touch_word _ _), readAt_of_seen hseen, MapStorage.touch_touched,
          List.mem_cons, iff_true_intro (not_fits_of_seen hseen), true_and, or_assoc,
          or_left_comm]
    · -- the round finds a fit: no later rounds
      have hfits := (ahead_fst n b map _).mp hahead
      rw [ahead_touched, iff_false_intro (not_not_intro hfits), false_and, or_false]
    · -- the look-ahead fails: its rows, then the later rounds
      have hnot : ¬ Fits map n.toNat b.toNat :=
        fun hfits => hahead ((ahead_fst n b map _).mpr hfits)
      rw [hlater _ (ahead_word n b map _), ahead_touched, iff_true_intro hnot, true_and,
          or_assoc]

/-! ## §4. A call of `kalloc`. -/

/-- A page number in a 52-bit window survives the trip through a pointer: the multiplication by 4096
    does not wrap. -/
theorem page_to_bit_to_page {b : UInt64} (h : b.toNat < 2 ^ 52) :
    PAGE_TO_BIT (BIT_TO_PAGE b) = b := by
  rw [← UInt64.toNat_inj, PAGE_TO_BIT, BIT_TO_PAGE, UInt64.toNat_div, UInt64.toNat_mul]
  simp only [PAGE_SIZE, UInt64.reduceToNat]
  omega

/-- Only page 0 has the address the scan uses for failure. -/
theorem bit_to_page_eq_null {b : UInt64} (h : b.toNat < 2 ^ 52) :
    BIT_TO_PAGE b = NULL ↔ b = 0 := by
  constructor
  · intro heq
    rw [← page_to_bit_to_page h, heq]
    rfl
  · intro hex
    subst hex
    rfl

/-- The search meets the first fit, which is not page 0 when that is reserved. -/
theorem find_of_fits (p : PmmBitmap) (n : UInt64) (hT : p.total_pages.toNat ≤ 2 ^ 52)
    (h0 : ¬ p.storage.Free 0) (hex : ∃ b, b < p.total_pages.toNat ∧ Fits p.storage n.toNat b) :
    ∃ b : UInt64, 0 < b.toNat ∧ b.toNat < p.total_pages.toNat
      ∧ Fits p.storage n.toNat b.toNat ∧ (∀ d < b.toNat, ¬ Fits p.storage n.toNat d)
      ∧ (find_first_free_page_range p n).1 = BIT_TO_PAGE b := by
  classical
  -- the search starts at bit 0 and does not wrap
  have hstart : (0 : UInt64).toNat + p.total_pages.toNat ≤ 2 ^ 52 := by simpa using hT
  obtain ⟨hb, hfits⟩ := Nat.find_spec hex
  have hmin : ∀ d < Nat.find hex, ¬ Fits p.storage n.toNat d :=
    fun d hd hfitsd => Nat.find_min hex hd ⟨by omega, hfitsd⟩
  generalize Nat.find hex = b at hb hfits hmin
  have hpos : 0 < b := by
    rcases Nat.eq_zero_or_pos b with hb0 | hpos
    · rw [hb0] at hfits
      exact absurd hfits.free h0
    · exact hpos
  have hbn : (UInt64.ofNat b).toNat = b := UInt64.toNat_ofNat_of_lt' (by
    have := p.total_pages.toNat_lt
    simp only [UInt64.size]
    omega)
  refine ⟨UInt64.ofNat b, by omega, by omega, by rwa [hbn], by rwa [hbn], ?_⟩
  refine scan_fst_of_fits n _ 0 _ hstart (UInt64.ofNat b) UInt64.zero_le ?_ ?_ ?_
  · rw [hbn, UInt64.toNat_zero, Nat.zero_add]
    exact hb
  · rw [hbn]
    exact hfits
  · intro d _ hd
    exact hmin d (by omega)

/-- **What `kalloc` can do**, once page 0 is reserved: refuse on the counter, refuse after a scan
    that meets no fit, or hand out the first fit.  Page 0 must be used because its address is the
    scan's answer for failure. -/
theorem kalloc_cases (g_hhdm_offset : UInt64) (p : PmmBitmap) (n : UInt64)
    (hT : p.total_pages.toNat ≤ 2 ^ 52) (h0 : ¬ p.storage.Free 0) :
    (p.total_pages ≤ p.used_pages ∧ kalloc g_hhdm_offset p n = (none, p))
    ∨ (p.used_pages < p.total_pages
        ∧ (∀ b < p.total_pages.toNat, ¬ Fits p.storage n.toNat b)
        ∧ kalloc g_hhdm_offset p n
            = (none, { p with storage := (find_first_free_page_range p n).2 }))
    ∨ (p.used_pages < p.total_pages
        ∧ ∃ b : UInt64, 0 < b.toNat ∧ b.toNat < p.total_pages.toNat
          ∧ Fits p.storage n.toNat b.toNat ∧ (∀ d < b.toNat, ¬ Fits p.storage n.toNat d)
          ∧ kalloc g_hhdm_offset p n
              = (some (p.lowest_address + BIT_TO_PAGE b + g_hhdm_offset),
                  { p with
                    storage := use_loop (find_first_free_page_range p n).2 b n.toNat
                    used_pages := p.used_pages + n })) := by
  have hstart : (0 : UInt64).toNat + p.total_pages.toNat ≤ 2 ^ 52 := by simpa using hT
  by_cases hfast : p.used_pages ≥ p.total_pages
  · exact Or.inl ⟨hfast, by rw [kalloc, if_pos hfast]⟩
  have hlt : p.used_pages < p.total_pages := UInt64.not_le.mp hfast
  rw [kalloc, if_neg hfast]
  dsimp only
  apply Or.inr
  by_cases hex : ∃ b, b < p.total_pages.toNat ∧ Fits p.storage n.toNat b
  · -- the scan finds a fit, whose pointer is not `NULL`
    obtain ⟨b, hpos, hb, hfits, hmin, hfind⟩ := find_of_fits p n hT h0 hex
    have hne : b ≠ 0 := by
      intro heq
      rw [heq] at hpos
      exact absurd hpos (Nat.lt_irrefl 0)
    have hnull : (BIT_TO_PAGE b == NULL) = false := by
      rw [beq_eq_false_iff_ne, ne_eq, bit_to_page_eq_null (by omega)]
      exact hne
    refine Or.inr ⟨hlt, b, hpos, hb, hfits, hmin, ?_⟩
    rw [hfind, hnull, page_to_bit_to_page (by omega)]
    rfl
  · -- the scan meets no fit
    have hnone : ∀ b < p.total_pages.toNat, ¬ Fits p.storage n.toNat b :=
      fun b hb hfits => hex ⟨b, hb, hfits⟩
    have hfind : (find_first_free_page_range p n).1 = NULL :=
      scan_fst_of_not_fits n _ 0 _ hstart fun d _ hd => hnone d (by simpa using hd)
    refine Or.inl ⟨hlt, hnone, ?_⟩
    rw [hfind]
    rfl

/-- The search only reads. -/
theorem find_word (p : PmmBitmap) (n : UInt64) :
    (find_first_free_page_range p n).2.word = p.storage.word := scan_word n _ 0 _

/-- **The rows a search reads**: those of the pages it starts from and of the pages it looks ahead
    to, which may lie behind the window. -/
theorem find_touched (p : PmmBitmap) (n : UInt64) (hT : p.total_pages.toNat ≤ 2 ^ 52) (t : ℕ) :
    t ∈ (find_first_free_page_range p n).2.touched
      ↔ t ∈ p.storage.touched ∨ ∃ c < p.total_pages.toNat,
          (∀ d < c, ¬ Fits p.storage n.toNat d) ∧ ReadAt p.storage n.toNat c t := by
  rw [find_first_free_page_range, scan_touched n _ 0 _ (by simpa using hT) t]
  simp only [UInt64.toNat_zero, Nat.zero_le, Nat.zero_add, true_and, forall_const]

end Hippos.Mem
