/-
  Hippos.Mem.Bounds — which rows of the bitmap a run accesses.

  `touched` collects the rows of every access since boot.  They stay below `size` when three things
  hold of the memory map: there is a row at all, every page given to the allocator has its bit in an
  initialised row, and no free run the search can start on reaches the end of the rows.  Each of
  them is also necessary.  Past 2^32 rows the third is void: `bitmap_check` then truncates its row
  number back into the bitmap, and first fit stays in the first 2^38 bits.

  The proof that they suffice is an invariant over runs, `InRange`: bits that were used at boot stay
  used, and blocks are made of bits that were free then.  A stop that boot has left therefore stops
  the search in every later state.  The other direction exhibits a run: where no stop follows some
  start, one request for 2^63 pages, which never fits, makes the look-ahead read on to the row
  behind the last.

  Main results:
    * `InRange.read_lt`, `InRange.fit_inside` — what a search reads, and what it finds.
    * `InRange.step` — one call keeps the run in range.
    * `overrun` — without a stop the search leaves the rows.
    * `rows_inside_iff` — every access stays inside exactly on the maps whose rows suffice.
-/
import Hippos.Mem.Placement

namespace Hippos.Mem

open Hippos.Lib
open Relation

/-- Every row accessed so far is one of the `size` rows that were initialised. -/
def RowsInside (p : PmmBitmap) : Prop := ∀ t ∈ p.storage.touched, t < p.size.toNat

/-- **The memory maps whose bitmap is large enough.**  `scan_bound` is the number of bits the search
    starts at, which is not the number of bits there are. -/
structure RowsSuffice (entries : List LimineMemmapEntry) : Prop where
  some_row : 0 < (survey entries).size.toNat
  given : ∀ i, BootPage entries (survey entries) i → i < 64 * (survey entries).size.toNat
  stopped : (survey entries).size.toNat < 2 ^ 32 →
    (∃ i, BootPage entries (survey entries) i) → ∀ b < scan_bound entries,
      ∃ j, b ≤ j ∧ j < 64 * (survey entries).size.toNat
        ∧ (j = 0 ∨ ¬ BootPage entries (survey entries) j)

/-! ## §1. The invariant. -/

/-- What a run keeps: accesses inside the rows, the bits that were used at boot, and blocks made of
    bits that were free at boot. -/
structure InRange (g_hhdm_offset : UInt64) (p : PmmBitmap) (s : KernelState) : Prop where
  frame : s.pmm = { p with storage := s.pmm.storage, used_pages := s.pmm.used_pages }
  rows : RowsInside s.pmm
  kept : ∀ i < 64 * p.size.toNat, p.storage.bit i = true → s.pmm.storage.bit i = true
  blocks : ∀ a ∈ s.outstanding, ∀ i ∈ span (block_of g_hhdm_offset p.lowest_address a),
    i < 64 * p.size.toNat ∧ p.storage.bit i = false

/-- Every start of a search is stopped inside the rows by a bit that was used at boot. -/
def Stopped (p : PmmBitmap) : Prop :=
  p.size.toNat < 2 ^ 32 → ∀ b < p.total_pages.toNat,
    ∃ j, b ≤ j ∧ j < 64 * p.size.toNat ∧ p.storage.bit j = true

section Run

variable {g_hhdm_offset : UInt64} {entries : List LimineMemmapEntry} {p : PmmBitmap}
  {bs : List Block} {s : KernelState}

/-- The search starts at fewer than 2^52 bits. -/
theorem Booted.total_le (b : Booted entries p bs) : p.total_pages.toNat ≤ 2 ^ 52 := by
  have h1 := b.total_eq
  have h2 := window_pages_lt p
  omega

/-- There are fewer rows than that. -/
theorem Booted.size_lt (b : Booted entries p bs) : p.size.toNat < 2 ^ 52 := by
  have h1 := b.size_eq
  have h2 := window_pages_lt p
  omega

/-- Bit 0 is set after boot, where there is a row for it. -/
theorem Booted.zero_bit (b : Booted entries p bs) (hpos : 0 < p.size.toNat) :
    p.storage.bit 0 = true := by
  rw [b.bit_eq 0 (by omega)]
  exact decide_eq_true (Or.inl rfl)

/-- A bit that `bitmap_check` can name sees itself. -/
theorem not_free_of_bit {map : MapStorage} {j : ℕ} (hj : j < 2 ^ 38) (h : map.bit j = true) :
    ¬ map.Free j := by
  rw [MapStorage.Free, MapStorage.seen_of_lt _ hj, h]
  exact Bool.noConfusion

/-- Page 0 looks used throughout. -/
theorem InRange.zero_used (b : Booted entries p bs) (hpos : 0 < p.size.toNat)
    (h : InRange g_hhdm_offset p s) : ¬ s.pmm.storage.Free 0 :=
  not_free_of_bit (by omega) (h.kept 0 (by omega) (b.zero_bit hpos))

/-- The number of rows is that of boot. -/
theorem InRange.size (h : InRange g_hhdm_offset p s) : s.pmm.size = p.size := by rw [h.frame]

/-- So is the lower end of the window. -/
theorem InRange.lowest (h : InRange g_hhdm_offset p s) :
    s.pmm.lowest_address = p.lowest_address := by rw [h.frame]

/-- And the bound of the search. -/
theorem InRange.total_pages (h : InRange g_hhdm_offset p s) :
    s.pmm.total_pages = p.total_pages := by rw [h.frame]

/-- **A round of the search reads inside the rows.**  It reads the bits of a free run and the one
    after it; the run ends at the stop, or the row number is truncated. -/
theorem InRange.read_lt (hstop : Stopped p) (h : InRange g_hhdm_offset p s) {n c t : ℕ}
    (hc : c < p.total_pages.toNat) (hread : ReadAt s.pmm.storage n c t) : t < p.size.toNat := by
  obtain ⟨i, -, hrun, rfl⟩ := hread
  rcases Nat.lt_or_ge p.size.toNat (2 ^ 32) with hsmall | hlarge
  · -- the run before the bit read ends at the stop
    obtain ⟨j, hcj, hj, hbit⟩ := hstop hsmall c hc
    have hend : c + i ≤ j := hrun.le_stop (not_free_of_bit (by omega) (h.kept j hj hbit)) hcj
    rw [seenRow]
    omega
  · -- a truncated row number is inside anyway
    rw [seenRow]
    omega

/-- **A first fit is made of initialised bits that were free at boot.**  With 2^32 rows or more it
    is only its being the first that keeps it in the first 2^38 bits: what the check sees repeats
    after that. -/
theorem InRange.fit_inside (b : Booted entries p bs) (hpos : 0 < p.size.toNat) (hstop : Stopped p)
    (h : InRange g_hhdm_offset p s) {n c : ℕ} (hc : c < p.total_pages.toNat)
    (hfit : Fits s.pmm.storage n c) (hmin : ∀ d < c, ¬ Fits s.pmm.storage n d) :
    c + n ≤ 64 * p.size.toNat
      ∧ ∀ i ∈ span (c, n), i < 64 * p.size.toNat ∧ p.storage.bit i = false := by
  have hend : c + n ≤ 64 * p.size.toNat ∧ c + n ≤ 2 ^ 38 := by
    rcases Nat.lt_or_ge p.size.toNat (2 ^ 32) with hsmall | hlarge
    · -- stopped by a bit used at boot
      obtain ⟨j, hcj, hj, hbit⟩ := hstop hsmall c hc
      have hle : c + n ≤ j :=
        hfit.2.le_stop (not_free_of_bit (by omega) (h.kept j hj hbit)) hcj
      omega
    · -- first fit in the first period of the truncated row number
      have hfirst : FirstFit s.pmm.storage.Free p.total_pages.toNat n c :=
        firstFit_iff.mpr ⟨hc, hfit.2, fun d hd hrun => hmin d hd ⟨hfit.1, hrun⟩⟩
      have hle : c + n ≤ 2 ^ 38 := by
        have hper : ∀ i, s.pmm.storage.Free (i + 2 ^ 38) ↔ s.pmm.storage.Free i := by
          intro i
          rw [MapStorage.Free, MapStorage.seen_add_period, MapStorage.Free]
        exact hfirst.le_period (by omega) hper (h.zero_used b hpos)
      omega
  refine ⟨hend.1, ?_⟩
  intro i hi
  rw [mem_span] at hi
  refine ⟨by omega, ?_⟩
  have hfree := hfit.2 (i - c) (by omega)
  rw [show c + (i - c) = i by omega] at hfree
  by_contra hbit
  exact not_free_of_bit (by omega) (h.kept i (by omega) (by simpa using hbit)) hfree

/-- A search reads inside the rows. -/
theorem InRange.find_rows (b : Booted entries p bs) (hstop : Stopped p)
    (h : InRange g_hhdm_offset p s) (n : UInt64) :
    ∀ t ∈ (find_first_free_page_range s.pmm n).2.touched, t < p.size.toNat := by
  have htotal := h.total_pages
  have hsize := h.size
  intro t ht
  rw [find_touched s.pmm n (by rw [htotal]; exact b.total_le), htotal] at ht
  rcases ht with ht | ⟨c, hc, -, hread⟩
  · rw [← hsize]
    exact h.rows t ht
  · exact h.read_lt hstop hc hread

/-- Serving a request keeps the run in range: it marks a block of bits that were free at boot. -/
theorem InRange.serve (b : Booted entries p bs) (hpos : 0 < p.size.toNat) (hstop : Stopped p)
    (h : InRange g_hhdm_offset p s) (n : UInt64) {c : UInt64} (hc : c.toNat < p.total_pages.toNat)
    (hfit : Fits s.pmm.storage n.toNat c.toNat)
    (hmin : ∀ d < c.toNat, ¬ Fits s.pmm.storage n.toNat d) :
    InRange g_hhdm_offset p
      { pmm := { s.pmm with
          storage := use_loop (find_first_free_page_range s.pmm n).2 c n.toNat
          used_pages := s.pmm.used_pages + n }
        outstanding := (s.pmm.lowest_address + BIT_TO_PAGE c + g_hhdm_offset, n)
          :: s.outstanding } := by
  obtain ⟨hend, hinside⟩ := h.fit_inside b hpos hstop hc hfit hmin
  have hsizelt := b.size_lt
  have hsize := h.size
  have hlow := h.lowest
  have hT := b.total_le
  constructor
  case frame => rw [h.frame]
  case rows =>
    intro t ht
    rw [use_loop_touched _ _ _ (by omega)] at ht
    show t < s.pmm.size.toNat
    rw [hsize]
    -- read by the search, or written by the marking loop
    rcases ht with ht | ⟨i, hi, rfl⟩
    · exact h.find_rows b hstop n t ht
    · omega
  case kept =>
    intro i hi hbit
    rw [use_loop_bit _ _ _ (by omega), MapStorage.bit_congr (find_word s.pmm n), h.kept i hi hbit,
        Bool.or_true]
  case blocks =>
    intro a ha
    rcases List.mem_cons.mp ha with rfl | ha
    · have hblock : block_of g_hhdm_offset p.lowest_address
          (s.pmm.lowest_address + BIT_TO_PAGE c + g_hhdm_offset, n) = (c.toNat, n.toNat) := by
        rw [hlow]
        exact block_of_kalloc _ (by omega) n
      rw [hblock]
      exact hinside
    · exact h.blocks a ha

/-- Freeing an outstanding block keeps the run in range: none of its bits was used at boot. -/
theorem InRange.release (b : Booted entries p bs) (h : InRange g_hhdm_offset p s)
    {before after : List (UInt64 × UInt64)} {x n : UInt64}
    (hout : s.outstanding = before ++ (x, n) :: after) :
    InRange g_hhdm_offset p
      { pmm := kfree g_hhdm_offset s.pmm x n, outstanding := before ++ after } := by
  have hsizelt := b.size_lt
  have hsize := h.size
  have hlow := h.lowest
  have hpages := h.blocks (x, n) (by rw [hout]; simp)
  have hend := block_of_end fun i hi => Nat.lt_trans (hpages i hi).1 (by omega)
  rw [← hlow] at hpages hend
  constructor
  case frame =>
    rw [kfree, h.frame]
  case rows =>
    intro t ht
    rw [kfree_touched _ _ hend] at ht
    show t < s.pmm.size.toNat
    rcases ht with ht | ⟨i, hi, rfl⟩
    · exact h.rows t ht
    · have hlt := (hpages i hi).1
      rw [hsize]
      omega
  case kept =>
    intro i hi hbit
    -- the block is made of bits that were free at boot
    have hnot : i ∉ span (block_of g_hhdm_offset s.pmm.lowest_address (x, n)) := by
      intro hin
      rw [(hpages i hin).2] at hbit
      exact Bool.noConfusion hbit
    rw [kfree_bit _ _ hend, h.kept i hi hbit, decide_eq_false hnot]
    rfl
  case blocks =>
    intro a ha
    apply h.blocks a
    rw [hout]
    exact mem_middle.mpr (Or.inl (List.mem_append.mp ha))

/-- **One call keeps the run in range**, whichever of its cases is taken. -/
theorem InRange.step (b : Booted entries p bs) (hpos : 0 < p.size.toNat) (hstop : Stopped p)
    {s' : KernelState} (h : InRange g_hhdm_offset p s) (step : Step g_hhdm_offset s s') :
    InRange g_hhdm_offset p s' := by
  have htotal := h.total_pages
  have hsize := h.size
  have hcases := fun n => kalloc_cases g_hhdm_offset s.pmm n (by rw [htotal]; exact b.total_le)
    (h.zero_used b hpos)
  cases step with
  | kalloc_null n hnull =>
    rcases hcases n with ⟨-, hk⟩ | ⟨-, -, hk⟩ | ⟨-, c, -, -, -, -, hk⟩
    · -- refused on the counter: nothing was read
      rw [hk]
      exact h
    · -- refused after a scan
      rw [hk]
      refine ⟨by rw [h.frame], ?_, ?_, h.blocks⟩
      · intro t ht
        show t < s.pmm.size.toNat
        rw [hsize]
        exact h.find_rows b hstop n t ht
      · intro i hi hbit
        rw [MapStorage.bit_congr (find_word s.pmm n)]
        exact h.kept i hi hbit
    · rw [hk] at hnull
      exact absurd hnull (by simp)
  | kalloc_block n pointer hsome =>
    rcases hcases n with ⟨-, hk⟩ | ⟨-, -, hk⟩ | ⟨-, c, -, hc, hfit, hmin, hk⟩
    · rw [hk] at hsome
      exact absurd hsome (by simp)
    · rw [hk] at hsome
      exact absurd hsome (by simp)
    · -- served
      rw [hk] at hsome ⊢
      obtain rfl := Option.some.inj hsome
      rw [htotal] at hc
      exact h.serve b hpos hstop n hc hfit hmin
  | kfree before x n after hout => exact h.release b hout

/-- Nothing given, nothing ever searched: the counter refuses every request, so the run stays where
    it starts. -/
theorem idle_run (b : Booted entries p bs) (hnone : covered bs = ∅)
    (run : Reachable g_hhdm_offset p s) : s = ⟨p, []⟩ := by
  have hfull : p.used_pages ≥ p.total_pages := by
    have hused := b.used_eq
    rw [← card_covered b.apart, hnone, Finset.card_empty] at hused
    rw [ge_iff_le, UInt64.le_iff_toNat_le]
    omega
  have hk : ∀ n, kalloc g_hhdm_offset p n = (none, p) := by
    intro n
    rw [kalloc, if_pos hfull]
  refine reach_invariant (P := fun s => s = ⟨p, []⟩) ?_ rfl run
  intro s s' hs step
  subst hs
  -- no block is ever handed out, so there is none to free
  cases step with
  | kalloc_null n _ => simp only [hk n]
  | kalloc_block n pointer h =>
    simp only [hk n] at h
    exact absurd h (by simp)
  | kfree before x n after h => exact absurd h (by simp)

/-! ## §2. Running over the end. -/

/-- No run is as long as 2^63: bit 0 shows up again every 2^38 bits. -/
theorem no_huge_fit {map : MapStorage} (h0 : ¬ map.Free 0) (b : ℕ) : ¬ Fits map (2 ^ 63) b := by
  intro h
  have hmod : (b / 2 ^ 38 + 1) * 2 ^ 38 % 2 ^ 38 = 0 := Nat.mul_mod_left _ _
  have hfree := h.2 ((b / 2 ^ 38 + 1) * 2 ^ 38 - b) (by omega)
  rw [show b + ((b / 2 ^ 38 + 1) * 2 ^ 38 - b) = (b / 2 ^ 38 + 1) * 2 ^ 38 by omega,
      MapStorage.Free, MapStorage.seen, hmod] at hfree
  exact h0 hfree

/-- From a start after which every initialised bit is free, a look-ahead of 2^63 bits reads a row
    after the last one. -/
theorem read_outside (b : Booted entries p bs) (hsmall : p.size.toNat < 2 ^ 32) {c : ℕ}
    (hc : c < p.total_pages.toNat)
    (hrun : ∀ j, c ≤ j → j < 64 * p.size.toNat → p.storage.bit j = false) :
    ∃ t, ReadAt p.storage (2 ^ 63) c t ∧ p.size.toNat ≤ t := by
  have hsize := b.size_eq
  have htotal := b.total_eq
  rcases Nat.lt_or_ge c (64 * p.size.toNat) with hin | hout
  · -- the first bit after the rows
    refine ⟨seenRow (c + (64 * p.size.toNat - c)),
      ⟨64 * p.size.toNat - c, Or.inr (by omega), ?_, rfl⟩, ?_⟩
    · intro i hi
      rw [MapStorage.Free, MapStorage.seen_of_lt _ (by omega)]
      exact hrun (c + i) (by omega) (by omega)
    · rw [seenRow]
      omega
  · -- the search already starts after the rows
    refine ⟨seenRow c, ⟨0, Or.inl rfl, freeRun_zero, rfl⟩, ?_⟩
    rw [seenRow]
    omega

/-- **Without a stop the search leaves the rows.**  Any start from which every initialised bit is
    free leads a request for 2^63 pages to the row after the last one. -/
theorem overrun (b : Booted entries p bs) (hpos : 0 < p.size.toNat)
    (hsmall : p.size.toNat < 2 ^ 32) (hgiven : (covered bs).Nonempty) {c : ℕ}
    (hc : c < p.total_pages.toNat)
    (hrun : ∀ j, c ≤ j → j < 64 * p.size.toNat → p.storage.bit j = false) :
    ∃ s, Reachable g_hhdm_offset p s ∧ ¬ RowsInside s.pmm := by
  have h0 : ¬ p.storage.Free 0 := not_free_of_bit (by omega) (b.zero_bit hpos)
  have hT := b.total_le
  have hlt : p.used_pages < p.total_pages := by
    have hused := b.used_eq
    rw [← card_covered b.apart] at hused
    have hcard := Finset.card_pos.mpr hgiven
    rw [UInt64.lt_iff_toNat_lt]
    omega
  have hn : (0x8000000000000000 : UInt64).toNat = 2 ^ 63 := rfl
  obtain ⟨t, hread, hge⟩ := read_outside b hsmall hc hrun
  rcases kalloc_cases g_hhdm_offset p 0x8000000000000000 hT h0 with
    ⟨hfast, -⟩ | ⟨-, hnone, hk⟩ | ⟨-, d, -, hd, hfit, -, -⟩
  · -- the counter has pages left
    exact absurd hlt (UInt64.not_lt.mpr hfast)
  · -- the scan fails after reading the row
    refine ⟨_, .single (Step.kalloc_null ⟨p, []⟩ 0x8000000000000000 (by rw [hk])), ?_⟩
    intro h
    have htouched : t ∈ (find_first_free_page_range p 0x8000000000000000).2.touched := by
      rw [find_touched p _ hT, hn]
      exact Or.inr ⟨c, hc, fun d hd => hnone d (by omega), hread⟩
    rw [hk] at h
    exact absurd (h t htouched) (Nat.not_lt.mpr hge)
  · -- it cannot succeed
    rw [hn] at hfit
    exact absurd hfit (no_huge_fit h0 _)

/-! ## §3. Exactly when every access is inside. -/

/-- What the condition on the map says about the booted allocator.  The map's survey has the same
    rows and gives the same pages. -/
theorem rowsSuffice_iff {ram : WordRows}
    (hinit : pmm_initialize g_hhdm_offset ram entries = .ok p) (b : Booted entries p bs) :
    RowsSuffice entries
      ↔ 0 < p.size.toNat ∧ (∀ i ∈ covered bs, i < 64 * p.size.toNat)
        ∧ ((covered bs).Nonempty → Stopped p) := by
  obtain ⟨hsize, -, hpage⟩ := pmm_initialize_survey hinit
  have htotal := total_pages_scan_bound hinit b
  have hmem : ∀ i, BootPage entries (survey entries) i ↔ i ∈ covered bs := by
    intro i
    rw [← hpage, b.page_iff i]
  have hbit : ∀ j < 64 * p.size.toNat, (p.storage.bit j = true ↔ j = 0 ∨ j ∉ covered bs) := by
    intro j hj
    rw [b.bit_eq j hj, decide_eq_true_eq]
  constructor
  · intro h
    obtain ⟨hsome, hgiven, hstopped⟩ := h
    rw [← hsize] at hsome hgiven hstopped
    refine ⟨hsome, fun i hi => hgiven i ((hmem i).mpr hi), ?_⟩
    intro h hsmall c hc
    obtain ⟨i, hi⟩ := h
    obtain ⟨j, hcj, hj, hor⟩ := hstopped hsmall ⟨i, (hmem i).mpr hi⟩ c (by omega)
    rw [hmem] at hor
    exact ⟨j, hcj, hj, (hbit j hj).mpr hor⟩
  · intro h
    obtain ⟨hsome, hgiven, hstopped⟩ := h
    refine ⟨by rwa [← hsize], ?_, ?_⟩
    · intro i hi
      rw [← hsize]
      exact hgiven i ((hmem i).mp hi)
    · rw [← hsize]
      intro hsmall h c hc
      obtain ⟨i, hi⟩ := h
      obtain ⟨j, hcj, hj, hset⟩ := hstopped ⟨i, (hmem i).mp hi⟩ hsmall c (by omega)
      refine ⟨j, hcj, hj, ?_⟩
      rw [hmem]
      exact (hbit j hj).mp hset

/-- At boot the rows accessed are row 0 and those of the pages given. -/
theorem Booted.rows_iff (b : Booted entries p bs) :
    RowsInside p ↔ 0 < p.size.toNat ∧ ∀ i ∈ covered bs, i < 64 * p.size.toNat := by
  constructor
  · intro h
    refine ⟨h 0 ((b.touched_iff 0).mpr (Or.inl rfl)), ?_⟩
    intro i hi
    have := h (i / 64) ((b.touched_iff _).mpr (Or.inr ⟨i, hi, rfl⟩))
    omega
  · intro hex t ht
    obtain ⟨hpos, hgiven⟩ := hex
    rcases (b.touched_iff t).mp ht with rfl | ⟨i, hi, rfl⟩
    · exact hpos
    · have := hgiven i hi
      omega

/-- The boot state is in range. -/
theorem inRange_boot (b : Booted entries p bs) (hpos : 0 < p.size.toNat)
    (hgiven : ∀ i ∈ covered bs, i < 64 * p.size.toNat) : InRange g_hhdm_offset p ⟨p, []⟩ where
  frame := rfl
  rows := b.rows_iff.mpr ⟨hpos, hgiven⟩
  kept _ _ h := h
  blocks := by simp

end Run

/-- **Every access stays inside the bitmap exactly on the maps whose rows suffice.**  A map that
    gives no page is a case of its own: there the search never starts. -/
theorem rows_inside_iff {g_hhdm_offset : UInt64} {ram : WordRows}
    {entries : List LimineMemmapEntry} {p : PmmBitmap} (hm : UsableMap entries)
    (hinit : pmm_initialize g_hhdm_offset ram entries = .ok p) :
    (∀ s, Reachable g_hhdm_offset p s → RowsInside s.pmm) ↔ RowsSuffice entries := by
  obtain ⟨bs, b⟩ := pmm_initialize_booted hm hinit
  rw [rowsSuffice_iff hinit b]
  constructor
  · intro hall
    obtain ⟨hpos, hgiven⟩ := b.rows_iff.mp (hall ⟨p, []⟩ .refl)
    refine ⟨hpos, hgiven, ?_⟩
    intro hne hsmall c hc
    by_contra hnot
    have hfree : ∀ j, c ≤ j → j < 64 * p.size.toNat → p.storage.bit j = false := by
      intro j hcj hj
      by_contra hbit
      exact hnot ⟨j, hcj, hj, by simpa using hbit⟩
    obtain ⟨s, run, hout⟩ : ∃ s, Reachable g_hhdm_offset p s ∧ ¬ RowsInside s.pmm :=
      overrun b hpos hsmall hne hc hfree
    exact hout (hall s run)
  · intro hex s run
    obtain ⟨hpos, hgiven, hstopped⟩ := hex
    rcases (covered bs).eq_empty_or_nonempty with hempty | hne
    · -- no page was given: the counter refuses everything and nothing more is read
      rw [idle_run b hempty run]
      exact b.rows_iff.mpr ⟨hpos, hgiven⟩
    · have hrange : InRange g_hhdm_offset p s :=
        reach_invariant (fun _ _ h step => h.step b hpos (hstopped hne) step)
          (inRange_boot b hpos hgiven) run
      exact hrange.rows

/-- The small machine. -/
theorem rows_inside_iff_small :
    (∀ s, Reachable small_hhdm small_boot s → RowsInside s.pmm) ↔ RowsSuffice small_machine :=
  rows_inside_iff small_machine_pcMap.toUsableMap small_machine_boots

/-! ## §4. A machine without a stop. -/

/-- 1 GiB of RAM at 1 MiB: exactly 4096 rows, and no bit after the last page. -/
def gib_machine : List LimineMemmapEntry :=
  [{ base := 0x100000, length := 0x40000000, type := LIMINE_MEMMAP_USABLE }]

/-- Its state after boot, RAM being zero. -/
def gib_boot : PmmBitmap :=
  boot_state small_hhdm (count_memory (PmmBitmap.start fun _ => 0) gib_machine) []
    { base := 0x100000, length := 0x40000000, type := LIMINE_MEMMAP_USABLE } []

/-- It is a usable map. -/
theorem gib_usableMap : UsableMap gib_machine where
  aligned := by simp [gib_machine]
  bounded := by simp [gib_machine]
  disjoint := List.pairwise_singleton _ _

/-- A request larger than memory makes the search read past the bitmap. -/
theorem gib_machine_overruns :
    UsableMap gib_machine
      ∧ pmm_initialize small_hhdm (fun _ => 0) gib_machine = .ok gib_boot
      ∧ ∃ s, Reachable small_hhdm gib_boot s ∧ ¬ RowsInside s.pmm := by
  have hinit : pmm_initialize small_hhdm (fun _ => 0) gib_machine = .ok gib_boot := rfl
  have hsize : gib_boot.size.toNat = 4096 := by decide +kernel
  have htotal : gib_boot.total_pages.toNat = 262143 := by decide +kernel
  have hlow : gib_boot.lowest_address = 0x100000 := by decide +kernel
  obtain ⟨bs, b⟩ := pmm_initialize_booted gib_usableMap hinit
  -- every page but page 0, which holds the bitmap, is given
  have hgiven : ∀ i, 1 ≤ i → i < 262144 → i ∈ covered bs := by
    intro i h1 hi
    rw [b.page_iff]
    refine ⟨⟨_, List.mem_singleton.mpr rfl, rfl, ?_⟩, ?_⟩
    · rw [hlow, mem_span]
      simp only [page_address, LimineMemmapEntry.range, UInt64.reduceToNat]
      omega
    · intro h
      obtain ⟨e, he, hmem⟩ := h
      have hfind : bitmap_entry gib_boot gib_machine
          = some { base := 0x100000, length := 0x40000000, type := LIMINE_MEMMAP_USABLE } := by
        decide +kernel
      rw [hfind] at he
      obtain rfl := Option.some.inj he
      rw [hlow, hsize, mem_span] at hmem
      simp only [page_address, UInt64.reduceToNat] at hmem
      omega
  refine ⟨gib_usableMap, hinit, overrun b (by omega) (by omega)
    ⟨1, hgiven 1 (by omega) (by omega)⟩ (c := 1) (by omega) ?_⟩
  intro j hj1 hj
  exact (b.clear_iff hj).mpr ⟨by omega, hgiven j hj1 (by omega)⟩

end Hippos.Mem
