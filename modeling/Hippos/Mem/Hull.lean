/-
  Hippos.Mem.Hull — when the window is the exact hull of usable memory.

  The first pass seeds its minimum with `0xffffffff` and compares 64-bit sums.  The seed is neutral
  only for maps with usable memory below 4 GiB, the sums only where no entry runs past the end of
  the address space.  Where both hold, page alignment carries over from the entries to everything
  `kalloc` returns, and the index `kfree` computes for an entry loses nothing.

  Exactness is stated in the order's own terms: the lower end is the least usable base and the upper
  end the greatest usable top, taken before any reduction modulo 2^64.  Each of the two ends has its
  own equivalence, because a fold of minima leaves a bound that is the seed or belongs to an entry,
  and only the second of these is of interest.

  Main results:
    * `lowest_isLeast_iff`, `highest_isGreatest_iff` — when each of the two ends is right.
    * `kalloc_aligned`, `kfree_index_exact` — what follows for pointers and for indices.
    * `window_exact_iff` — when the window is exact, together with all that is computed from it.
    * `high_machine_inexact` — a machine with memory above 4 GiB only, where it is not.
-/
import Hippos.Mem.Ownership
import Mathlib.Order.Bounds.Defs

namespace Hippos.Mem

open Hippos.Lib
open Relation

/-! ## §1. The two ends. -/

/-- The bases of the usable entries. -/
def usable_bases (entries : List LimineMemmapEntry) : Set ℕ :=
  { b | ∃ e ∈ entries, e.usable ∧ b = e.base.toNat }

/-- Where the usable entries end, before any reduction modulo 2^64. -/
def usable_tops (entries : List LimineMemmapEntry) : Set ℕ :=
  { t | ∃ e ∈ entries, e.usable ∧ t = e.base.toNat + e.length.toNat }

/-- **The minimum is right exactly when the seed does not undercut it.**  At `0xffffffff` itself an
    entry and the seed agree. -/
theorem lowest_isLeast_iff (ram : WordRows) (entries : List LimineMemmapEntry) :
    IsLeast (usable_bases entries)
        (count_memory (PmmBitmap.start ram) entries).lowest_address.toNat
      ↔ ∃ e ∈ entries, e.usable ∧ e.base.toNat ≤ 0xffffffff := by
  have h := count_fold_lowest entries (PmmBitmap.start ram)
  have hbound := h.bound
  have hseed : (entries.foldl count_entry (PmmBitmap.start ram)).lowest_address.toNat
      ≤ 0xffffffff := UInt64.le_iff_toNat_le.mp h.start
  show IsLeast _ (entries.foldl count_entry (PmmBitmap.start ram)).lowest_address.toNat ↔ _
  constructor
  · intro hleast
    obtain ⟨e, he, hu, heq⟩ := hleast.1
    exact ⟨e, he, hu, by omega⟩
  · intro hlow
    refine ⟨?_, ?_⟩
    · rcases h.attained with hstart | ⟨e, he, hu, heq⟩
      · -- the seed itself: then the low entry has it as its base
        obtain ⟨e, he, hu, hle⟩ := hlow
        have hge := UInt64.le_iff_toNat_le.mp (hbound e he hu)
        rw [hstart] at hge ⊢
        have hs : (PmmBitmap.start ram).lowest_address.toNat = 0xffffffff := rfl
        exact ⟨e, he, hu, by omega⟩
      · exact ⟨e, he, hu, by rw [heq]⟩
    · intro b hb
      obtain ⟨e, he, hu, rfl⟩ := hb
      exact UInt64.le_iff_toNat_le.mp (hbound e he hu)

/-- **The maximum is right exactly when no sum wraps**, on a map with a usable entry. -/
theorem highest_isGreatest_iff (ram : WordRows) {entries : List LimineMemmapEntry}
    (hsome : ∃ e ∈ entries, e.usable) :
    IsGreatest (usable_tops entries)
        (count_memory (PmmBitmap.start ram) entries).highest_address.toNat
      ↔ ∀ e ∈ entries, e.usable → e.base.toNat + e.length.toNat < 2 ^ 64 := by
  have h := count_fold_highest entries (PmmBitmap.start ram)
  have hbound := h.bound
  have hlt := (entries.foldl count_entry (PmmBitmap.start ram)).highest_address.toNat_lt
  show IsGreatest _ (entries.foldl count_entry (PmmBitmap.start ram)).highest_address.toNat ↔ _
  constructor
  · intro hgreatest e he hu
    have hle := hgreatest.2 ⟨e, he, hu, rfl⟩
    omega
  · intro hnowrap
    have htop : ∀ e ∈ entries, e.usable →
        (e.base + e.length).toNat = e.base.toNat + e.length.toNat := by
      intro e he hu
      rw [UInt64.toNat_add, Nat.mod_eq_of_lt (hnowrap e he hu)]
    have hle : ∀ e ∈ entries, e.usable → e.base.toNat + e.length.toNat
        ≤ (entries.foldl count_entry (PmmBitmap.start ram)).highest_address.toNat := by
      intro e he hu
      rw [← htop e he hu]
      exact UInt64.le_iff_toNat_le.mp (hbound e he hu)
    refine ⟨?_, ?_⟩
    · rcases h.attained with hstart | ⟨e, he, hu, heq⟩
      · -- the seed 0: then every top is 0
        obtain ⟨e, he, hu⟩ := hsome
        have hzero := hle e he hu
        rw [hstart] at hzero ⊢
        have hs : (PmmBitmap.start ram).highest_address.toNat = 0 := rfl
        exact ⟨e, he, hu, by omega⟩
      · exact ⟨e, he, hu, by rw [heq, htop e he hu]⟩
    · intro t ht
      obtain ⟨e, he, hu, rfl⟩ := ht
      exact hle e he hu

/-! ## §2. What follows for pages. -/

/-- The usable entries are 4 KiB aligned. -/
def PageAligned (entries : List LimineMemmapEntry) : Prop :=
  ∀ e ∈ entries, e.usable → e.base.toNat % 4096 = 0 ∧ e.length.toNat % 4096 = 0

/-- A call does not move it. -/
theorem kalloc_lowest (g_hhdm_offset : UInt64) (p : PmmBitmap) (n : UInt64) :
    (kalloc g_hhdm_offset p n).2.lowest_address = p.lowest_address := by
  unfold kalloc
  dsimp only
  split_ifs <;> rfl

/-- No call moves the lower end of the window. -/
theorem reachable_lowest {g_hhdm_offset : UInt64} {p : PmmBitmap} {s : KernelState}
    (run : Reachable g_hhdm_offset p s) : s.pmm.lowest_address = p.lowest_address := by
  refine reach_invariant (P := fun s => s.pmm.lowest_address = p.lowest_address) ?_ rfl run
  intro s s' h step
  cases step with
  | kalloc_null n _ => exact (kalloc_lowest g_hhdm_offset s.pmm n).trans h
  | kalloc_block n pointer _ => exact (kalloc_lowest g_hhdm_offset s.pmm n).trans h
  | kfree before pointer n after _ => exact h

/-- **`kalloc` keeps the alignment of the window**: the offset it adds is taken off again, and pages
    are multiples of 4096. -/
theorem kalloc_aligned {g_hhdm_offset : UInt64} {p : PmmBitmap} {n pointer : UInt64}
    (hlow : p.lowest_address.toNat % 4096 = 0)
    (h : (kalloc g_hhdm_offset p n).1 = some pointer) :
    (pointer - g_hhdm_offset).toNat % 4096 = 0 := by
  have hpage : ∀ b : UInt64, (p.lowest_address + BIT_TO_PAGE b + g_hhdm_offset
      - g_hhdm_offset).toNat % 4096 = 0 := by
    intro b
    rw [UInt64.add_sub_cancel, UInt64.toNat_add, BIT_TO_PAGE, UInt64.toNat_mul]
    simp only [PAGE_SIZE, UInt64.reduceToNat]
    omega
  unfold kalloc at h
  dsimp only at h
  -- of the three ways out only one returns a pointer
  split_ifs at h
  · obtain rfl := Option.some.inj h
    exact hpage _

/-- The address `kfree` finds for an aligned entry above the lower end is the entry's base, so its
    division by the page size has no remainder. -/
theorem kfree_index_exact (g_hhdm_offset low base : UInt64) (hle : low.toNat ≤ base.toNat)
    (hlow : low.toNat % 4096 = 0) (hbase : base.toNat % 4096 = 0) :
    low.toNat + 4096 * (PAGE_TO_BIT (base + g_hhdm_offset - g_hhdm_offset - low)).toNat
      = base.toNat := by
  rw [UInt64.add_sub_cancel, PAGE_TO_BIT, page_div_toNat,
      UInt64.toNat_sub_of_le _ _ (UInt64.le_iff_toNat_le.mpr hle)]
  omega

/-! ## §3. The exact hull. -/

/-- **The window is the hull of usable memory**, and everything computed from it is exact.  The
    last pass calls `kfree` for the entries the placement leaves. -/
structure WindowExact (g_hhdm_offset : UInt64) (ram : WordRows)
    (entries : List LimineMemmapEntry) : Prop where
  lowest : IsLeast (usable_bases entries)
    (count_memory (PmmBitmap.start ram) entries).lowest_address.toNat
  highest : IsGreatest (usable_tops entries)
    (count_memory (PmmBitmap.start ram) entries).highest_address.toNat
  aligned : PageAligned entries → ∀ p, pmm_initialize g_hhdm_offset ram entries = .ok p →
    ∀ s, Reachable g_hhdm_offset p s → ∀ n pointer,
      (kalloc g_hhdm_offset s.pmm n).1 = some pointer → (pointer - g_hhdm_offset).toNat % 4096 = 0
  index : PageAligned entries → ∀ e, e ∈ entries ∨ e ∈ (place_bitmap g_hhdm_offset
      (count_memory (PmmBitmap.start ram) entries) entries).2 → e.usable →
    (count_memory (PmmBitmap.start ram) entries).lowest_address.toNat
        + 4096 * (PAGE_TO_BIT (e.base + g_hhdm_offset - g_hhdm_offset
          - (count_memory (PmmBitmap.start ram) entries).lowest_address)).toNat
      = e.base.toNat

section Exact

variable {g_hhdm_offset : UInt64} {ram : WordRows} {entries : List LimineMemmapEntry}

/-- The lower end of the hull is aligned when the entries are. -/
theorem lowest_aligned
    (hleast : IsLeast (usable_bases entries)
      (count_memory (PmmBitmap.start ram) entries).lowest_address.toNat)
    (hal : PageAligned entries) :
    (count_memory (PmmBitmap.start ram) entries).lowest_address.toNat % 4096 = 0 := by
  obtain ⟨e, he, hu, heq⟩ := hleast.1
  rw [heq]
  exact (hal e he hu).1

/-- A usable entry after the placement starts on a page of the window: it is an old one, or the
    chosen one with its base moved up by whole pages. -/
theorem placed_base
    (hleast : IsLeast (usable_bases entries)
      (count_memory (PmmBitmap.start ram) entries).lowest_address.toNat)
    (hnowrap : ∀ e ∈ entries, e.usable → e.base.toNat + e.length.toNat < 2 ^ 64)
    (hal : PageAligned entries) {e : LimineMemmapEntry}
    (he : e ∈ entries ∨ e ∈ (place_bitmap g_hhdm_offset
      (count_memory (PmmBitmap.start ram) entries) entries).2) (hu : e.usable) :
    (count_memory (PmmBitmap.start ram) entries).lowest_address.toNat ≤ e.base.toNat
      ∧ e.base.toNat % 4096 = 0 := by
  have hold : ∀ x ∈ entries, x.usable →
      (count_memory (PmmBitmap.start ram) entries).lowest_address.toNat ≤ x.base.toNat
        ∧ x.base.toNat % 4096 = 0 := by
    intro x hx hux
    exact ⟨hleast.2 ⟨x, hx, hux, rfl⟩, (hal x hx hux).1⟩
  have hsize := count_memory_size (PmmBitmap.start ram) entries
  rcases place_bitmap_cases g_hhdm_offset (count_memory (PmmBitmap.start ram) entries) entries
    with ⟨hplace, -⟩ | ⟨pre, c, post, heq, -, hs, hplace⟩
  · -- nothing was placed
    rw [hplace, or_self] at he
    exact hold e he hu
  · rcases he with he | he
    · exact hold e he hu
    · rw [hplace] at he
      rcases mem_carved he with rfl | he
      · -- the carved entry starts `size` bytes later
        have hc : c ∈ entries := by
          rw [heq]
          exact mem_middle.mpr (Or.inr rfl)
        obtain ⟨huc, hlen⟩ := suitable_iff.mp hs
        obtain ⟨hle, hmod⟩ := hold c hc huc
        have hrange := congrArg Prod.fst (carve_range hlen (hnowrap c hc huc))
        simp only [LimineMemmapEntry.range] at hrange
        omega
      · rw [← heq] at he
        exact hold e he hu

/-- **The window is exact exactly when some usable memory starts below 4 GiB and none runs past the
    end of the address space.**  The equivalence rests on the two ends; pointers and indices follow
    from them. -/
theorem window_exact_iff (g_hhdm_offset : UInt64) (ram : WordRows)
    (entries : List LimineMemmapEntry) :
    WindowExact g_hhdm_offset ram entries
      ↔ (∃ e ∈ entries, e.usable ∧ e.base.toNat ≤ 0xffffffff)
        ∧ ∀ e ∈ entries, e.usable → e.base.toNat + e.length.toNat < 2 ^ 64 := by
  constructor
  · intro h
    obtain ⟨e, he, hu, hle⟩ := (lowest_isLeast_iff ram entries).mp h.lowest
    exact ⟨⟨e, he, hu, hle⟩, (highest_isGreatest_iff ram ⟨e, he, hu⟩).mp h.highest⟩
  · intro hex
    obtain ⟨hlow, hnowrap⟩ := hex
    have hleast := (lowest_isLeast_iff ram entries).mpr hlow
    obtain ⟨e, he, hu, -⟩ := hlow
    refine ⟨hleast, (highest_isGreatest_iff ram ⟨e, he, hu⟩).mpr hnowrap, ?_, ?_⟩
    · -- pointers
      intro hal p hinit s run n pointer hk
      obtain ⟨pre, c, post, -, -, -, rfl⟩ := pmm_initialize_ok hinit
      have hfield := (boot_state_fields g_hhdm_offset
        (count_memory (PmmBitmap.start ram) entries) pre c post).2.2.2.2
      apply kalloc_aligned _ hk
      rw [reachable_lowest run, hfield]
      exact lowest_aligned hleast hal
    · -- indices
      intro hal x hx hux
      obtain ⟨hle, hbase⟩ := placed_base hleast hnowrap hal hx hux
      exact kfree_index_exact g_hhdm_offset _ _ hle (lowest_aligned hleast hal) hbase

end Exact

/-- 1 GiB of RAM at 4 GiB, and nothing below. -/
def high_machine : List LimineMemmapEntry :=
  [{ base := 0x100000000, length := 0x40000000, type := LIMINE_MEMMAP_USABLE }]

/-- The window starts at the seed, one byte below the memory, and every address is off by one. -/
theorem high_machine_inexact :
    (∃ e ∈ high_machine, e.usable ∧ 0 < e.length.toNat ∧ e.base.toNat + e.length.toNat < 2 ^ 64)
      ∧ (survey high_machine).lowest_address = 0xffffffff
      ∧ ¬ WindowExact small_hhdm (fun _ => 0) high_machine := by
  have hlowest : (survey high_machine).lowest_address = 0xffffffff := by decide
  refine ⟨⟨_, List.mem_singleton.mpr rfl, rfl, by decide, by decide⟩, hlowest, ?_⟩
  intro h
  obtain ⟨e, he, -, heq⟩ := h.lowest.1
  rw [List.mem_singleton.mp he] at heq
  have hseed : (survey high_machine).lowest_address.toNat = 0x100000000 := heq
  rw [hlowest] at hseed
  exact absurd hseed (by decide)

end Hippos.Mem
