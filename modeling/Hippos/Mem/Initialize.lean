/-
  Hippos.Mem.Initialize — what `pmm_initialize` leaves behind.

  The three passes are taken one by one (hull, placement, freeing) and assembled in `Booted`: the
  sizes in terms of the window, the blocks given back to the allocator, and the bits, counter and
  rows that follow from them.  Every later result about the allocator starts from `Booted` and never
  unfolds `pmm_initialize` again.

  The freeing pass runs over the map that the placement has left, in which the chosen entry is
  shorter.  Its blocks are pairwise disjoint because the entries are, and lie in the window because
  that is their hull; so each page is freed once, the counter loses exactly the number of pages
  freed, and no subtraction wraps.  What the placement chose is found again in the map
  (`bitmap_entry`), which lets the pages that are given be described by the map alone.

  Main results:
    * `place_bitmap_cases` — the placement takes the first suitable entry, or none.
    * `free_fold_bit`, `free_fold_used`, `free_fold_touched` — what the freeing pass leaves.
    * `pmm_initialize_booted` — the state after boot.
    * `pmm_initialize_survey` — the sizes and the pages given depend on the map alone.
    * `pmm_initialize_arena` — on a PC map with a spare bit, all that the allocator's runs need.
-/
import Hippos.Mem.Window

namespace Hippos.Mem

open Hippos.Lib

/-! ## §1. The hull of the usable entries. -/

/-- The window `[low, high)` contains every usable entry and ends on a page boundary. -/
structure Hull (entries : List LimineMemmapEntry) (low high : UInt64) : Prop where
  low_le : ∀ e ∈ entries, e.usable → low.toNat ≤ e.base.toNat
  le_high : ∀ e ∈ entries, e.usable → e.base.toNat + e.length.toNat ≤ high.toNat
  high_aligned : high.toNat % 4096 = 0

/-- The top of a usable entry does not wrap. -/
theorem top_toNat {entries : List LimineMemmapEntry} (hm : UsableMap entries)
    {e : LimineMemmapEntry} (he : e ∈ entries) (hu : e.usable) :
    (e.base + e.length).toNat = e.base.toNat + e.length.toNat := by
  rw [UInt64.toNat_add, Nat.mod_eq_of_lt (hm.bounded e he hu)]

/-- The first pass leaves a window that contains every usable entry. -/
theorem count_memory_hull (ram : WordRows) {entries : List LimineMemmapEntry}
    (hm : UsableMap entries) :
    Hull entries (count_memory (PmmBitmap.start ram) entries).lowest_address
      (count_memory (PmmBitmap.start ram) entries).highest_address where
  low_le e he hu :=
    UInt64.le_iff_toNat_le.mp ((count_fold_lowest entries (PmmBitmap.start ram)).bound e he hu)
  le_high e he hu := by
    have h := (count_fold_highest entries (PmmBitmap.start ram)).bound e he hu
    rwa [UInt64.le_iff_toNat_le, top_toNat hm he hu] at h
  high_aligned := by
    -- the seed 0, or the top of an aligned entry
    rcases (count_fold_highest entries (PmmBitmap.start ram)).attained with h | ⟨e, he, hu, h⟩
    · show (entries.foldl count_entry (PmmBitmap.start ram)).highest_address.toNat % 4096 = 0
      rw [h]
      rfl
    · show (entries.foldl count_entry (PmmBitmap.start ram)).highest_address.toNat % 4096 = 0
      rw [h, top_toNat hm he hu]
      have hal := hm.aligned e he hu
      omega

/-- The window in whole pages: from the first page boundary at its lower end to its upper end. -/
theorem Hull.window {entries : List LimineMemmapEntry} {p : PmmBitmap}
    (hh : Hull entries p.lowest_address p.highest_address)
    {e : LimineMemmapEntry} (he : e ∈ entries) (hu : e.usable) :
    window_pages p
      = p.highest_address.toNat / 4096 - (p.lowest_address.toNat + 4095) / 4096 := by
  have hlow := hh.low_le e he hu
  have hhigh := hh.le_high e he hu
  have hal := hh.high_aligned
  have hle : p.lowest_address ≤ p.highest_address := by
    rw [UInt64.le_iff_toNat_le]
    omega
  rw [window_pages, page_div_toNat, UInt64.toNat_sub_of_le _ _ hle]
  omega

/-- A page lies in the block of an entry exactly when its address lies in the entry. -/
theorem mem_span_entry_block {low : UInt64} {e : LimineMemmapEntry}
    (hlow : low.toNat ≤ e.base.toNat)
    (hal : e.base.toNat % 4096 = 0 ∧ e.length.toNat % 4096 = 0) (i : ℕ) :
    i ∈ span (entry_block low e) ↔ page_address low i ∈ span e.range := by
  have hle : low ≤ e.base := UInt64.le_iff_toNat_le.mpr hlow
  simp only [mem_span, entry_block, LimineMemmapEntry.range, page_address, page_div_toNat,
    UInt64.toNat_sub_of_le _ _ hle]
  omega

/-- A page of the map's blocks belongs to the block of a usable entry. -/
theorem mem_covered_map_blocks {low : UInt64} {entries : List LimineMemmapEntry} {i : ℕ} :
    i ∈ covered (map_blocks low entries)
      ↔ ∃ e ∈ entries, e.usable ∧ i ∈ span (entry_block low e) := by
  rw [mem_covered]
  constructor
  · intro h
    obtain ⟨b, hb, hi⟩ := h
    obtain ⟨e, he, rfl⟩ := List.mem_map.mp hb
    obtain ⟨he, hu⟩ := List.mem_filter.mp he
    exact ⟨e, he, hu, hi⟩
  · intro h
    obtain ⟨e, he, hu, hi⟩ := h
    exact ⟨entry_block low e, List.mem_map_of_mem (List.mem_filter.mpr ⟨he, hu⟩), hi⟩

/-- Disjoint entries have disjoint blocks. -/
theorem map_blocks_apart {low : UInt64} {entries : List LimineMemmapEntry}
    (hm : UsableMap entries)
    (hlow : ∀ e ∈ entries, e.usable → low.toNat ≤ e.base.toNat) :
    Apart (map_blocks low entries) := by
  unfold Apart map_blocks
  rw [List.pairwise_map, List.pairwise_filter]
  refine hm.disjoint.imp_of_mem fun {a b} ha hb hdisj hua hub => ?_
  rw [Finset.disjoint_left]
  intro i hia hib
  rw [mem_span_entry_block (hlow a ha hua) (hm.aligned a ha hua)] at hia
  rw [mem_span_entry_block (hlow b hb hub) (hm.aligned b hb hub)] at hib
  exact Finset.disjoint_left.mp (hdisj hua hub) hia hib

/-- Every page of a usable entry has its bit in the window, and so below `window_pages`. -/
theorem map_blocks_lt {p : PmmBitmap} {entries : List LimineMemmapEntry}
    (hm : UsableMap entries) (hh : Hull entries p.lowest_address p.highest_address) {i : ℕ}
    (hi : i ∈ covered (map_blocks p.lowest_address entries)) : i < window_pages p := by
  obtain ⟨e, he, hu, hie⟩ := mem_covered_map_blocks.mp hi
  have hal := hm.aligned e he hu
  have hhigh := hh.le_high e he hu
  rw [mem_span_entry_block (hh.low_le e he hu) hal, mem_span] at hie
  simp only [LimineMemmapEntry.range, page_address] at hie
  rw [hh.window he hu]
  have := hh.high_aligned
  omega

/-! ## §2. The placement. -/

/-- **The second pass** takes the first suitable entry, or none.  The entries before it are
    unsuitable and left as they were, the entry itself loses the bytes of the bitmap at its lower
    end, and the entries behind it are not looked at. -/
theorem place_bitmap_cases (g_hhdm_offset : UInt64) (p : PmmBitmap)
    (entries : List LimineMemmapEntry) :
    (place_bitmap g_hhdm_offset p entries = (p, entries)
      ∧ ∀ e ∈ entries, suitable p e = false)
    ∨ ∃ pre e post, entries = pre ++ e :: post ∧ (∀ x ∈ pre, suitable p x = false)
        ∧ suitable p e = true
        ∧ place_bitmap g_hhdm_offset p entries
            = (nestle g_hhdm_offset p e, pre ++ carve p e :: post) := by
  induction entries with
  | nil => exact Or.inl ⟨rfl, by simp⟩
  | cons e es ih =>
    by_cases hs : suitable p e = true
    · -- this entry takes the bitmap
      exact Or.inr ⟨[], e, es, rfl, by simp, hs, by rw [place_bitmap, if_pos hs]; rfl⟩
    · -- the search goes on
      have hs' : suitable p e = false := Bool.eq_false_iff.mpr hs
      rcases ih with ⟨heq, hnone⟩ | ⟨pre, x, post, heq, hpre, hx, hplace⟩
      · refine Or.inl ⟨by rw [place_bitmap, if_neg hs, heq], ?_⟩
        intro x hx
        rcases List.mem_cons.mp hx with rfl | hx
        · exact hs'
        · exact hnone x hx
      · refine Or.inr ⟨e :: pre, x, post, by rw [heq]; rfl, ?_, hx, ?_⟩
        · intro y hy
          rcases List.mem_cons.mp hy with rfl | hy
          · exact hs'
          · exact hpre y hy
        · rw [place_bitmap, if_neg hs, hplace]
          rfl

/-- An element around or at the middle of a list. -/
theorem mem_middle {α : Type*} {x y : α} {pre post : List α} :
    x ∈ pre ++ y :: post ↔ (x ∈ pre ∨ x ∈ post) ∨ x = y := by
  rw [List.mem_append, List.mem_cons, or_assoc]
  exact or_congr_right or_comm

/-- A suitable entry is usable and long enough. -/
theorem suitable_iff {p : PmmBitmap} {e : LimineMemmapEntry} :
    suitable p e = true ↔ e.usable = true ∧ p.size.toNat ≤ e.length.toNat := by
  rw [suitable, Bool.and_eq_true, decide_eq_true_iff, ge_iff_le, UInt64.le_iff_toNat_le]

/-- What is left of the chosen entry is its upper part. -/
theorem carve_range {p : PmmBitmap} {e : LimineMemmapEntry}
    (hlen : p.size.toNat ≤ e.length.toNat)
    (hb : e.base.toNat + e.length.toNat < 2 ^ 64) :
    (carve p e).range = (e.base.toNat + p.size.toNat, e.length.toNat - p.size.toNat) := by
  have hle : p.size ≤ e.length := UInt64.le_iff_toNat_le.mpr hlen
  rw [LimineMemmapEntry.range, carve, UInt64.toNat_add, UInt64.toNat_sub_of_le _ _ hle,
      Nat.mod_eq_of_lt (by omega)]

/-- It lies in the entry it was taken from. -/
theorem carve_range_subset {p : PmmBitmap} {e : LimineMemmapEntry}
    (hlen : p.size.toNat ≤ e.length.toNat)
    (hb : e.base.toNat + e.length.toNat < 2 ^ 64) :
    span (carve p e).range ⊆ span e.range := by
  rw [carve_range hlen hb]
  intro a ha
  rw [mem_span] at ha ⊢
  simp only [LimineMemmapEntry.range] at ha ⊢
  omega

/-- An entry of the carved map is the carved one or an old one. -/
theorem mem_carved {p : PmmBitmap} {pre post : List LimineMemmapEntry} {e x : LimineMemmapEntry}
    (hx : x ∈ pre ++ carve p e :: post) : x = carve p e ∨ x ∈ pre ++ e :: post := by
  rcases mem_middle.mp hx with hold | hcarved
  · exact Or.inr (mem_middle.mpr (Or.inl hold))
  · exact Or.inl hcarved

/-- The carved map is still a usable map: `size` is a multiple of a page, and a part of an entry
    avoids what the entry avoids. -/
theorem carve_usableMap {p : PmmBitmap} {pre post : List LimineMemmapEntry}
    {e : LimineMemmapEntry} (hm : UsableMap (pre ++ e :: post)) (hu : e.usable)
    (hlen : p.size.toNat ≤ e.length.toNat) (hsize : p.size.toNat % 4096 = 0) :
    UsableMap (pre ++ carve p e :: post) := by
  have he : e ∈ pre ++ e :: post := by simp
  have hb := hm.bounded e he hu
  have hal := hm.aligned e he hu
  have hrange := carve_range hlen hb
  have hsub := carve_range_subset hlen hb
  simp only [LimineMemmapEntry.range, Prod.mk.injEq] at hrange
  refine ⟨?_, ?_, ?_⟩
  · -- aligned
    intro x hx hux
    rcases mem_carved hx with rfl | hx
    · rw [hrange.1, hrange.2]
      omega
    · exact hm.aligned x hx hux
  · -- bounded
    intro x hx hux
    rcases mem_carved hx with rfl | hx
    · rw [hrange.1, hrange.2]
      omega
    · exact hm.bounded x hx hux
  · -- disjoint
    have hd := hm.disjoint
    rw [List.pairwise_append, List.pairwise_cons] at hd ⊢
    obtain ⟨hpre, ⟨hhead, hpost⟩, hcross⟩ := hd
    refine ⟨hpre, ⟨?_, hpost⟩, ?_⟩
    · -- the carved entry and a later one
      intro b hb' huc hub
      exact (hhead b hb' hu hub).mono_left hsub
    · -- an earlier entry and the carved or a later one
      intro a ha b hb' hua hub
      rcases List.mem_cons.mp hb' with rfl | hb'
      · exact (hcross a ha e List.mem_cons_self hua hu).mono_right hsub
      · exact hcross a ha b (List.mem_cons_of_mem e hb') hua hub

/-! ## §3. The freeing pass. -/

/-- `kfree` of an entry frees the entry's block, whatever the direct-map offset. -/
theorem kfree_entry_index (g_hhdm_offset : UInt64) (p : PmmBitmap) (e : LimineMemmapEntry) :
    PAGE_TO_BIT (e.base + g_hhdm_offset - g_hhdm_offset - p.lowest_address)
      = (e.base - p.lowest_address) / PAGE_SIZE := by
  rw [UInt64.add_sub_cancel]
  rfl

/-- The page numbers of an entry's block do not wrap. -/
theorem entry_block_bound (low : UInt64) (e : LimineMemmapEntry) :
    (entry_block low e).1 + (entry_block low e).2 ≤ 2 ^ 53 := by
  have h1 := (e.base - low).toNat_lt
  have h2 := e.length.toNat_lt
  simp only [entry_block, page_div_toNat]
  omega

/-- One round of the freeing pass on a usable entry. -/
theorem free_entry_usable (g_hhdm_offset : UInt64) (p : PmmBitmap) {e : LimineMemmapEntry}
    (hu : e.usable = true) :
    free_entry g_hhdm_offset p e
      = { p with
          storage := free_loop p.storage ((e.base - p.lowest_address) / PAGE_SIZE)
            (e.length / PAGE_SIZE).toNat
          used_pages := p.used_pages - e.length / PAGE_SIZE } := by
  rw [free_entry, if_pos hu, kfree, kfree_entry_index]

/-- A usable entry has its block. -/
theorem map_blocks_cons_usable (low : UInt64) {e : LimineMemmapEntry}
    (es : List LimineMemmapEntry) (hu : e.usable = true) :
    map_blocks low (e :: es) = entry_block low e :: map_blocks low es := by
  rw [map_blocks, List.filter_cons_of_pos hu]
  rfl

/-- Any other entry has none. -/
theorem map_blocks_cons_other (low : UInt64) {e : LimineMemmapEntry}
    (es : List LimineMemmapEntry) (hu : ¬ e.usable = true) :
    map_blocks low (e :: es) = map_blocks low es := by
  rw [map_blocks, List.filter_cons_of_neg hu]
  rfl

/-- The freeing pass changes the storage and the counter only. -/
theorem free_fold_frame (g_hhdm_offset : UInt64) (entries : List LimineMemmapEntry) :
    ∀ p : PmmBitmap, entries.foldl (free_entry g_hhdm_offset) p
      = { p with
          storage := (entries.foldl (free_entry g_hhdm_offset) p).storage
          used_pages := (entries.foldl (free_entry g_hhdm_offset) p).used_pages } := by
  induction entries with
  | nil => intro p; rfl
  | cons e es ih =>
    intro p
    rw [List.foldl_cons, ih (free_entry g_hhdm_offset p e)]
    by_cases hu : e.usable = true
    · rw [free_entry_usable g_hhdm_offset p hu]
    · rw [free_entry, if_neg hu]

/-- **The freeing pass frees the blocks of the map**, and nothing else.  By induction on the map,
    for any state of the allocator it starts from. -/
theorem free_fold_bit (g_hhdm_offset : UInt64) (entries : List LimineMemmapEntry) :
    ∀ (p : PmmBitmap) (i : ℕ),
      (entries.foldl (free_entry g_hhdm_offset) p).storage.bit i
        = (!decide (i ∈ covered (map_blocks p.lowest_address entries)) && p.storage.bit i) := by
  induction entries with
  | nil => intro p i; simp [map_blocks]
  | cons e es ih =>
    intro p i
    rw [List.foldl_cons, ih]
    by_cases hu : e.usable = true
    · -- the first entry's block, then the others'
      have hb := entry_block_bound p.lowest_address e
      rw [free_entry_usable g_hhdm_offset p hu, map_blocks_cons_usable _ _ hu]
      simp only [entry_block] at hb
      rw [free_loop_bit _ _ _ (by omega), covered_cons, ← Bool.and_assoc, ← Bool.not_or,
          ← Bool.decide_or]
      congr 3
      simp only [Finset.mem_union, mem_span, entry_block]
      exact propext or_comm
    · rw [free_entry, if_neg hu, map_blocks_cons_other _ _ hu]

/-- The freeing pass takes the length of every block off the counter, which must not be exceeded by
    their sum. -/
theorem free_fold_used (g_hhdm_offset : UInt64) (entries : List LimineMemmapEntry) :
    ∀ p : PmmBitmap, total (map_blocks p.lowest_address entries) ≤ p.used_pages.toNat →
      (entries.foldl (free_entry g_hhdm_offset) p).used_pages.toNat
        = p.used_pages.toNat - total (map_blocks p.lowest_address entries) := by
  induction entries with
  | nil => intro p _; rfl
  | cons e es ih =>
    intro p hle
    rw [List.foldl_cons]
    by_cases hu : e.usable = true
    · -- the counter does not wrap: the whole sum fits
      rw [map_blocks_cons_usable _ _ hu, total_cons] at hle ⊢
      simp only [entry_block] at hle ⊢
      have hsub : e.length / PAGE_SIZE ≤ p.used_pages := by
        rw [UInt64.le_iff_toNat_le]
        omega
      have hstep : (free_entry g_hhdm_offset p e).used_pages.toNat
          = p.used_pages.toNat - (e.length / PAGE_SIZE).toNat := by
        rw [free_entry_usable g_hhdm_offset p hu]
        exact UInt64.toNat_sub_of_le _ _ hsub
      have hlow : (free_entry g_hhdm_offset p e).lowest_address = p.lowest_address := by
        rw [free_entry_usable g_hhdm_offset p hu]
      rw [ih _ (by rw [hlow, hstep]; omega), hlow, hstep]
      omega
    · rw [map_blocks_cons_other _ _ hu] at hle ⊢
      rw [free_entry, if_neg hu]
      exact ih p hle

/-- The freeing pass touches the rows of the freed bits, and no other. -/
theorem free_fold_touched (g_hhdm_offset : UInt64) (entries : List LimineMemmapEntry) :
    ∀ (p : PmmBitmap) (t : ℕ),
      (t ∈ (entries.foldl (free_entry g_hhdm_offset) p).storage.touched
        ↔ t ∈ p.storage.touched
          ∨ ∃ i ∈ covered (map_blocks p.lowest_address entries), t = i / 64) := by
  induction entries with
  | nil => intro p t; simp [map_blocks]
  | cons e es ih =>
    intro p t
    rw [List.foldl_cons, ih]
    by_cases hu : e.usable = true
    · have hb := entry_block_bound p.lowest_address e
      rw [free_entry_usable g_hhdm_offset p hu, map_blocks_cons_usable _ _ hu]
      simp only [entry_block] at hb
      rw [free_loop_touched _ _ _ (by omega), covered_cons, or_assoc]
      -- the loop counts from the start of the block, the statement from bit 0
      refine or_congr_right ⟨?_, ?_⟩
      · intro h
        rcases h with ⟨j, hj, rfl⟩ | ⟨i, hi, rfl⟩
        · refine ⟨_, Finset.mem_union_left _ (mem_span.mpr ?_), rfl⟩
          simp only [entry_block]
          omega
        · exact ⟨i, Finset.mem_union_right _ hi, rfl⟩
      · intro h
        obtain ⟨i, hi, rfl⟩ := h
        rcases Finset.mem_union.mp hi with hi | hi
        · rw [mem_span] at hi
          simp only [entry_block] at hi
          refine Or.inl ⟨i - ((e.base - p.lowest_address) / PAGE_SIZE).toNat, by omega, ?_⟩
          congr 1
          omega
        · exact Or.inr ⟨i, hi, rfl⟩
    · rw [free_entry, if_neg hu, map_blocks_cons_other _ _ hu]

/-! ## §4. The state after boot. -/

/-- The page of bit `i` lies in a usable entry. -/
def UsablePage (entries : List LimineMemmapEntry) (low : UInt64) (i : ℕ) : Prop :=
  ∃ e ∈ entries, e.usable ∧ page_address low i ∈ span e.range

/-- The entry the bitmap goes to. -/
def bitmap_entry (p : PmmBitmap) (entries : List LimineMemmapEntry) :
    Option LimineMemmapEntry := entries.find? (suitable p)

/-- The page of bit `i` lies in the `size` bytes taken off that entry. -/
def CarvedPage (entries : List LimineMemmapEntry) (p : PmmBitmap) (i : ℕ) : Prop :=
  ∃ e, bitmap_entry p entries = some e
    ∧ page_address p.lowest_address i ∈ span (e.base.toNat, p.size.toNat)

/-- The page of bit `i` is given to the allocator at boot. -/
def BootPage (entries : List LimineMemmapEntry) (p : PmmBitmap) (i : ℕ) : Prop :=
  UsablePage entries p.lowest_address i ∧ ¬ CarvedPage entries p i

/-- Which pages are given depends on the lower end of the window and the size of the bitmap. -/
theorem bootPage_congr {p q : PmmBitmap} (entries : List LimineMemmapEntry)
    (hlow : p.lowest_address = q.lowest_address) (hsize : p.size = q.size) :
    BootPage entries p = BootPage entries q := by
  have hsuit : suitable p = suitable q := by
    funext e
    unfold suitable
    rw [hsize]
  funext i
  unfold BootPage CarvedPage bitmap_entry
  rw [hlow, hsize, hsuit]

/-- **The state `pmm_initialize` leaves**, in terms of the window and of the blocks `bs` it gave
    to the allocator. -/
structure Booted (entries : List LimineMemmapEntry) (p : PmmBitmap) (bs : List Block) :
    Prop where
  size_eq : p.size.toNat = (window_pages p / 64 + 4095) / 4096 * 4096
  total_eq : p.total_pages.toNat = window_pages p - p.size.toNat / 4096
  apart : Apart bs
  inside : ∀ i ∈ covered bs, i < window_pages p
  fits : total bs + p.size.toNat / 4096 ≤ window_pages p
  used_eq : p.used_pages.toNat + total bs = p.total_pages.toNat
  bit_eq : ∀ i < 64 * p.size.toNat, p.storage.bit i = decide (i = 0 ∨ i ∉ covered bs)
  touched_iff : ∀ t, t ∈ p.storage.touched ↔ t = 0 ∨ ∃ i ∈ covered bs, t = i / 64
  page_iff : ∀ i, i ∈ covered bs ↔ BootPage entries p i

/-- The number of rows, in terms of the window. -/
theorem count_memory_size (p : PmmBitmap) (entries : List LimineMemmapEntry) :
    (count_memory p entries).size.toNat
      = (window_pages (count_memory p entries) / 64 + 4095) / 4096 * 4096 := by
  have hW := window_pages_lt (count_memory p entries)
  have hrows : ((count_memory p entries).total_pages / BITS_PER_ROW).toNat
      = window_pages (count_memory p entries) / 64 := row_count_toNat _
  show (ALIGN_UP ((count_memory p entries).total_pages / BITS_PER_ROW) PAGE_SIZE).toNat = _
  rw [align_up_toNat _ (by omega), hrows]

/-- The first element that a test accepts. -/
theorem find?_first {α : Type*} (f : α → Bool) {pre post : List α} {e : α}
    (hpre : ∀ x ∈ pre, f x = false) (he : f e = true) :
    (pre ++ e :: post).find? f = some e := by
  rw [List.find?_append, List.find?_eq_none.mpr (by simpa using hpre), Option.none_or,
      List.find?_cons_of_pos he]

/-- The blocks of a map cover its usable pages. -/
theorem mem_map_blocks_iff {low : UInt64} {entries : List LimineMemmapEntry}
    (hm : UsableMap entries) (hlow : ∀ e ∈ entries, e.usable → low.toNat ≤ e.base.toNat) (i : ℕ) :
    i ∈ covered (map_blocks low entries) ↔ UsablePage entries low i := by
  rw [mem_covered_map_blocks]
  constructor
  · intro h
    obtain ⟨e, he, hu, hi⟩ := h
    exact ⟨e, he, hu, (mem_span_entry_block (hlow e he hu) (hm.aligned e he hu) i).mp hi⟩
  · intro h
    obtain ⟨e, he, hu, hi⟩ := h
    exact ⟨e, he, hu, (mem_span_entry_block (hlow e he hu) (hm.aligned e he hu) i).mpr hi⟩

section Chosen

variable {p : PmmBitmap} {pre post : List LimineMemmapEntry} {e : LimineMemmapEntry}

/-- The chosen entry is the carved part and what is left of it. -/
theorem mem_chosen_iff (hlen : p.size.toNat ≤ e.length.toNat)
    (hb : e.base.toNat + e.length.toNat < 2 ^ 64) (a : ℕ) :
    a ∈ span e.range
      ↔ a ∈ span (e.base.toNat, p.size.toNat) ∨ a ∈ span (carve p e).range := by
  rw [carve_range hlen hb]
  simp only [mem_span, LimineMemmapEntry.range]
  omega

/-- The upper part avoids the carved one. -/
theorem not_mem_carved_part (hlen : p.size.toNat ≤ e.length.toNat)
    (hb : e.base.toNat + e.length.toNat < 2 ^ 64) {a : ℕ} (ha : a ∈ span (carve p e).range) :
    a ∉ span (e.base.toNat, p.size.toNat) := by
  rw [carve_range hlen hb] at ha
  simp only [mem_span] at ha ⊢
  omega

/-- The other usable entries avoid the chosen one, on either side of it. -/
theorem UsableMap.other_avoids (hm : UsableMap (pre ++ e :: post)) (hu : e.usable)
    {x : LimineMemmapEntry} (hx : x ∈ pre ∨ x ∈ post) (hux : x.usable) {a : ℕ}
    (ha : a ∈ span x.range) : a ∉ span e.range := by
  have hd := hm.disjoint
  rw [List.pairwise_append, List.pairwise_cons] at hd
  obtain ⟨-, ⟨hhead, -⟩, hcross⟩ := hd
  rcases hx with hx | hx
  · exact Finset.disjoint_left.mp (hcross x hx e List.mem_cons_self hux hu) ha
  · exact fun hae => Finset.disjoint_left.mp (hhead x hx hu hux) hae ha

/-- The carved pages are those of the lower part of the chosen entry. -/
theorem carvedPage_iff (hpre : ∀ x ∈ pre, suitable p x = false) (hs : suitable p e = true)
    (i : ℕ) :
    CarvedPage (pre ++ e :: post) p i
      ↔ page_address p.lowest_address i ∈ span (e.base.toNat, p.size.toNat) := by
  have hfind : bitmap_entry p (pre ++ e :: post) = some e := find?_first _ hpre hs
  constructor
  · intro h
    obtain ⟨y, hy, hiy⟩ := h
    obtain rfl := Option.some.inj (hfind.symm.trans hy)
    exact hiy
  · intro h
    exact ⟨e, hfind, h⟩

/-- **The blocks of the carved map are the pages given to the allocator**: the usable pages, less
    the lower part of the chosen entry. -/
theorem mem_carved_blocks (hm : UsableMap (pre ++ e :: post))
    (hm' : UsableMap (pre ++ carve p e :: post))
    (hlow : ∀ x ∈ pre ++ carve p e :: post, x.usable → p.lowest_address.toNat ≤ x.base.toNat)
    (hpre : ∀ x ∈ pre, suitable p x = false) (hs : suitable p e = true) (i : ℕ) :
    i ∈ covered (map_blocks p.lowest_address (pre ++ carve p e :: post))
      ↔ BootPage (pre ++ e :: post) p i := by
  obtain ⟨hu, hlen⟩ := suitable_iff.mp hs
  have he : e ∈ pre ++ e :: post := by simp
  have hb := hm.bounded e he hu
  rw [mem_map_blocks_iff hm' hlow, BootPage, carvedPage_iff hpre hs]
  constructor
  · intro h
    obtain ⟨x, hx, hux, hix⟩ := h
    rcases mem_middle.mp hx with hx | rfl
    · -- a page of another entry is not in the chosen one
      refine ⟨⟨x, mem_middle.mpr (Or.inl hx), hux, hix⟩, ?_⟩
      intro hlower
      exact hm.other_avoids hu hx hux hix ((mem_chosen_iff hlen hb _).mpr (Or.inl hlower))
    · -- a page of the upper half is not in the lower one
      exact ⟨⟨e, he, hu, (mem_chosen_iff hlen hb _).mpr (Or.inr hix)⟩,
        not_mem_carved_part hlen hb hix⟩
  · intro h
    obtain ⟨⟨x, hx, hux, hix⟩, hnot⟩ := h
    rcases mem_middle.mp hx with hx | rfl
    · exact ⟨x, mem_middle.mpr (Or.inl hx), hux, hix⟩
    · -- a page of the chosen entry that is not carved is in the upper half
      rcases (mem_chosen_iff hlen hb _).mp hix with hlower | hupper
      · exact absurd hlower hnot
      · exact ⟨carve p x, by simp, hux, hupper⟩

end Chosen

/-- Carving takes `size / 4096` pages off the total. -/
theorem total_carved_blocks {p : PmmBitmap} {pre post : List LimineMemmapEntry}
    {e : LimineMemmapEntry} (hm : UsableMap (pre ++ e :: post)) (hu : e.usable)
    (hlen : p.size.toNat ≤ e.length.toNat) (hsize : p.size.toNat % 4096 = 0) :
    total (map_blocks p.lowest_address (pre ++ carve p e :: post)) + p.size.toNat / 4096
      = total (map_blocks p.lowest_address (pre ++ e :: post)) := by
  have he : e ∈ pre ++ e :: post := by simp
  have hlength := congrArg Prod.snd (carve_range hlen (hm.bounded e he hu))
  simp only [LimineMemmapEntry.range] at hlength
  -- the total with any usable entry in the middle
  have hsplit : ∀ x : LimineMemmapEntry, x.usable = true →
      total (map_blocks p.lowest_address (pre ++ x :: post))
        = total (map_blocks p.lowest_address pre) + (x.length.toNat / 4096
          + total (map_blocks p.lowest_address post)) := by
    intro x hx
    have happ : map_blocks p.lowest_address (pre ++ x :: post)
        = map_blocks p.lowest_address pre ++ map_blocks p.lowest_address (x :: post) := by
      simp only [map_blocks, List.filter_append, List.map_append]
    have hblock : (entry_block p.lowest_address x).2 = x.length.toNat / 4096 := page_div_toNat _
    rw [happ, total_append, map_blocks_cons_usable _ _ hx, total_cons, hblock]
  rw [hsplit e hu, hsplit (carve p e) hu, hlength]
  omega

/-! ## §5. Assembly. -/

/-- The state after the three passes and the reservation of page 0, when the first pass ended in
    `q` and the bitmap went to `e`. -/
def boot_state (g_hhdm_offset : UInt64) (q : PmmBitmap) (pre : List LimineMemmapEntry)
    (e : LimineMemmapEntry) (post : List LimineMemmapEntry) : PmmBitmap :=
  let p := (pre ++ carve q e :: post).foldl (free_entry g_hhdm_offset) (nestle g_hhdm_offset q e)
  { p with storage := bitmap_use p.storage 0 }

/-- What `pmm_initialize` did when it returned: it chose an entry, the map was printed, and the last
    pass went over the carved map. -/
theorem pmm_initialize_ok {g_hhdm_offset : UInt64} {ram : WordRows}
    {entries : List LimineMemmapEntry} {p : PmmBitmap}
    (h : pmm_initialize g_hhdm_offset ram entries = .ok p) :
    ∃ pre e post, entries = pre ++ e :: post
      ∧ (∀ x ∈ pre, suitable (count_memory (PmmBitmap.start ram) entries) x = false)
      ∧ suitable (count_memory (PmmBitmap.start ram) entries) e = true
      ∧ p = boot_state g_hhdm_offset (count_memory (PmmBitmap.start ram) entries) pre e post := by
  simp only [Mem.pmm_initialize] at h
  rcases place_bitmap_cases g_hhdm_offset (count_memory (PmmBitmap.start ram) entries) entries
    with ⟨hplace, -⟩ | ⟨pre, e, post, heq, hpre, hs, hplace⟩
  · -- nothing suitable: the map pointer is still `NULL`
    rw [hplace] at h
    have hnull : (count_memory (PmmBitmap.start ram) entries).map = NULL := by
      show (entries.foldl count_entry (PmmBitmap.start ram)).map = NULL
      rw [count_fold_frame]
      rfl
    simp only [hnull, BEq.rfl, if_true, reduceCtorEq] at h
  · refine ⟨pre, e, post, heq, hpre, hs, ?_⟩
    rw [hplace] at h
    dsimp only at h
    split at h
    · -- `hcf()`
      exact absurd h (by simp)
    · split at h
      · -- `print_memmap` does not come back
        exact absurd h (by simp)
      · exact (Except.ok.inj h).symm

section Assembly

variable (g_hhdm_offset : UInt64) (q : PmmBitmap) (pre : List LimineMemmapEntry)
  (e : LimineMemmapEntry) (post : List LimineMemmapEntry)

/-- The fields that only the first two passes set. -/
theorem boot_state_fields :
    (boot_state g_hhdm_offset q pre e post).map = e.base + g_hhdm_offset
    ∧ (boot_state g_hhdm_offset q pre e post).size = q.size
    ∧ (boot_state g_hhdm_offset q pre e post).total_pages = q.total_pages - q.size / PAGE_SIZE
    ∧ (boot_state g_hhdm_offset q pre e post).highest_address = q.highest_address
    ∧ (boot_state g_hhdm_offset q pre e post).lowest_address = q.lowest_address := by
  rw [boot_state, free_fold_frame]
  exact ⟨rfl, rfl, rfl, rfl, rfl⟩

/-- The bits: ones, less the blocks, plus page 0.  Every bit of the `size` rows was set, since
    `memset` covers more than these. -/
theorem boot_state_bit {i : ℕ} (hsize : q.size.toNat < 2 ^ 60) (hi : i < 64 * q.size.toNat) :
    (boot_state g_hhdm_offset q pre e post).storage.bit i
      = decide (i = 0 ∨ i ∉ covered (map_blocks q.lowest_address (pre ++ carve q e :: post))) := by
  -- `memset` covers eight times as many bytes as there are rows
  have hones : (nestle g_hhdm_offset q e).storage.bit i = true := by
    refine WordRows.bit_of_row_ones _ _ (if_pos ?_)
    rw [memset_size, UInt64.toNat_mul]
    simp only [UInt64.reduceToNat]
    omega
  have hlow : (nestle g_hhdm_offset q e).lowest_address = q.lowest_address := rfl
  rw [boot_state, bitmap_use_bit, free_fold_bit, hones, hlow, Bool.and_true,
      UInt64.toNat_zero, ← decide_not, ← Bool.decide_or]

/-- The rows accessed: row 0 and the rows of the blocks. -/
theorem boot_state_touched (hq : q.storage.touched = []) (t : ℕ) :
    t ∈ (boot_state g_hhdm_offset q pre e post).storage.touched
      ↔ t = 0
        ∨ ∃ i ∈ covered (map_blocks q.lowest_address (pre ++ carve q e :: post)), t = i / 64 := by
  have hnil : (nestle g_hhdm_offset q e).storage.touched = [] := hq
  have hlow : (nestle g_hhdm_offset q e).lowest_address = q.lowest_address := rfl
  rw [boot_state, bitmap_use_touched, List.mem_cons, free_fold_touched, hnil, hlow]
  simp only [UInt64.toNat_zero, Nat.zero_div, List.not_mem_nil, false_or]

/-- The counter: the reduced total, less the blocks.  `hfits` says that the pages of the map and of
    the bitmap are at most those of the window. -/
theorem boot_state_used (hsub : q.size / PAGE_SIZE ≤ q.total_pages)
    (hfits : total (map_blocks q.lowest_address (pre ++ carve q e :: post))
      + (q.size / PAGE_SIZE).toNat ≤ q.total_pages.toNat) :
    (boot_state g_hhdm_offset q pre e post).used_pages.toNat
      + total (map_blocks q.lowest_address (pre ++ carve q e :: post))
        = (boot_state g_hhdm_offset q pre e post).total_pages.toNat := by
  have htotal := (boot_state_fields g_hhdm_offset q pre e post).2.2.1
  have hused := free_fold_used g_hhdm_offset (pre ++ carve q e :: post)
    (nestle g_hhdm_offset q e)
  have hn : (nestle g_hhdm_offset q e).used_pages = q.total_pages - q.size / PAGE_SIZE := rfl
  have hlow : (nestle g_hhdm_offset q e).lowest_address = q.lowest_address := rfl
  rw [hn, hlow, UInt64.toNat_sub_of_le _ _ hsub] at hused
  rw [htotal, UInt64.toNat_sub_of_le _ _ hsub]
  show ((pre ++ carve q e :: post).foldl (free_entry g_hhdm_offset)
    (nestle g_hhdm_offset q e)).used_pages.toNat + _ = _
  rw [hused (by omega)]
  omega

end Assembly

/-- The blocks of a map fit in its window, because they are disjoint. -/
theorem total_map_blocks_le {p : PmmBitmap} {entries : List LimineMemmapEntry}
    (hm : UsableMap entries) (hh : Hull entries p.lowest_address p.highest_address) :
    total (map_blocks p.lowest_address entries) ≤ window_pages p := by
  rw [← card_covered (map_blocks_apart hm hh.low_le)]
  calc (covered (map_blocks p.lowest_address entries)).card
      ≤ (Finset.range (window_pages p)).card :=
        Finset.card_le_card fun i hi => Finset.mem_range.mpr (map_blocks_lt hm hh hi)
    _ = window_pages p := Finset.card_range _

/-- The carved map lies in the same hull. -/
theorem Hull.carved {q : PmmBitmap} {pre post : List LimineMemmapEntry} {e : LimineMemmapEntry}
    {low high : UInt64} (hm : UsableMap (pre ++ e :: post)) (hh : Hull (pre ++ e :: post) low high)
    (hu : e.usable) (hlen : q.size.toNat ≤ e.length.toNat) :
    Hull (pre ++ carve q e :: post) low high := by
  have he : e ∈ pre ++ e :: post := by simp
  have hrange := carve_range hlen (hm.bounded e he hu)
  simp only [LimineMemmapEntry.range, Prod.mk.injEq] at hrange
  have hlow := hh.low_le e he hu
  have hhigh := hh.le_high e he hu
  -- only the carved entry is new, and it lies in the chosen one
  refine ⟨?_, ?_, hh.high_aligned⟩
  · intro x hx hux
    rcases mem_carved hx with rfl | hx
    · omega
    · exact hh.low_le x hx hux
  · intro x hx hux
    rcases mem_carved hx with rfl | hx
    · omega
    · exact hh.le_high x hx hux

/-- **`pmm_initialize` boots the allocator.**  Whenever it returns on a usable map, the state it
    leaves is `Booted`; the blocks are those of the carved map. -/
theorem pmm_initialize_booted {g_hhdm_offset : UInt64} {ram : WordRows}
    {entries : List LimineMemmapEntry} {p : PmmBitmap} (hm : UsableMap entries)
    (h : pmm_initialize g_hhdm_offset ram entries = .ok p) :
    ∃ bs, Booted entries p bs := by
  obtain ⟨pre, e, post, heq, hpre, hs, rfl⟩ := pmm_initialize_ok h
  have hhull := count_memory_hull ram hm
  have hsizeq := count_memory_size (PmmBitmap.start ram) entries
  have hWlt := window_pages_lt (count_memory (PmmBitmap.start ram) entries)
  have htotq : (count_memory (PmmBitmap.start ram) entries).total_pages.toNat
      = window_pages (count_memory (PmmBitmap.start ram) entries) := rfl
  have htouched : (count_memory (PmmBitmap.start ram) entries).storage.touched = [] := by
    show (entries.foldl count_entry (PmmBitmap.start ram)).storage.touched = []
    rw [count_fold_frame]
    rfl
  -- from here on only these facts about the first pass matter
  generalize count_memory (PmmBitmap.start ram) entries = q at *
  subst heq
  obtain ⟨hu, hlen⟩ := suitable_iff.mp hs
  obtain ⟨-, hsize, htotal, hhigh, hlow⟩ := boot_state_fields g_hhdm_offset q pre e post
  have hsize4 : q.size.toNat % 4096 = 0 := by omega
  have hm' : UsableMap (pre ++ carve q e :: post) := carve_usableMap hm hu hlen hsize4
  have hhull' := hhull.carved hm hu hlen
  -- the last two passes leave the window as it is
  have hwin : window_pages (boot_state g_hhdm_offset q pre e post) = window_pages q := by
    unfold window_pages
    rw [hlow, hhigh]
  have hle := total_map_blocks_le hm hhull
  have hcarved := total_carved_blocks hm hu hlen hsize4
  have hsub : q.size / PAGE_SIZE ≤ q.total_pages := by
    rw [UInt64.le_iff_toNat_le, page_div_toNat, htotq]
    omega
  have hpage : ∀ i, i ∈ covered (map_blocks q.lowest_address (pre ++ carve q e :: post))
      ↔ BootPage (pre ++ e :: post) (boot_state g_hhdm_offset q pre e post) i := by
    intro i
    rw [mem_carved_blocks hm hm' hhull'.low_le hpre hs i, bootPage_congr _ hlow hsize]
  refine ⟨map_blocks q.lowest_address (pre ++ carve q e :: post), ?_⟩
  constructor
  case size_eq => rw [hsize, hwin, hsizeq]
  case total_eq =>
    rw [htotal, UInt64.toNat_sub_of_le _ _ hsub, page_div_toNat, htotq, hsize, hwin]
  case apart => exact map_blocks_apart hm' hhull'.low_le
  case inside =>
    intro i hi
    rw [hwin]
    exact map_blocks_lt hm' hhull' hi
  case fits =>
    rw [hsize, hwin]
    omega
  case used_eq =>
    apply boot_state_used g_hhdm_offset q pre e post hsub
    rw [page_div_toNat, htotq]
    omega
  case bit_eq =>
    intro i hi
    rw [hsize] at hi
    exact boot_state_bit g_hhdm_offset q pre e post (by omega) hi
  case touched_iff => exact boot_state_touched g_hhdm_offset q pre e post htouched
  case page_iff => exact hpage

/-- The window after boot is the hull, and its ends are the seeds or ends of usable entries. -/
theorem pmm_initialize_hull {g_hhdm_offset : UInt64} {ram : WordRows}
    {entries : List LimineMemmapEntry} {p : PmmBitmap} (hm : UsableMap entries)
    (h : pmm_initialize g_hhdm_offset ram entries = .ok p) :
    Hull entries p.lowest_address p.highest_address
    ∧ (p.lowest_address = 0xffffffff ∨ ∃ e ∈ entries, e.usable ∧ p.lowest_address = e.base)
    ∧ (p.highest_address = 0
        ∨ ∃ e ∈ entries, e.usable ∧ p.highest_address = e.base + e.length) := by
  obtain ⟨pre, e, post, -, -, -, rfl⟩ := pmm_initialize_ok h
  obtain ⟨-, -, -, hhigh, hlow⟩ := boot_state_fields g_hhdm_offset
    (count_memory (PmmBitmap.start ram) entries) pre e post
  rw [hhigh, hlow]
  exact ⟨count_memory_hull ram hm, (count_fold_lowest entries (PmmBitmap.start ram)).attained,
    (count_fold_highest entries (PmmBitmap.start ram)).attained⟩

/-- A booted map has a usable entry. -/
theorem pmm_initialize_usable {g_hhdm_offset : UInt64} {ram : WordRows}
    {entries : List LimineMemmapEntry} {p : PmmBitmap}
    (h : pmm_initialize g_hhdm_offset ram entries = .ok p) : ∃ e ∈ entries, e.usable := by
  obtain ⟨pre, e, post, rfl, -, hs, -⟩ := pmm_initialize_ok h
  exact ⟨e, by simp, (suitable_iff.mp hs).1⟩

/-! ## §6. What depends on the map alone. -/

/-- The first pass alone: the window and the sizes a memory map leads to. -/
def survey (entries : List LimineMemmapEntry) : PmmBitmap :=
  count_memory (PmmBitmap.start fun _ => 0) entries

/-- The first pass does not look at the storage. -/
theorem count_fold_storage (entries : List LimineMemmapEntry) (map : MapStorage) :
    ∀ p : PmmBitmap, entries.foldl count_entry { p with storage := map }
      = { entries.foldl count_entry p with storage := map } := by
  induction entries with
  | nil => intro p; rfl
  | cons e es ih =>
    intro p
    rw [List.foldl_cons, List.foldl_cons, ← ih (count_entry p e), count_entry_eq, count_entry_eq]

/-- Whatever RAM holds, the first pass computes the survey of the map. -/
theorem count_memory_survey (ram : WordRows) (entries : List LimineMemmapEntry) :
    count_memory (PmmBitmap.start ram) entries
      = { survey entries with storage := { word := ram, touched := [] } } := by
  have h := count_fold_storage entries { word := ram, touched := [] }
    (PmmBitmap.start fun _ => 0)
  unfold survey count_memory
  rw [← show PmmBitmap.start ram
      = { PmmBitmap.start (fun _ => 0) with storage := { word := ram, touched := [] } } from rfl]
    at h
  rw [h]

/-- **The window and the size of the bitmap are those of the survey**, the first pass alone.
    Neither the placement of the bitmap nor the freeing pass moves an end of the window, so the rest
    can be said of the map without running boot. -/
theorem pmm_initialize_survey {g_hhdm_offset : UInt64} {ram : WordRows}
    {entries : List LimineMemmapEntry} {p : PmmBitmap}
    (h : pmm_initialize g_hhdm_offset ram entries = .ok p) :
    p.size = (survey entries).size ∧ window_pages p = window_pages (survey entries)
      ∧ BootPage entries p = BootPage entries (survey entries) := by
  obtain ⟨pre, e, post, -, -, -, rfl⟩ := pmm_initialize_ok h
  rw [count_memory_survey]
  obtain ⟨-, hsize, -, hhigh, hlow⟩ := boot_state_fields g_hhdm_offset
    { survey entries with storage := { word := ram, touched := [] } } pre e post
  generalize boot_state g_hhdm_offset _ pre e post = p at hsize hhigh hlow
  have hwin : window_pages p = window_pages (survey entries) := by
    unfold window_pages
    rw [hlow, hhigh]
  exact ⟨hsize, hwin, bootPage_congr entries hlow hsize⟩

/-- So is the page that bit 0 stands for. -/
theorem pmm_initialize_lowest {g_hhdm_offset : UInt64} {ram : WordRows}
    {entries : List LimineMemmapEntry} {p : PmmBitmap}
    (h : pmm_initialize g_hhdm_offset ram entries = .ok p) :
    p.lowest_address = (survey entries).lowest_address := by
  obtain ⟨pre, e, post, -, -, -, rfl⟩ := pmm_initialize_ok h
  rw [count_memory_survey]
  obtain ⟨-, -, -, -, hlow⟩ := boot_state_fields g_hhdm_offset
    { survey entries with storage := { word := ram, touched := [] } } pre e post
  exact hlow

/-! ## §7. The window of a PC. -/

/-- The allocator of a PC whose bitmap has a bit to spare: the window is page aligned, small
    enough for 32-bit rows, and followed by at least one bit that stays used. -/
structure Arena (entries : List LimineMemmapEntry) (p : PmmBitmap) (bs : List Block) : Prop
    extends Booted entries p bs where
  low_aligned : p.lowest_address.toNat % 4096 = 0
  top_lt : p.lowest_address.toNat + 4096 * window_pages p < 2 ^ 64
  window_lt : window_pages p < 2 ^ 38
  spare : window_pages p < 64 * p.size.toNat

/-- **On a PC map with a spare bit boot leaves an arena.**  The lower end is the base of an entry,
    and not the seed, because some usable memory starts below that. -/
theorem pmm_initialize_arena {g_hhdm_offset : UInt64} {ram : WordRows}
    {entries : List LimineMemmapEntry} {p : PmmBitmap} (hpc : PcMap entries)
    (h : pmm_initialize g_hhdm_offset ram entries = .ok p)
    (hspare : window_pages p < 64 * p.size.toNat) : ∃ bs, Arena entries p bs := by
  have hm := hpc.toUsableMap
  obtain ⟨bs, hbooted⟩ := pmm_initialize_booted hm h
  obtain ⟨hhull, hlow, hhigh⟩ := pmm_initialize_hull hm h
  obtain ⟨e, he, hu⟩ := pmm_initialize_usable h
  have hlow4 : p.lowest_address.toNat % 4096 = 0 := by
    rcases hlow with hlow | ⟨x, hx, hux, hlow⟩
    · -- the seed is not a lower bound of the entry below it
      obtain ⟨y, hy, huy, hlt⟩ := hpc.low
      have hle := hhull.low_le y hy huy
      rw [hlow] at hle
      rw [UInt64.lt_iff_toNat_lt] at hlt
      omega
    · rw [hlow]
      exact (hm.aligned x hx hux).1
  have hhigh50 : p.highest_address.toNat < 2 ^ 50 := by
    rcases hhigh with hhigh | ⟨x, hx, hux, hhigh⟩
    · rw [hhigh]
      decide
    · rw [hhigh, top_toNat hm hx hux]
      exact hpc.below x hx hux
  have hwin := hhull.window he hu
  have hle1 := hhull.low_le e he hu
  have hle2 := hhull.le_high e he hu
  have hal := hhull.high_aligned
  exact ⟨bs, hbooted, hlow4, by omega, by omega, hspare⟩

/-- The window of such an allocator holds at least 64 pages. -/
theorem Arena.window_pos {entries : List LimineMemmapEntry} {p : PmmBitmap} {bs : List Block}
    (a : Arena entries p bs) : 64 ≤ window_pages p := by
  have hsize := a.size_eq
  have hspare := a.spare
  omega

end Hippos.Mem
