/-
  Hippos.Mem.Window — the memory map and the window of pages it spans.

  The first pass of `pmm_initialize` computes the hull of the usable entries; bit `i` of the bitmap
  then stands for the page at `page_address lowest i`.  This file gives the hull, the numbers
  derived from it, and the translation from an entry of the map to the block of page numbers that
  `kfree` computes for it.

  The pass is a fold that takes a minimum and a maximum at once.  Each of them is described by what
  a fold of that kind leaves: a bound of the seed and of every usable entry, which is the seed or
  belongs to one of them.  The seeds matter: `0xffffffff` drops out only on maps with usable memory
  below 4 GiB, and what the maximum is taken of are 64-bit sums.

  Main results:
    * `count_fold_lowest`, `count_fold_highest` — the two ends after the first pass.
    * `align_up_toNat` — `ALIGN_UP` to a page is rounding up, away from the top of the address
      space.
    * `window_pages_lt` — a window has fewer than 2^52 pages, so page numbers never wrap.
-/
import Hippos.Mem.Scan
import Hippos.Lib.FieldMask
import Hippos.Lib.Ledger
import Hippos.Lib.Reach

namespace Hippos.Mem

open Hippos.Lib

/-! ## §1. Memory maps. -/

/-- The addresses of an entry. -/
def LimineMemmapEntry.range (e : LimineMemmapEntry) : Block := (e.base.toNat, e.length.toNat)

/-- What Limine promises about usable entries: 4 KiB aligned, inside the 64-bit address space and
    pairwise disjoint.  Other entries are unconstrained. -/
structure UsableMap (entries : List LimineMemmapEntry) : Prop where
  aligned : ∀ e ∈ entries, e.usable → e.base.toNat % 4096 = 0 ∧ e.length.toNat % 4096 = 0
  bounded : ∀ e ∈ entries, e.usable → e.base.toNat + e.length.toNat < 2 ^ 64
  disjoint : entries.Pairwise
    (fun a b => a.usable → b.usable → Disjoint (span a.range) (span b.range))

/-- A map of a PC: usable memory ends below 2^50 and some of it starts below 4 GiB. -/
structure PcMap (entries : List LimineMemmapEntry) : Prop extends UsableMap entries where
  below : ∀ e ∈ entries, e.usable → e.base.toNat + e.length.toNat < 2 ^ 50
  low : ∃ e ∈ entries, e.usable ∧ e.base < 0xffffffff

/-! ## §2. The first pass. -/

/-- One round of the first pass takes a minimum and a maximum. -/
theorem count_entry_eq (p : PmmBitmap) (e : LimineMemmapEntry) :
    count_entry p e
      = { p with
          lowest_address := if e.usable ∧ e.base < p.lowest_address then e.base
            else p.lowest_address
          highest_address := if e.usable ∧ e.base + e.length > p.highest_address
            then e.base + e.length else p.highest_address } := by
  unfold count_entry
  by_cases hu : e.usable = true
  · by_cases hh : e.base + e.length > p.highest_address <;>
      by_cases hl : e.base < p.lowest_address <;> simp [hu, hh, hl]
  · simp [hu]

/-- The first pass changes the two addresses only. -/
theorem count_fold_frame (entries : List LimineMemmapEntry) :
    ∀ p : PmmBitmap, entries.foldl count_entry p
      = { p with
          lowest_address := (entries.foldl count_entry p).lowest_address
          highest_address := (entries.foldl count_entry p).highest_address } := by
  induction entries with
  | nil => intro p; rfl
  | cons e es ih =>
    intro p
    rw [List.foldl_cons, ih (count_entry p e), count_entry_eq]

/-- **The lower end**: a lower bound of the seed and of every usable base, and one of them. -/
theorem count_fold_lowest (entries : List LimineMemmapEntry) (p : PmmBitmap) :
    AttainedBound (fun a b => a ≤ b) (fun e => e.usable = true) LimineMemmapEntry.base entries
      p.lowest_address (entries.foldl count_entry p).lowest_address := by
  refine foldl_attainedBound (f := count_entry) ?_ ?_ ?_ entries p
  · intro a
    exact UInt64.le_refl a
  · intro a b c hab hbc
    exact UInt64.le_trans hab hbc
  · intro p e
    rw [count_entry_eq]
    by_cases hc : e.usable ∧ e.base < p.lowest_address
    · -- the entry starts below everything before it
      simp only [if_pos hc]
      refine ⟨UInt64.le_of_lt hc.2, ?_, Or.inr ⟨e, List.mem_singleton.mpr rfl, hc.1, rfl⟩⟩
      intro x hx _
      rw [List.mem_singleton.mp hx]
      exact UInt64.le_refl _
    · simp only [if_neg hc]
      refine ⟨UInt64.le_refl _, ?_, Or.inl rfl⟩
      intro x hx hu
      rw [List.mem_singleton.mp hx] at hu ⊢
      exact UInt64.not_lt.mp fun hlt => hc ⟨hu, hlt⟩

/-- **The upper end**: an upper bound of the seed and of every usable top, and one of them. -/
theorem count_fold_highest (entries : List LimineMemmapEntry) (p : PmmBitmap) :
    AttainedBound (fun a b => b ≤ a) (fun e => e.usable = true)
      (fun e : LimineMemmapEntry => e.base + e.length) entries
      p.highest_address (entries.foldl count_entry p).highest_address := by
  refine foldl_attainedBound (f := count_entry) ?_ ?_ ?_ entries p
  · intro a
    exact UInt64.le_refl a
  · intro a b c hba hcb
    exact UInt64.le_trans hcb hba
  · intro p e
    rw [count_entry_eq]
    by_cases hc : e.usable ∧ e.base + e.length > p.highest_address
    · -- the entry ends above everything before it
      simp only [if_pos hc]
      refine ⟨UInt64.le_of_lt hc.2, ?_, Or.inr ⟨e, List.mem_singleton.mpr rfl, hc.1, rfl⟩⟩
      intro x hx _
      rw [List.mem_singleton.mp hx]
      exact UInt64.le_refl _
    · simp only [if_neg hc]
      refine ⟨UInt64.le_refl _, ?_, Or.inl rfl⟩
      intro x hx hu
      rw [List.mem_singleton.mp hx] at hu ⊢
      exact UInt64.not_lt.mp fun hlt => hc ⟨hu, hlt⟩

/-! ## §3. The numbers of the window. -/

/-- The number of pages between the two addresses. -/
def window_pages (p : PmmBitmap) : ℕ := ((p.highest_address - p.lowest_address) / PAGE_SIZE).toNat

/-- The address of the page that bit `i` stands for. -/
def page_address (lowest : UInt64) (i : ℕ) : ℕ := 4096 * ((lowest.toNat + 4095) / 4096 + i)

/-- The block of page numbers that `kfree` computes for an entry of the map. -/
def entry_block (lowest : UInt64) (e : LimineMemmapEntry) : Block :=
  (((e.base - lowest) / PAGE_SIZE).toNat, (e.length / PAGE_SIZE).toNat)

/-- The blocks of the usable entries. -/
def map_blocks (lowest : UInt64) (entries : List LimineMemmapEntry) : List Block :=
  (entries.filter LimineMemmapEntry.usable).map (entry_block lowest)

/-- Masking the low twelve bits rounds down to a page. -/
theorem and_not_page_mask (x : UInt64) :
    (x &&& ~~~(PAGE_SIZE - 1)).toNat = x.toNat / 4096 * 4096 := by
  have hx := x.toNat_lt
  have hmask : (~~~(PAGE_SIZE - 1)).toNat = 2 ^ 12 * (2 ^ 52 - 1) := by decide
  rw [UInt64.toNat_and, hmask, and_field]
  omega

/-- `ALIGN_UP` to a page, away from the top of the address space, where its sum would wrap. -/
theorem align_up_toNat (x : UInt64) (h : x.toNat < 2 ^ 63) :
    (ALIGN_UP x PAGE_SIZE).toNat = (x.toNat + 4095) / 4096 * 4096 := by
  rw [ALIGN_UP, and_not_page_mask]
  have hsum : (x + PAGE_SIZE - 1).toNat = x.toNat + 4095 := by
    rw [UInt64.toNat_sub, UInt64.toNat_add]
    simp only [PAGE_SIZE, UInt64.reduceToNat]
    omega
  rw [hsum]

/-- Dividing by a page is dividing by 4096. -/
theorem page_div_toNat (x : UInt64) : (x / PAGE_SIZE).toNat = x.toNat / 4096 := by
  rw [UInt64.toNat_div]
  rfl

/-- Dividing by a row is dividing by 64. -/
theorem row_count_toNat (x : UInt64) : (x / BITS_PER_ROW).toNat = x.toNat / 64 := by
  rw [UInt64.toNat_div]
  rfl

/-- A 64-bit difference has fewer than 2^52 pages. -/
theorem window_pages_lt (p : PmmBitmap) : window_pages p < 2 ^ 52 := by
  have h := (p.highest_address - p.lowest_address).toNat_lt
  rw [window_pages, page_div_toNat]
  omega

end Hippos.Mem
