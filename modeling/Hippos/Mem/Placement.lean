/-
  Hippos.Mem.Placement — where the bytes of the bitmap are.

  `pmm_initialize` uses `size` in three units.  It clears `size * 8` bytes, takes `size` bytes off
  the entry that holds the bitmap, and counts `size` rows of 64 bits.  The bytes that are cleared
  and the bytes that are taken off therefore never agree: with a bitmap the cleared range runs past
  the carved one, and with a window under 64 pages nothing is carved for the row that page 0 uses.

  That protection fails on every map needs one byte only, the first behind the carved range or the
  first of the bitmap.  What comes of it is shown on a machine: with 256 MiB the first page that is
  given out after boot is a page of the bitmap, and whoever writes there changes which pages are
  free.

  Main results:
    * `pmm_initialize_entry` — the bitmap starts where the chosen entry did.
    * `bitmap_unprotected` — on no map that boots is the bitmap protected.
    * `quarter_gib_hands_out_bitmap` — a machine that hands a page of its bitmap out.
-/
import Hippos.Mem.Accounting

namespace Hippos.Mem

open Hippos.Lib
open Relation

/-! ## §1. Bytes. -/

/-- The physical address of byte `k` of the bitmap. -/
def storage_byte (g_hhdm_offset : UInt64) (p : PmmBitmap) (k : ℕ) : ℕ :=
  (p.map - g_hhdm_offset + UInt64.ofNat k).toNat

/-- The byte of the bitmap that holds bit `i`: rows are little-endian words of eight bytes. -/
def byte_of_bit (i : ℕ) : ℕ := 8 * (i / 64) + i % 64 / 8

/-- The physical bytes of a block `kalloc` gave out. -/
def block_bytes (g_hhdm_offset : UInt64) (a : UInt64 × UInt64) : Finset ℕ :=
  span ((a.1 - g_hhdm_offset).toNat, 4096 * a.2.toNat)

/-- Byte `k` is the bitmap's own: `memset` clears it, or a page of the window has its bit there. -/
def BitmapByte (p : PmmBitmap) (k : ℕ) : Prop :=
  k < (memset_size p).toNat ∨ ∃ i < window_pages p, k = byte_of_bit i

/-- Byte `k` is written by `pmm_initialize`, through `memset` or with a whole row. -/
def WrittenByte (p : PmmBitmap) (k : ℕ) : Prop :=
  k < (memset_size p).toNat ∨ ∃ t ∈ p.storage.touched, 8 * t ≤ k ∧ k < 8 * t + 8

/-- **The bitmap is protected**: its bytes lie in the range carved for it, no block that is handed
    out later contains one of them, and booting writes inside the chosen entry only. -/
structure BitmapProtected (g_hhdm_offset : UInt64) (entries : List LimineMemmapEntry)
    (p : PmmBitmap) : Prop where
  carved : ∀ e, bitmap_entry p entries = some e → ∀ k, BitmapByte p k →
    storage_byte g_hhdm_offset p k ∈ span (e.base.toNat, p.size.toNat)
  kept : ∀ s, Reachable g_hhdm_offset p s → ∀ a ∈ s.outstanding, ∀ k, BitmapByte p k →
    storage_byte g_hhdm_offset p k ∉ block_bytes g_hhdm_offset a
  inside : ∀ e, bitmap_entry p entries = some e → ∀ k, WrittenByte p k →
    storage_byte g_hhdm_offset p k ∈ span e.range

/-! ## §2. The chosen entry. -/

/-- The bitmap starts where the chosen entry did. -/
theorem pmm_initialize_entry {g_hhdm_offset : UInt64} {ram : WordRows}
    {entries : List LimineMemmapEntry} {p : PmmBitmap}
    (h : pmm_initialize g_hhdm_offset ram entries = .ok p) :
    ∃ e ∈ entries, bitmap_entry p entries = some e ∧ e.usable
      ∧ p.size.toNat ≤ e.length.toNat ∧ p.map = e.base + g_hhdm_offset := by
  obtain ⟨pre, e, post, heq, hpre, hs, rfl⟩ := pmm_initialize_ok h
  obtain ⟨hmap, hsize, -⟩ := boot_state_fields g_hhdm_offset
    (count_memory (PmmBitmap.start ram) entries) pre e post
  generalize boot_state g_hhdm_offset _ pre e post = p at hmap hsize
  have hsuit : suitable p = suitable (count_memory (PmmBitmap.start ram) entries) := by
    funext x
    unfold suitable
    rw [hsize]
  rw [← hsuit] at hs
  refine ⟨e, by simp [heq], ?_, (suitable_iff.mp hs).1, (suitable_iff.mp hs).2, hmap⟩
  rw [bitmap_entry, heq]
  exact find?_first _ (fun x hx => by rw [hsuit]; exact hpre x hx) hs

/-- A byte of the bitmap inside the chosen entry has the expected address: the direct-map offset
    cancels, and the sum does not wrap. -/
theorem storage_byte_eq {g_hhdm_offset : UInt64} {p : PmmBitmap} {e : LimineMemmapEntry}
    (hmap : p.map = e.base + g_hhdm_offset) {k : ℕ} (hk : e.base.toNat + k < 2 ^ 64) :
    storage_byte g_hhdm_offset p k = e.base.toNat + k := by
  rw [storage_byte, hmap, UInt64.add_sub_cancel, UInt64.toNat_add, UInt64.toNat_ofNat']
  omega

/-- An entry fits in the window, since the window begins and ends with entries. -/
theorem Hull.entry_le {entries : List LimineMemmapEntry} {p : PmmBitmap} (hm : UsableMap entries)
    (hh : Hull entries p.lowest_address p.highest_address) {e : LimineMemmapEntry}
    (he : e ∈ entries) (hu : e.usable) : e.length.toNat ≤ 4096 * window_pages p := by
  have hwin := hh.window he hu
  have hlow := hh.low_le e he hu
  have hhigh := hh.le_high e he hu
  have hal := hm.aligned e he hu
  have hend := hh.high_aligned
  omega

/-! ## §3. Never protected. -/

/-- **The bitmap is never protected.**  Either the carved range is empty, and then the bits of the
    window or the row of page 0 have no room in it; or it is not, and then `memset` clears the byte
    behind it. -/
theorem bitmap_unprotected {g_hhdm_offset : UInt64} {ram : WordRows}
    {entries : List LimineMemmapEntry} {p : PmmBitmap} (hm : UsableMap entries)
    (hinit : pmm_initialize g_hhdm_offset ram entries = .ok p) :
    ¬ BitmapProtected g_hhdm_offset entries p := by
  intro h
  obtain ⟨bs, hbooted⟩ := pmm_initialize_booted hm hinit
  obtain ⟨hhull, -⟩ := pmm_initialize_hull hm hinit
  obtain ⟨e, he, hfind, hu, hlen, hmap⟩ := pmm_initialize_entry hinit
  have hb := hm.bounded e he hu
  have hWlt := window_pages_lt p
  have hsize := hbooted.size_eq
  -- whether anything is carved decides which byte gives it away
  rcases Nat.eq_zero_or_pos p.size.toNat with hzero | hpos
  · -- nothing is carved, and row 0 is written
    have hbase : storage_byte g_hhdm_offset p 0 = e.base.toNat := storage_byte_eq hmap (by omega)
    rcases Nat.eq_zero_or_pos (window_pages p) with hW | hW
    · -- the chosen entry is empty
      have hlen0 := hhull.entry_le hm he hu
      have hmem := h.inside e hfind 0 (Or.inr ⟨0, (hbooted.touched_iff 0).mpr (Or.inl rfl),
        by omega, by omega⟩)
      rw [hbase, LimineMemmapEntry.range, mem_span] at hmem
      omega
    · -- the bit of page 0 is outside the empty carved range
      have hmem := h.carved e hfind 0 (Or.inr ⟨0, hW, rfl⟩)
      rw [hbase, mem_span] at hmem
      omega
  · -- the byte after the carved range is cleared too
    have hspill : p.size.toNat < (memset_size p).toNat := by
      rw [memset_size, UInt64.toNat_mul]
      simp only [UInt64.reduceToNat]
      omega
    have hmem := h.carved e hfind p.size.toNat (Or.inl hspill)
    rw [storage_byte_eq hmap (by omega), mem_span] at hmem
    omega

/-- The small machine, whose bitmap has 4096 rows for 64 pages. -/
theorem bitmap_unprotected_small : ¬ BitmapProtected small_hhdm small_machine small_boot :=
  bitmap_unprotected small_machine_pcMap.toUsableMap small_machine_boots

/-! ## §4. A machine that hands its bitmap out. -/

/-- 256 MiB of RAM at 1 MiB. -/
def quarter_gib_machine : List LimineMemmapEntry :=
  [{ base := 0x100000, length := 0x10000000, type := LIMINE_MEMMAP_USABLE }]

/-- Its state after boot, RAM being zero. -/
def quarter_gib_boot : PmmBitmap :=
  boot_state small_hhdm (count_memory (PmmBitmap.start fun _ => 0) quarter_gib_machine) []
    { base := 0x100000, length := 0x10000000, type := LIMINE_MEMMAP_USABLE } []

/-- It is a map of a PC. -/
theorem quarter_gib_pcMap : PcMap quarter_gib_machine where
  aligned := by simp [quarter_gib_machine]
  bounded := by simp [quarter_gib_machine]
  disjoint := List.pairwise_singleton _ _
  below := by simp [quarter_gib_machine]
  low := ⟨_, List.mem_singleton.mpr rfl, rfl, by decide⟩

/-- And it boots. -/
theorem quarter_gib_boots :
    pmm_initialize small_hhdm (fun _ => 0) quarter_gib_machine = .ok quarter_gib_boot := rfl

/-- The first page given out after boot holds the bits of the upper half of the window. -/
theorem quarter_gib_hands_out_bitmap :
    UsableMap quarter_gib_machine
      ∧ pmm_initialize small_hhdm (fun _ => 0) quarter_gib_machine = .ok quarter_gib_boot
      ∧ (kalloc small_hhdm quarter_gib_boot 1).1 = some 0xffff800000101000
      ∧ storage_byte small_hhdm quarter_gib_boot (byte_of_bit 32768)
          ∈ block_bytes small_hhdm (0xffff800000101000, 1)
      ∧ ¬ BitmapProtected small_hhdm quarter_gib_machine quarter_gib_boot := by
  have hwin : window_pages quarter_gib_boot = 65536 := by decide +kernel
  have hsize : quarter_gib_boot.size.toNat = 4096 := by decide +kernel
  have htotal : quarter_gib_boot.total_pages.toNat = 65535 := by decide +kernel
  obtain ⟨bs, a⟩ := pmm_initialize_arena quarter_gib_pcMap quarter_gib_boots (by omega)
  have hbyte : storage_byte small_hhdm quarter_gib_boot (byte_of_bit 32768) = 0x101000 := by
    decide +kernel
  -- page 0 is reserved and page 1 is the first one given
  have hgiven : 1 ∈ covered bs := by
    rw [a.page_iff]
    refine ⟨⟨_, List.mem_singleton.mpr rfl, rfl, ?_⟩, ?_⟩
    · rw [mem_span]
      decide +kernel
    · intro hex
      obtain ⟨e, he, hmem⟩ := hex
      have hfind : bitmap_entry quarter_gib_boot quarter_gib_machine
          = some { base := 0x100000, length := 0x10000000, type := LIMINE_MEMMAP_USABLE } := by
        decide +kernel
      rw [hfind] at he
      obtain rfl := Option.some.inj he
      rw [mem_span] at hmem
      revert hmem
      decide +kernel
  -- so the search stops at page 1
  have hfirst : FirstFit quarter_gib_boot.storage.Clear quarter_gib_boot.total_pages.toNat 1 1 := by
    refine firstFit_iff.mpr ⟨by omega, ?_, ?_⟩
    · intro i hi
      rw [Nat.lt_one_iff.mp hi]
      exact (a.clear_iff (by omega)).mpr ⟨by omega, hgiven⟩
    · intro c hc hrun
      have hclear := (a.clear_iff (by omega)).mp (hrun 0 Nat.one_pos)
      omega
  have hkalloc : (kalloc small_hhdm quarter_gib_boot 1).1 = some 0xffff800000101000 := by
    have r : Refines small_hhdm quarter_gib_boot ⟨quarter_gib_boot, []⟩ _ := refines_boot a
    rcases r.kalloc_answer a (by decide : (0 : UInt64) < 1) with ⟨-, hnone⟩ | ⟨b, hb, -, hsome⟩
    · obtain ⟨hlt, hrun, -⟩ := firstFit_iff.mp hfirst
      exact absurd ⟨1, hlt, hrun⟩ hnone
    · rw [hsome, firstFit_unique hb hfirst]
      decide +kernel
  have hmem : storage_byte small_hhdm quarter_gib_boot (byte_of_bit 32768)
      ∈ block_bytes small_hhdm (0xffff800000101000, 1) := by
    rw [hbyte, block_bytes, mem_span]
    decide +kernel
  refine ⟨quarter_gib_pcMap.toUsableMap, quarter_gib_boots, hkalloc, hmem, ?_⟩
  intro h
  exact h.kept _ (.single (Step.kalloc_block ⟨quarter_gib_boot, []⟩ 1 _ hkalloc)) _
    List.mem_cons_self _ (Or.inr ⟨32768, by omega, rfl⟩) hmem

end Hippos.Mem
