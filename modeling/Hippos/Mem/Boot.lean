/-
  Hippos.Mem.Boot — whether boot comes to an end, and what it marks.

  `print_memmap` stands between the placement of the bitmap and the freeing pass, and counts the
  entries in a `uint8_t`.  A map of 256 entries or more keeps it running forever; below that
  `pmm_initialize` returns, and the bits of the window are exactly the usable memory.

  The loop is looked at twice.  The indices it visits depend on the number of entries alone, so
  whether it ends is settled without the entries; and what it prints are the entries at these
  indices, in their order.  Once printing is known to end, the state after boot is that of
  `Hippos.Mem.Initialize`, on whose bits the pages of the map can be read.

  Main results:
    * `visits_short`, `visits_long` — the loop visits every index once, or never ends.
    * `pmm_initialize_short`, `pmm_initialize_long` — so boot comes back, or hangs.
    * `map_printed_iff` — the map is printed and boot goes on exactly below 256 entries.
    * `marks_usable_iff` — and exactly then is the usable memory what is marked free.
-/
import Hippos.Mem.Ownership

namespace Hippos.Mem

open Hippos.Lib

/-! ## §1. The printing loop. -/

/-- The indices the loop of `print_memmap` visits: `print_memmap_loop` with the number of entries
    only. -/
def print_memmap_visits (entry_count : ℕ) : (rounds : ℕ) → (i : UInt8) → Option (List ℕ)
  | 0, _ => none
  | rounds + 1, i =>
    if i.toNat < entry_count
    then (print_memmap_visits entry_count rounds (i + 1)).map (i.toNat :: ·)
    else some []

/-- **The loop prints the entries it visits**, in that order.  By induction on the rounds, from any
    value of the counter. -/
theorem print_memmap_loop_visits (entries : List LimineMemmapEntry) (rounds : ℕ) :
    ∀ i : UInt8, print_memmap_loop entries rounds i
      = (print_memmap_visits entries.length rounds i).map
          fun visited => visited.filterMap fun j => entries[j]?.map memmap_line := by
  induction rounds with
  | zero => intro i; rfl
  | succ rounds ih =>
    intro i
    rw [print_memmap_loop, print_memmap_visits]
    by_cases hi : i.toNat < entries.length
    · -- one line, then the rest
      rw [if_pos hi, List.getElem?_eq_getElem hi]
      dsimp only
      rw [ih, Option.map_map, Option.map_map]
      congr 1
      funext visited
      show _ = List.filterMap (fun j => entries[j]?.map memmap_line) (i.toNat :: visited)
      rw [List.filterMap_cons_some (by rw [List.getElem?_eq_getElem hi]; rfl)]
      rfl
    · rw [if_neg hi, List.getElem?_eq_none (by omega)]
      rfl

/-- Below 256 entries the counter does not wrap: from `i` the loop visits the rest, in order, and
    needs one round more to see that it is done. -/
theorem visits_short {entry_count : ℕ} (h : entry_count ≤ 255) (left : ℕ) :
    ∀ (i : UInt8) (rounds : ℕ), i.toNat + left = entry_count → left < rounds →
      print_memmap_visits entry_count rounds i = some (List.range' i.toNat left) := by
  induction left with
  | zero =>
    intro i rounds hi hrounds
    obtain ⟨rounds, rfl⟩ := Nat.exists_eq_succ_of_ne_zero (Nat.pos_iff_ne_zero.mp hrounds)
    rw [print_memmap_visits, if_neg (by omega)]
    rfl
  | succ left ih =>
    intro i rounds hi hrounds
    obtain ⟨rounds, rfl⟩ := Nat.exists_eq_succ_of_ne_zero (by omega : rounds ≠ 0)
    -- the counter is below 255, so it does not wrap
    have hone : (1 : UInt8).toNat = 1 := rfl
    have hnext : (i + 1).toNat = i.toNat + 1 := by
      rw [UInt8.toNat_add, hone]
      omega
    rw [print_memmap_visits, if_pos (by omega), ih (i + 1) rounds (by omega) (by omega), hnext]
    rfl

/-- From 256 entries on every value of the counter is below the bound: the loop never stops. -/
theorem visits_long {entry_count : ℕ} (h : 255 < entry_count) (rounds : ℕ) :
    ∀ i : UInt8, print_memmap_visits entry_count rounds i = none := by
  induction rounds with
  | zero => intro i; rfl
  | succ rounds ih =>
    intro i
    have hi := i.toNat_lt
    rw [print_memmap_visits, if_pos (by omega), ih]
    rfl

/-- The printing loop comes to an end on a short map. -/
theorem print_memmap_short {entries : List LimineMemmapEntry} (h : entries.length ≤ 255) :
    ∃ lines, print_memmap entries = some lines := by
  have hvisits : print_memmap_visits entries.length (2 ^ 8) 0
      = some (List.range' 0 entries.length) :=
    visits_short h entries.length 0 (2 ^ 8) (Nat.zero_add _) (by omega)
  rw [print_memmap, print_memmap_loop_visits, hvisits]
  exact ⟨_, rfl⟩

/-- It does not on a long one. -/
theorem print_memmap_long {entries : List LimineMemmapEntry} (h : 255 < entries.length) :
    print_memmap entries = none := by
  rw [print_memmap, print_memmap_loop_visits, visits_long h]
  rfl

/-! ## §2. Boot comes to an end. -/

/-- A bitmap place is found: the test before `hcf()`.  The pointer that is tested is a sum with the
    direct-map offset, so it is a statement about both. -/
def Placed (g_hhdm_offset : UInt64) (ram : WordRows) (entries : List LimineMemmapEntry) : Prop :=
  (place_bitmap g_hhdm_offset (count_memory (PmmBitmap.start ram) entries) entries).1.map ≠ NULL

/-- The placement shortens an entry and drops none. -/
theorem place_bitmap_length (g_hhdm_offset : UInt64) (p : PmmBitmap)
    (entries : List LimineMemmapEntry) :
    (place_bitmap g_hhdm_offset p entries).2.length = entries.length := by
  rcases place_bitmap_cases g_hhdm_offset p entries
    with ⟨hplace, -⟩ | ⟨pre, e, post, rfl, -, -, hplace⟩
  · rw [hplace]
  · rw [hplace, List.length_append, List.length_append, List.length_cons, List.length_cons]

section Boot

variable {g_hhdm_offset : UInt64} {ram : WordRows} {entries : List LimineMemmapEntry}

/-- Once the bitmap has its place, boot hangs on the printing of the map alone. -/
theorem pmm_initialize_placed (hplaced : Placed g_hhdm_offset ram entries) :
    (print_memmap (place_bitmap g_hhdm_offset (count_memory (PmmBitmap.start ram) entries)
          entries).2 = none
        → pmm_initialize g_hhdm_offset ram entries = .error .print_memmap)
      ∧ ((∃ lines, print_memmap (place_bitmap g_hhdm_offset
            (count_memory (PmmBitmap.start ram) entries) entries).2 = some lines)
        → ∃ p, pmm_initialize g_hhdm_offset ram entries = .ok p) := by
  rw [Placed, ne_eq, ← beq_iff_eq] at hplaced
  simp only [Mem.pmm_initialize]
  rw [if_neg hplaced]
  constructor
  · intro hprint
    rw [hprint]
  · intro hprint
    obtain ⟨lines, hprint⟩ := hprint
    rw [hprint]
    exact ⟨_, rfl⟩

/-- **A short map boots**: once the bitmap has a place nothing is left that could fail, and the loop
    of `print_memmap` meets its end within one round of its 8-bit counter. -/
theorem pmm_initialize_short (hplaced : Placed g_hhdm_offset ram entries)
    (h : entries.length ≤ 255) : ∃ p, pmm_initialize g_hhdm_offset ram entries = .ok p :=
  (pmm_initialize_placed hplaced).2
    (print_memmap_short ((place_bitmap_length g_hhdm_offset _ entries).trans_le h))

/-- **A long map hangs in `print_memmap`**, before a single page is freed.  The 8-bit counter goes
    round below the number of entries, so the loop prints the first 256 lines again and again. -/
theorem pmm_initialize_long (hplaced : Placed g_hhdm_offset ram entries)
    (h : 255 < entries.length) :
    pmm_initialize g_hhdm_offset ram entries = .error .print_memmap :=
  (pmm_initialize_placed hplaced).1
    (print_memmap_long (h.trans_eq (place_bitmap_length g_hhdm_offset _ entries).symm))

/-- **The map is printed and boot goes on**: the loop visits every index once, in order, and stops;
    and once a place for the bitmap is found `pmm_initialize` comes back. -/
structure MapPrinted (entries : List LimineMemmapEntry) : Prop where
  visits : ∃ rounds,
    print_memmap_visits entries.length rounds 0 = some (List.range entries.length)
  boots : ∀ (g_hhdm_offset : UInt64) (ram : WordRows), Placed g_hhdm_offset ram entries →
    ∃ p, pmm_initialize g_hhdm_offset ram entries = .ok p

/-- **Printing the map ends exactly below 256 entries.**  With 256 the counter wraps before it is as
    large as their number. -/
theorem map_printed_iff (entries : List LimineMemmapEntry) :
    MapPrinted entries ↔ entries.length ≤ 255 := by
  constructor
  · intro h
    obtain ⟨rounds, hvisits⟩ := h.visits
    by_contra hlong
    rw [visits_long (by omega)] at hvisits
    exact absurd hvisits (by simp)
  · intro h
    refine ⟨⟨entries.length + 1, ?_⟩, fun _ _ hplaced => pmm_initialize_short hplaced h⟩
    rw [visits_short h entries.length 0 _ (Nat.zero_add _) (Nat.lt_succ_self _),
        List.range_eq_range']
    rfl

/-! ## §3. What boot marks. -/

/-- **Exactly the usable memory is free**: in the window the pages of usable entries that were not
    carved off for the bitmap, page 0 excepted; after the window nothing. -/
structure MarksUsable (entries : List LimineMemmapEntry) (p : PmmBitmap) : Prop where
  window : ∀ i < ((p.highest_address - p.lowest_address) / PAGE_SIZE).toNat,
    p.storage.bit i = false
      ↔ i ≠ 0
        ∧ (∃ e ∈ entries, e.usable ∧ p.lowest_address.toNat + 4096 * i ∈ span e.range)
        ∧ ¬ ∃ e, bitmap_entry p entries = some e
          ∧ p.lowest_address.toNat + 4096 * i ∈ span (e.base.toNat, p.size.toNat)
  beyond : ∀ i, ((p.highest_address - p.lowest_address) / PAGE_SIZE).toNat ≤ i →
    i < 64 * p.size.toNat → p.storage.bit i = true

/-- A booted allocator whose window fits its rows marks the usable memory. -/
theorem Arena.marksUsable {p : PmmBitmap} {bs : List Block} (a : Arena entries p bs) :
    MarksUsable entries p where
  window := by
    intro i hi
    have hwin : i < window_pages p := hi
    have hspare := a.spare
    have hlow := a.low_aligned
    have haddr : page_address p.lowest_address i = p.lowest_address.toNat + 4096 * i := by
      rw [page_address]
      omega
    -- on an aligned window page `i` is at `lowest_address + 4096 * i`
    have hpage := a.page_iff i
    rw [BootPage, UsablePage, CarvedPage, haddr] at hpage
    rw [a.bit_eq i (by omega), decide_eq_false_iff_not, not_or, not_not, hpage]
  beyond := by
    intro i hge hlt
    rw [a.bit_eq i hlt, decide_eq_true_eq]
    refine Or.inr fun hmem => ?_
    have hin := a.inside i hmem
    rw [window_pages] at hin
    omega

/-- **`pmm_initialize` marks exactly the usable memory free, on exactly the maps of fewer than 256
    entries.**  The map is one of a PC for which a place is found and whose bitmap has a bit to
    spare; the two sides say nothing of other maps. -/
theorem marks_usable_iff (hpc : PcMap entries) (hplaced : Placed g_hhdm_offset ram entries)
    (hspare : window_pages (survey entries) < 64 * (survey entries).size.toNat) :
    (∃ p, pmm_initialize g_hhdm_offset ram entries = .ok p ∧ MarksUsable entries p)
      ↔ entries.length ≤ 255 := by
  constructor
  · -- a long map never gets to a state
    intro h
    obtain ⟨p, hinit, -⟩ := h
    by_contra hlong
    rw [pmm_initialize_long hplaced (by omega)] at hinit
    exact absurd hinit (by simp)
  · intro h
    obtain ⟨p, hinit⟩ := pmm_initialize_short hplaced h
    obtain ⟨hsize, hwin, -⟩ := pmm_initialize_survey hinit
    rw [← hsize, ← hwin] at hspare
    obtain ⟨bs, a⟩ := pmm_initialize_arena hpc hinit hspare
    exact ⟨p, hinit, a.marksUsable⟩

end Boot

/-- The small machine. -/
theorem marks_usable_iff_small :
    (∃ p, pmm_initialize small_hhdm (fun _ => 0) small_machine = .ok p
        ∧ MarksUsable small_machine p)
      ↔ small_machine.length ≤ 255 :=
  marks_usable_iff small_machine_pcMap (by unfold Placed; decide) (by decide)

/-! ## §4. A machine with 256 entries. -/

/-- 255 entries that are not usable, as a firmware with fragmented reservations reports them. -/
def reservations : List LimineMemmapEntry :=
  List.replicate 255 { base := 0, length := 0, type := LIMINE_MEMMAP_RESERVED }

/-- The small machine with these behind its memory. -/
def fragmented_machine : List LimineMemmapEntry := small_machine ++ reservations

/-- One entry and 255 reservations. -/
theorem fragmented_length : fragmented_machine.length = 256 := by
  rw [fragmented_machine, List.length_append, reservations, List.length_replicate]
  rfl

/-- The usable entries are those of the small machine. -/
theorem usable_fragmented {e : LimineMemmapEntry} (he : e ∈ fragmented_machine) (hu : e.usable) :
    e ∈ small_machine := by
  rcases List.mem_append.mp he with he | he
  · exact he
  · rw [List.eq_of_mem_replicate he] at hu
    exact absurd hu (by decide)

/-- It is a map of a PC. -/
theorem fragmented_pcMap : PcMap fragmented_machine where
  aligned e he hu := small_machine_pcMap.aligned e (usable_fragmented he hu) hu
  bounded e he hu := small_machine_pcMap.bounded e (usable_fragmented he hu) hu
  disjoint := by
    -- a reservation is disjoint from everything
    have hfree : ∀ e ∈ reservations, ¬ e.usable = true := by
      intro e he
      rw [List.eq_of_mem_replicate he]
      decide
    refine List.pairwise_append.mpr ⟨small_machine_pcMap.disjoint, ?_, ?_⟩
    · exact List.pairwise_of_forall_mem_list fun a ha _ _ hua => absurd hua (hfree a ha)
    · exact fun _ _ b hb _ hub => absurd hub (hfree b hb)
  below e he hu := small_machine_pcMap.below e (usable_fragmented he hu) hu
  low := by
    obtain ⟨e, he, hu, hlt⟩ := small_machine_pcMap.low
    exact ⟨e, List.mem_append_left _ he, hu, hlt⟩

/-- There is a place for its bitmap. -/
theorem fragmented_placed : Placed small_hhdm (fun _ => 0) fragmented_machine := by
  unfold Placed
  decide +kernel

/-- Printing its map never ends, and boot never gets to the freeing pass. -/
theorem fragmented_machine_hangs :
    ¬ MapPrinted fragmented_machine
      ∧ pmm_initialize small_hhdm (fun _ => 0) fragmented_machine = .error .print_memmap := by
  have hlong : 255 < fragmented_machine.length := by
    rw [fragmented_length]
    omega
  refine ⟨?_, pmm_initialize_long fragmented_placed hlong⟩
  intro h
  obtain ⟨rounds, hvisits⟩ := h.visits
  rw [visits_long hlong] at hvisits
  exact absurd hvisits (by simp)

/-- Its memory is never marked free, although a place for the bitmap is found. -/
theorem fragmented_machine_unmarked :
    PcMap fragmented_machine ∧ Placed small_hhdm (fun _ => 0) fragmented_machine
      ∧ window_pages (survey fragmented_machine) < 64 * (survey fragmented_machine).size.toNat
      ∧ ¬ ∃ p, pmm_initialize small_hhdm (fun _ => 0) fragmented_machine = .ok p
          ∧ MarksUsable fragmented_machine p := by
  refine ⟨fragmented_pcMap, fragmented_placed, by decide +kernel, ?_⟩
  intro h
  obtain ⟨p, hinit, -⟩ := h
  rw [pmm_initialize_long fragmented_placed (by rw [fragmented_length]; omega)] at hinit
  exact absurd hinit (by simp)

end Hippos.Mem
