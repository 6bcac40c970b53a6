/-
  Hippos.Mem.Ownership — exclusive ownership over whole runs of the allocator.

  A run starts after `pmm_initialize` and makes any calls of `kalloc`, and calls of `kfree` on
  blocks that are still outstanding.  The abstract model is the ledger of `Hippos.Lib.Ledger`:
  reserved pages, blocks, everything else free.  `Refines` relates an allocator state to a ledger;
  `kalloc` either leaves the ledger alone or takes a block of free pages from it, `kfree` gives the
  block back.

  The relation has to keep more than the ledger knows.  The look-ahead of the search is bounded by
  no counter, so what stops it is a used bit: the bits past the window are never freed (`beyond`),
  the first of them is the sentinel of `fits_inside`, and no run of free bits that starts in the
  window gets past it.  A pointer must lead `kfree` back to the page it was made for (`pointer`),
  and the counter must not wrap (`counter`).  With these every step of the allocator is a step of
  the ledger, and the rest is about ledgers.

  Main results:
    * `Refines.fits_inside` — a fit lies inside the window and is free in the ledger.
    * `Refines.take`, `Refines.give` — serving a request and freeing a block, as transactions.
    * `step_refines`, `reachable_refines` — the allocator refines the ledger, along every run.
    * `kalloc_kfree_exclusive` — every page has one owner at every point of every run.
-/
import Hippos.Mem.Initialize
import Hippos.Lib.Reach

namespace Hippos.Mem

open Hippos.Lib
open Relation

/-! ## §1. Runs. -/

/-- The allocator and the blocks its callers hold, each as the pointer `kalloc` returned for it and
    the number of pages asked for. -/
structure KernelState where
  pmm : PmmBitmap
  outstanding : List (UInt64 × UInt64)

/-- One call of `kalloc` or `kfree`.  `kalloc_block` is taken whenever the pages were marked: a
    block whose pointer happens to be 0 counts as given out, and as outstanding until `kfree(0, n)`
    gives its pages back, although a caller that tests for `NULL` takes it for a refusal. -/
inductive Step (g_hhdm_offset : UInt64) : KernelState → KernelState → Prop
  | kalloc_null (s : KernelState) (n : UInt64) (h : (kalloc g_hhdm_offset s.pmm n).1 = none) :
      Step g_hhdm_offset s { s with pmm := (kalloc g_hhdm_offset s.pmm n).2 }
  | kalloc_block (s : KernelState) (n pointer : UInt64)
      (h : (kalloc g_hhdm_offset s.pmm n).1 = some pointer) :
      Step g_hhdm_offset s
        { pmm := (kalloc g_hhdm_offset s.pmm n).2
          outstanding := (pointer, n) :: s.outstanding }
  | kfree (s : KernelState) (before : List (UInt64 × UInt64)) (pointer n : UInt64)
      (after : List (UInt64 × UInt64)) (h : s.outstanding = before ++ (pointer, n) :: after) :
      Step g_hhdm_offset s
        { pmm := kfree g_hhdm_offset s.pmm pointer n
          outstanding := before ++ after }

/-- `s` is reached from the state `p` after boot, where nothing is outstanding. -/
def Reachable (g_hhdm_offset : UInt64) (p : PmmBitmap) (s : KernelState) : Prop :=
  ReflTransGen (Step g_hhdm_offset) ⟨p, []⟩ s

/-- The pages of an outstanding block: the index `kfree` computes from the pointer, and the
    length. -/
def block_of (g_hhdm_offset low : UInt64) (a : UInt64 × UInt64) : Block :=
  ((PAGE_TO_BIT (a.1 - g_hhdm_offset - low)).toNat, a.2.toNat)

/-- The pages of all outstanding blocks. -/
def outstanding_blocks (g_hhdm_offset : UInt64) (s : KernelState) : List Block :=
  s.outstanding.map (block_of g_hhdm_offset s.pmm.lowest_address)

/-- The used bits of the window. -/
def window_used (p : PmmBitmap) : Finset ℕ :=
  (Finset.range (window_pages p)).filter (fun i => p.storage.bit i = true)

/-- A used page is a page of the window whose bit is set. -/
theorem mem_window_used {p : PmmBitmap} {i : ℕ} :
    i ∈ window_used p ↔ i < window_pages p ∧ p.storage.bit i = true := by
  rw [window_used, Finset.mem_filter, Finset.mem_range]

/-- A block of numbered pages does not wrap, and neither does an empty one. -/
theorem block_of_end {g_hhdm_offset low : UInt64} {x : UInt64 × UInt64}
    (h : ∀ i ∈ span (block_of g_hhdm_offset low x), i < 2 ^ 64) :
    (block_of g_hhdm_offset low x).1 + (block_of g_hhdm_offset low x).2 ≤ 2 ^ 64 := by
  rcases Nat.eq_zero_or_pos (block_of g_hhdm_offset low x).2 with hn | hn
  · -- an empty block starts at a 64-bit index
    have hlt := (PAGE_TO_BIT (x.1 - g_hhdm_offset - low)).toNat_lt
    rw [hn, block_of]
    omega
  · have hlast := h ((block_of g_hhdm_offset low x).1 + (block_of g_hhdm_offset low x).2 - 1)
      (mem_span.mpr (by omega))
    omega

section Release

variable (g_hhdm_offset : UInt64) (q : PmmBitmap) {x n : UInt64}
  (hend : (block_of g_hhdm_offset q.lowest_address (x, n)).1
    + (block_of g_hhdm_offset q.lowest_address (x, n)).2 ≤ 2 ^ 64)

include hend

/-- **`kfree` clears the bits of the block**, and no other.  `hend` says that the block does not
    wrap. -/
theorem kfree_bit (i : ℕ) :
    (kfree g_hhdm_offset q x n).storage.bit i
      = (!decide (i ∈ span (block_of g_hhdm_offset q.lowest_address (x, n)))
          && q.storage.bit i) := by
  simp only [mem_span]
  exact free_loop_bit q.storage _ n.toNat hend i

/-- It accesses the rows of those bits. -/
theorem kfree_touched (t : ℕ) :
    t ∈ (kfree g_hhdm_offset q x n).storage.touched
      ↔ t ∈ q.storage.touched
        ∨ ∃ i ∈ span (block_of g_hhdm_offset q.lowest_address (x, n)), t = i / 64 := by
  show t ∈ (free_loop q.storage (PAGE_TO_BIT (x - g_hhdm_offset - q.lowest_address))
    n.toNat).touched ↔ _
  rw [free_loop_touched q.storage (PAGE_TO_BIT (x - g_hhdm_offset - q.lowest_address)) n.toNat hend]
  apply or_congr_right
  simp only [mem_span, block_of]
  constructor
  · intro h
    obtain ⟨i, hi, ht⟩ := h
    exact ⟨_, ⟨Nat.le_add_right _ i, by omega⟩, ht⟩
  · intro h
    obtain ⟨i, ⟨hle, hlt⟩, ht⟩ := h
    refine ⟨i - (PAGE_TO_BIT (x - g_hhdm_offset - q.lowest_address)).toNat, by omega, ?_⟩
    rw [ht, Nat.add_sub_cancel' hle]

/-- The used part of the window loses the block. -/
theorem window_used_kfree :
    window_used (kfree g_hhdm_offset q x n)
      = window_used q \ span (block_of g_hhdm_offset q.lowest_address (x, n)) := by
  ext i
  have hwin : window_pages (kfree g_hhdm_offset q x n) = window_pages q := rfl
  rw [Finset.mem_sdiff, mem_window_used, mem_window_used, hwin, kfree_bit g_hhdm_offset q hend,
      Bool.and_eq_true, Bool.not_eq_true', decide_eq_false_iff_not, and_comm (b := _ = true),
      and_assoc]

end Release

/-- **Marking a block of the window** adds it to the used part. -/
theorem window_used_use_loop (q : PmmBitmap) {map : MapStorage}
    (hword : map.word = q.storage.word) {b n : UInt64}
    (hend : b.toNat + n.toNat ≤ window_pages q) (used_pages : UInt64) :
    window_used { q with storage := use_loop map b n.toNat, used_pages := used_pages }
      = span (b.toNat, n.toNat) ∪ window_used q := by
  have hW := window_pages_lt q
  ext i
  have hwin : window_pages
      { q with storage := use_loop map b n.toNat, used_pages := used_pages } = window_pages q := rfl
  rw [Finset.mem_union, mem_window_used, mem_window_used, hwin, mem_span,
      use_loop_bit _ _ _ (by omega), MapStorage.bit_congr hword, Bool.or_eq_true,
      decide_eq_true_eq]
  constructor
  · intro h
    obtain ⟨hi, hin | hin⟩ := h
    · exact Or.inl hin
    · exact Or.inr ⟨hi, hin⟩
  · intro h
    rcases h with hin | ⟨hi, hin⟩
    · -- the block lies in the window
      exact ⟨by omega, Or.inl hin⟩
    · exact ⟨hi, Or.inr hin⟩

/-! ## §2. The refinement relation. -/

/-- The allocator state `s` implements the ledger `l`; `p` is the state after boot.  Only the
    storage and the counter differ from `p`, the reserved pages are those used at boot, and every
    block in the ledger is one that a caller holds. -/
structure Refines (g_hhdm_offset : UInt64) (p : PmmBitmap) (s : KernelState) (l : Ledger) :
    Prop where
  frame : s.pmm = { p with storage := s.pmm.storage, used_pages := s.pmm.used_pages }
  reserved : l.reserved = window_used p
  used : window_used s.pmm = l.used
  blocks : l.blocks = outstanding_blocks g_hhdm_offset s
  counter : s.pmm.used_pages.toNat = p.used_pages.toNat + total l.blocks
  beyond : ∀ i, window_pages p ≤ i → i < 64 * p.size.toNat → s.pmm.storage.bit i = true
  pointer : ∀ a ∈ s.outstanding,
    (a.1 - g_hhdm_offset).toNat
      = page_address p.lowest_address (block_of g_hhdm_offset p.lowest_address a).1

section Refinement

variable {g_hhdm_offset : UInt64} {entries : List LimineMemmapEntry} {p : PmmBitmap}
  {bs : List Block} {s : KernelState} {l : Ledger}

/-- The window is that of boot. -/
theorem Refines.window (r : Refines g_hhdm_offset p s l) :
    window_pages s.pmm = window_pages p := by
  rw [r.frame]
  rfl

/-- So is its lower end. -/
theorem Refines.lowest (r : Refines g_hhdm_offset p s l) :
    s.pmm.lowest_address = p.lowest_address := by rw [r.frame]

/-- And the bound of the search. -/
theorem Refines.total_pages (r : Refines g_hhdm_offset p s l) :
    s.pmm.total_pages = p.total_pages := by rw [r.frame]

/-- The boot state implements the fresh ledger. -/
theorem refines_boot (a : Arena entries p bs) :
    Refines g_hhdm_offset p ⟨p, []⟩ (Ledger.fresh (window_used p)) where
  frame := rfl
  reserved := rfl
  used := (Ledger.used_fresh _).symm
  blocks := rfl
  counter := rfl
  beyond i hW hi := by
    -- no block reaches past the window
    rw [a.bit_eq i hi, decide_eq_true_eq]
    exact Or.inr fun hmem => absurd (a.inside i hmem) (by omega)
  pointer := by simp

/-- A window bit is free exactly when the ledger has it free. -/
theorem Refines.bit_iff (r : Refines g_hhdm_offset p s l) {i : ℕ} (hi : i < window_pages p) :
    s.pmm.storage.bit i = true ↔ i ∈ l.used := by
  rw [← r.used, mem_window_used, r.window]
  simp [hi]

/-- The ledger has pages of the window only. -/
theorem Refines.used_lt (r : Refines g_hhdm_offset p s l) {i : ℕ} (hi : i ∈ l.used) :
    i < window_pages p := by
  rw [← r.used, mem_window_used, r.window] at hi
  exact hi.1

/-- `bitmap_check` reads the ledger. -/
theorem Refines.free_iff (a : Arena entries p bs) (r : Refines g_hhdm_offset p s l) {i : ℕ}
    (hi : i < window_pages p) : s.pmm.storage.Free i ↔ i ∉ l.used := by
  have hW := a.window_lt
  rw [← r.bit_iff hi, MapStorage.Free, MapStorage.seen_of_lt _ (by omega), Bool.not_eq_true]

/-- **The sentinel**: the bit after the window looks used, since it is in a row that was set at boot
    and no block reaches it. -/
theorem Refines.sentinel (a : Arena entries p bs) (r : Refines g_hhdm_offset p s l) :
    ¬ s.pmm.storage.Free (window_pages p) := by
  rw [MapStorage.Free, MapStorage.seen_of_lt _ a.window_lt,
      r.beyond _ (Nat.le_refl _) a.spare]
  exact Bool.noConfusion

/-- Page 0 stays reserved, so the search never answers it. -/
theorem Refines.zero_used (a : Arena entries p bs) (r : Refines g_hhdm_offset p s l) :
    ¬ s.pmm.storage.Free 0 := by
  have hW := a.window_pos
  have hspare := a.spare
  rw [r.free_iff a (by omega), not_not]
  apply Finset.mem_union_left _
  rw [r.reserved, mem_window_used, a.bit_eq 0 (by omega)]
  exact ⟨by omega, decide_eq_true (Or.inl rfl)⟩

/-- **A fit lies inside the window and is free in the ledger.** -/
theorem Refines.fits_inside (a : Arena entries p bs) (r : Refines g_hhdm_offset p s l)
    {n b : ℕ} (hb : b < p.total_pages.toNat) (h : Fits s.pmm.storage n b) :
    b + n ≤ window_pages p ∧ Disjoint (span (b, n)) l.used := by
  have htotal := a.total_eq
  -- the run starts before the sentinel, so it ends before it too
  have hend : b + n ≤ window_pages p := h.2.le_stop (r.sentinel a) (by omega)
  refine ⟨hend, Finset.disjoint_left.mpr ?_⟩
  intro i hi
  rw [mem_span] at hi
  have hfree := h.2 (i - b) (by omega)
  rw [show b + (i - b) = i by omega] at hfree
  exact (r.free_iff a (by omega)).mp hfree

/-- All blocks together fit in the window. -/
theorem Refines.total_le (r : Refines g_hhdm_offset p s l) :
    total l.blocks ≤ window_pages p := by
  have hcard : l.used.card ≤ window_pages p := by
    rw [← Finset.card_range (window_pages p)]
    exact Finset.card_le_card fun i hi => Finset.mem_range.mpr (r.used_lt hi)
  have hused := l.card_used
  omega

/-- The pages of an outstanding block are pages of the window. -/
theorem Refines.block_lt (r : Refines g_hhdm_offset p s l) {b : Block} (hb : b ∈ l.blocks) {i : ℕ}
    (hi : i ∈ span b) : i < window_pages p :=
  r.used_lt (Finset.mem_union_right _ (span_subset_covered hb hi))

/-! ## §3. Each call is a step of the ledger. -/

/-- The pointer `kalloc` makes for page `b` is read back by `kfree`. -/
theorem kalloc_pointer (low : UInt64) {b : UInt64} (h : b.toNat < 2 ^ 52) :
    PAGE_TO_BIT (low + BIT_TO_PAGE b + g_hhdm_offset - g_hhdm_offset - low) = b := by
  rw [UInt64.add_sub_cancel, UInt64.add_comm, UInt64.add_sub_cancel, page_to_bit_to_page h]

/-- The pages of a block just handed out. -/
theorem block_of_kalloc (low : UInt64) {b : UInt64} (h : b.toNat < 2 ^ 52) (n : UInt64) :
    block_of g_hhdm_offset low (low + BIT_TO_PAGE b + g_hhdm_offset, n)
      = (b.toNat, n.toNat) := by
  rw [block_of, kalloc_pointer low h]

/-- Replacing the storage by one with the same words implements the same ledger. -/
theorem Refines.of_words (r : Refines g_hhdm_offset p s l) {map : MapStorage}
    (hword : map.word = s.pmm.storage.word) :
    Refines g_hhdm_offset p { s with pmm := { s.pmm with storage := map } } l where
  frame := by rw [r.frame]
  reserved := r.reserved
  used := by
    rw [← r.used]
    ext i
    rw [mem_window_used, mem_window_used]
    exact and_congr_right fun _ => by rw [MapStorage.bit_congr hword]
  blocks := r.blocks
  counter := r.counter
  beyond i hW hi := by
    have := r.beyond i hW hi
    rwa [← MapStorage.bit_congr hword] at this
  pointer := r.pointer

/-- Handing out the first fit takes a block from the ledger.  `map` is the storage after the search,
    whose words are those before it. -/
theorem Refines.take (a : Arena entries p bs) (r : Refines g_hhdm_offset p s l) (n : UInt64)
    {b : UInt64} (hb : b.toNat < p.total_pages.toNat)
    (hfits : Fits s.pmm.storage n.toNat b.toNat) {map : MapStorage}
    (hword : map.word = s.pmm.storage.word)
    (hdisj : Disjoint (span (b.toNat, n.toNat)) l.used) :
    Refines g_hhdm_offset p
      { pmm := { s.pmm with
          storage := use_loop map b n.toNat
          used_pages := s.pmm.used_pages + n }
        outstanding := (s.pmm.lowest_address + BIT_TO_PAGE b + g_hhdm_offset, n)
          :: s.outstanding }
      (l.take (b.toNat, n.toNat) hdisj) := by
  -- the block lies in the window, so neither the loop nor the pointer wraps
  obtain ⟨hend, -⟩ := r.fits_inside a hb hfits
  have hW := a.window_lt
  have htop := a.top_lt
  have hlow := a.low_aligned
  have hlowest := r.lowest
  have hblock : block_of g_hhdm_offset p.lowest_address
      (s.pmm.lowest_address + BIT_TO_PAGE b + g_hhdm_offset, n) = (b.toNat, n.toNat) := by
    rw [hlowest]
    exact block_of_kalloc _ (by omega) n
  constructor
  case frame => rw [r.frame]
  case reserved => exact r.reserved
  case used =>
    rw [Ledger.used_take, ← r.used]
    exact window_used_use_loop s.pmm hword (by rwa [r.window]) _
  case blocks =>
    simp only [Ledger.take, outstanding_blocks, List.map_cons, r.blocks]
    rw [hlowest] at hblock ⊢
    rw [hblock]
  case counter =>
    -- boot pages and blocks together fit in the window
    have hcounter := r.counter
    have htotal := r.total_le
    have hused := a.used_eq
    have hT := a.total_eq
    show (s.pmm.used_pages + n).toNat = p.used_pages.toNat + (n.toNat + total l.blocks)
    rw [UInt64.toNat_add]
    omega
  case beyond =>
    intro i hi hsize
    rw [use_loop_bit _ _ _ (by omega), MapStorage.bit_congr hword, r.beyond i hi hsize,
        Bool.or_true]
  case pointer =>
    intro x hx
    rcases List.mem_cons.mp hx with rfl | hx
    · -- the new pointer is the address of page `b`
      rw [hblock, UInt64.add_sub_cancel, hlowest, UInt64.toNat_add, BIT_TO_PAGE,
          UInt64.toNat_mul]
      simp only [PAGE_SIZE, UInt64.reduceToNat, page_address]
      omega
    · exact r.pointer x hx

/-- Where an outstanding block stands in the ledger. -/
theorem Refines.blocks_split (r : Refines g_hhdm_offset p s l)
    {before after : List (UInt64 × UInt64)} {x : UInt64 × UInt64}
    (h : s.outstanding = before ++ x :: after) :
    l.blocks = before.map (block_of g_hhdm_offset p.lowest_address)
      ++ block_of g_hhdm_offset p.lowest_address x
        :: after.map (block_of g_hhdm_offset p.lowest_address) := by
  rw [r.blocks, outstanding_blocks, r.lowest, h, List.map_append, List.map_cons]

/-- Freeing an outstanding block gives it back to the ledger, and leaves everything else as it
    was. -/
theorem Refines.give (a : Arena entries p bs) (r : Refines g_hhdm_offset p s l)
    {before after : List (UInt64 × UInt64)} {x n : UInt64}
    (h : s.outstanding = before ++ (x, n) :: after) :
    ∃ l', Ledger.Step l l' ∧
      Refines g_hhdm_offset p
        { pmm := kfree g_hhdm_offset s.pmm x n, outstanding := before ++ after } l' := by
  have hlowest := r.lowest
  have hblocks := r.blocks_split h
  have hmem : block_of g_hhdm_offset p.lowest_address (x, n) ∈ l.blocks := by
    rw [hblocks]
    simp
  have hW := a.window_lt
  have hend := block_of_end fun i hi => Nat.lt_trans (r.block_lt hmem hi) (by omega)
  -- the counter holds at least the pages of this block
  have hsum : total l.blocks
      = n.toNat + total (before.map (block_of g_hhdm_offset p.lowest_address)
          ++ after.map (block_of g_hhdm_offset p.lowest_address)) := by
    have hlen : (block_of g_hhdm_offset p.lowest_address (x, n)).2 = n.toNat := rfl
    rw [hblocks, total_append, total_append, total_cons, hlen]
    omega
  refine ⟨l.give _ _ _ hblocks, Ledger.Step.give l _ _ _ hblocks, ?_⟩
  rw [← hlowest] at hend
  constructor
  case frame => rw [kfree, r.frame]
  case reserved => exact r.reserved
  case used => rw [Ledger.used_give, ← r.used, window_used_kfree _ _ hend, hlowest]
  case blocks =>
    have hlow : (kfree g_hhdm_offset s.pmm x n).lowest_address = p.lowest_address := hlowest
    simp only [Ledger.give, outstanding_blocks, List.map_append, hlow]
  case counter =>
    have hcounter := r.counter
    have hle : n ≤ s.pmm.used_pages := by
      rw [UInt64.le_iff_toNat_le]
      omega
    show (s.pmm.used_pages - n).toNat = p.used_pages.toNat
      + total (before.map (block_of g_hhdm_offset p.lowest_address)
          ++ after.map (block_of g_hhdm_offset p.lowest_address))
    rw [UInt64.toNat_sub_of_le _ _ hle]
    omega
  case beyond =>
    intro i hi hsize
    -- the block lies below the sentinel bits
    have hout : i ∉ span (block_of g_hhdm_offset s.pmm.lowest_address (x, n)) := by
      intro hin
      rw [hlowest] at hin
      have hlt := r.block_lt hmem hin
      omega
    rw [kfree_bit _ _ hend, r.beyond i hi hsize, decide_eq_false hout]
    rfl
  case pointer =>
    intro y hy
    apply r.pointer y
    rw [h]
    exact mem_middle.mpr (Or.inl (List.mem_append.mp hy))

/-- **One call of the allocator is at most one transaction of the ledger.**  The cases of the call
    are those of `kalloc_cases`; half of them contradict the answer that the step records. -/
theorem step_refines (a : Arena entries p bs) {s' : KernelState}
    (r : Refines g_hhdm_offset p s l) (step : Step g_hhdm_offset s s') :
    ∃ l', ReflTransGen Ledger.Step l l' ∧ Refines g_hhdm_offset p s' l' := by
  have hT : s.pmm.total_pages.toNat ≤ 2 ^ 52 := by
    have h1 := a.total_eq
    have h2 := a.window_lt
    rw [r.total_pages]
    omega
  cases step with
  | kalloc_null n h =>
    refine ⟨l, .refl, ?_⟩
    rcases kalloc_cases g_hhdm_offset s.pmm n hT (r.zero_used a) with
      ⟨-, hk⟩ | ⟨-, -, hk⟩ | ⟨-, b, -, -, -, -, hk⟩
    · -- refused by the counter: nothing changes
      rw [hk]
      exact r
    · -- refused by the scan: only the record of accesses grows
      rw [hk]
      exact r.of_words (find_word s.pmm n)
    · rw [hk] at h
      exact absurd h (by simp)
  | kalloc_block n pointer h =>
    rcases kalloc_cases g_hhdm_offset s.pmm n hT (r.zero_used a) with
      ⟨-, hk⟩ | ⟨-, -, hk⟩ | ⟨-, b, -, hb, hfits, -, hk⟩
    · rw [hk] at h
      exact absurd h (by simp)
    · rw [hk] at h
      exact absurd h (by simp)
    · -- served: the first fit leaves the ledger's free pages
      rw [hk] at h ⊢
      obtain rfl := Option.some.inj h
      rw [r.total_pages] at hb
      obtain ⟨-, hdisj⟩ := r.fits_inside a hb hfits
      exact ⟨l.take _ hdisj, .single (Ledger.Step.take l _ hdisj),
        r.take a n hb hfits (find_word s.pmm n) hdisj⟩
  | kfree before x n after h =>
    obtain ⟨l', hstep, hr⟩ := r.give a h
    exact ⟨l', .single hstep, hr⟩

/-- **The allocator refines the ledger** along every run.  By induction on the run: an allocation
    that is served is a `take` of the ledger, one that is refused changes nothing that the relation
    sees, and each `kfree` of an outstanding block is a `give`. -/
theorem reachable_refines (a : Arena entries p bs) (run : Reachable g_hhdm_offset p s) :
    ∃ l, Refines g_hhdm_offset p s l := by
  obtain ⟨l, -, hr⟩ := reach_simulation (R := Refines g_hhdm_offset p)
    (fun _ _ _ r step => step_refines a r step) (refines_boot a) run
  exact ⟨l, hr⟩

end Refinement

/-! ## §4. Exclusive ownership. -/

/-- Every page of the window has one owner: it was used at boot, it belongs to exactly one
    outstanding block, or it is free; the counter agrees, and blocks start on page boundaries. -/
structure ExclusiveOwnership (g_hhdm_offset : UInt64) (p : PmmBitmap) (s : KernelState) :
    Prop where
  apart : Apart (outstanding_blocks g_hhdm_offset s)
  off_boot : Disjoint (window_used p) (covered (outstanding_blocks g_hhdm_offset s))
  used_eq : window_used s.pmm = window_used p ∪ covered (outstanding_blocks g_hhdm_offset s)
  counter : s.pmm.used_pages.toNat
    = p.used_pages.toNat + total (outstanding_blocks g_hhdm_offset s)
  addressed : ∀ a ∈ s.outstanding,
    (a.1 - g_hhdm_offset).toNat
      = page_address s.pmm.lowest_address (block_of g_hhdm_offset s.pmm.lowest_address a).1
  aligned : ∀ a ∈ s.outstanding, (a.1 - g_hhdm_offset).toNat % 4096 = 0

/-- What the ledger says of its blocks, said of the allocator's. -/
theorem Refines.ownership {g_hhdm_offset : UInt64} {p : PmmBitmap} {s : KernelState} {l : Ledger}
    (r : Refines g_hhdm_offset p s l) : ExclusiveOwnership g_hhdm_offset p s where
  apart := r.blocks ▸ l.apart
  off_boot := by
    rw [← r.blocks, ← r.reserved]
    exact l.off_reserved
  used_eq := by rw [r.used, ← r.blocks, ← r.reserved, Ledger.used]
  counter := by rw [r.counter, r.blocks]
  addressed := by
    rw [r.lowest]
    exact r.pointer
  aligned a ha := by
    rw [r.pointer a ha, page_address]
    exact Nat.mul_mod_right _ _

/-- **Ownership is exclusive at every point of every run**, on every PC map whose bitmap has a bit
    to spare and for every offset of the direct map.  The ledger keeps its blocks disjoint and
    inside the pages of boot; the refinement carries that over to the pointers, the bits and the
    counter. -/
theorem kalloc_kfree_exclusive {g_hhdm_offset : UInt64} {ram : WordRows}
    {entries : List LimineMemmapEntry} {p : PmmBitmap} {s : KernelState} (hpc : PcMap entries)
    (hinit : pmm_initialize g_hhdm_offset ram entries = .ok p)
    (hspare : window_pages p < 64 * p.size.toNat) (run : Reachable g_hhdm_offset p s) :
    ExclusiveOwnership g_hhdm_offset p s := by
  obtain ⟨bs, a⟩ := pmm_initialize_arena hpc hinit hspare
  obtain ⟨l, r⟩ := reachable_refines a run
  exact r.ownership

/-! ## §5. A small machine. -/

/-- 64 pages of RAM at 1 MiB. -/
def small_machine : List LimineMemmapEntry :=
  [{ base := 0x100000, length := 0x40000, type := LIMINE_MEMMAP_USABLE }]

/-- The usual higher-half offset. -/
def small_hhdm : UInt64 := 0xffff800000000000

/-- The state after boot, RAM being zero. -/
def small_boot : PmmBitmap :=
  boot_state small_hhdm (count_memory (PmmBitmap.start fun _ => 0) small_machine) []
    { base := 0x100000, length := 0x40000, type := LIMINE_MEMMAP_USABLE } []

/-- It is a map of a PC. -/
theorem small_machine_pcMap : PcMap small_machine where
  aligned := by simp [small_machine]
  bounded := by simp [small_machine]
  disjoint := List.pairwise_singleton _ _
  below := by simp [small_machine]
  low := ⟨_, List.mem_singleton.mpr rfl, rfl, by decide⟩

/-- And it boots. -/
theorem small_machine_boots :
    pmm_initialize small_hhdm (fun _ => 0) small_machine = .ok small_boot := rfl

/-- Its bitmap has bits to spare. -/
theorem small_boot_spare : window_pages small_boot < 64 * small_boot.size.toNat := by decide

/-- The first two pages it gives out follow the one that holds the bitmap. -/
theorem small_boot_kalloc : (kalloc small_hhdm small_boot 2).1 = some 0xffff800000101000 := by
  decide

/-- Two pages of the small machine, owned exclusively. -/
theorem kalloc_kfree_exclusive_small :
    ExclusiveOwnership small_hhdm small_boot
      { pmm := (kalloc small_hhdm small_boot 2).2, outstanding := [(0xffff800000101000, 2)] } :=
  kalloc_kfree_exclusive small_machine_pcMap small_machine_boots small_boot_spare
    (.single (Step.kalloc_block ⟨small_boot, []⟩ 2 _ small_boot_kalloc))

end Hippos.Mem
