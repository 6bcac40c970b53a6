/-
  Hippos.Mem.Accounting — the counter, the bitmap and what a request finds.

  `kalloc` consults two views of free memory: the counter `used_pages` against `total_pages`, and
  the bits below `total_pages`.  `balance` ties them together in every reachable state: the two
  counters differ by the free bits of the window, plus one when page 0 was given to the allocator
  before it was reserved.  First fit, exact accounting and the pages above the scan bound are read
  off from it.

  What a caller of `kalloc` sees is the pointer alone, so the results are about `kalloc_value`,
  where a refusal and a block at virtual address 0 are both `NULL`.  Whether the offset of the
  direct map puts a free page there decides, with the scan bound, when `NULL` can be believed.

  Main results:
    * `Refines.balance` — the two counters against the free bits of the window, in every state.
    * `kalloc_first_fit` — `kalloc` serves the least fit, its counter agrees with the scan, and
      `NULL` means that nothing fits exactly when no free page lies at address 0.
    * `no_page_lost_iff` — the maps on which a refusal is never wrong about the whole window.
    * `accounted_iff` — the maps on which the counters are exact.
-/
import Hippos.Mem.Ownership

namespace Hippos.Mem

open Hippos.Lib
open Relation

/-- Bit `i` is FREE. -/
def MapStorage.Clear (map : MapStorage) (i : ℕ) : Prop := map.bit i = false

/-- The free bits of the window. -/
def window_free (p : PmmBitmap) : Finset ℕ :=
  (Finset.range (window_pages p)).filter (fun i => ¬ p.storage.bit i = true)

theorem mem_window_free {p : PmmBitmap} {i : ℕ} :
    i ∈ window_free p ↔ i < window_pages p ∧ p.storage.Clear i := by
  rw [window_free, Finset.mem_filter, Finset.mem_range, Bool.not_eq_true, MapStorage.Clear]

/-- Every bit of the window is one or the other. -/
theorem card_window (p : PmmBitmap) :
    (window_used p).card + (window_free p).card = window_pages p := by
  rw [window_used, window_free, Finset.card_filter_add_card_filter_not, Finset.card_range]

section Balance

variable {g_hhdm_offset : UInt64} {entries : List LimineMemmapEntry} {p : PmmBitmap}
  {bs : List Block} {s : KernelState} {l : Ledger}

/-! ## §1. The balance. -/

/-- After boot the FREE bits of the rows are the pages given, without page 0. -/
theorem Booted.clear_iff (b : Booted entries p bs) {i : ℕ} (hi : i < 64 * p.size.toNat) :
    p.storage.Clear i ↔ i ≠ 0 ∧ i ∈ covered bs := by
  rw [MapStorage.Clear, b.bit_eq i hi, decide_eq_false_iff_not, not_or, not_not]

/-- At boot the free bits are the pages given to the allocator, without page 0. -/
theorem Arena.window_free_eq (a : Arena entries p bs) :
    window_free p = (covered bs).erase 0 := by
  have hspare := a.spare
  ext i
  rw [mem_window_free, Finset.mem_erase]
  constructor
  · intro h
    obtain ⟨hi, hclear⟩ := h
    exact (a.clear_iff (by omega)).mp hclear
  · intro h
    have hiW := a.inside i h.2
    exact ⟨hiW, (a.clear_iff (by omega)).mpr h⟩

/-- The pages given to the allocator: the free bits at boot, and perhaps page 0. -/
theorem Arena.card_boot (a : Arena entries p bs) :
    total bs = (window_free p).card + if 0 ∈ covered bs then 1 else 0 := by
  rw [← card_covered a.apart, a.window_free_eq]
  by_cases h0 : 0 ∈ covered bs
  · rw [if_pos h0, Finset.card_erase_add_one h0]
  · rw [if_neg h0, Finset.erase_eq_of_notMem h0, Nat.add_zero]

/-- **The balance**: the counter falls short of the total by the free bits of the window, and by one
    more when page 0 was counted as given.  Bits and counter move together from then on, so what
    boot has left between them stays for ever. -/
theorem Refines.balance (a : Arena entries p bs) (r : Refines g_hhdm_offset p s l) :
    s.pmm.used_pages.toNat + (window_free s.pmm).card + (if 0 ∈ covered bs then 1 else 0)
      = s.pmm.total_pages.toNat := by
  -- count the window twice, at boot and now, and the ledger once
  have hboot := card_window p
  have hnow := card_window s.pmm
  have hcard := l.card_used
  have hused := a.used_eq
  have hgiven := a.card_boot
  have hcounter := r.counter
  rw [r.window, r.used] at hnow
  rw [r.reserved] at hcard
  rw [r.total_pages]
  omega

/-- When the counter has run out, no bit of the window is free. -/
theorem Refines.no_free (a : Arena entries p bs) (r : Refines g_hhdm_offset p s l)
    (h : s.pmm.total_pages ≤ s.pmm.used_pages) {i : ℕ} (hi : i < window_pages p) :
    ¬ s.pmm.storage.Clear i := by
  intro hclear
  -- one free bit would make the balance exceed the total
  have hbal := r.balance a
  have hmem : i ∈ window_free s.pmm := mem_window_free.mpr ⟨by rwa [r.window], hclear⟩
  have hpos := Finset.card_pos.mpr ⟨i, hmem⟩
  rw [UInt64.le_iff_toNat_le] at h
  omega

theorem Refines.total_le_window (a : Arena entries p bs) (r : Refines g_hhdm_offset p s l) :
    s.pmm.total_pages.toNat ≤ window_pages p := by
  have h := a.total_eq
  rw [r.total_pages]
  omega

theorem Refines.total_lt (a : Arena entries p bs) (r : Refines g_hhdm_offset p s l) :
    s.pmm.total_pages.toNat ≤ 2 ^ 52 := by
  have h1 := r.total_le_window a
  have h2 := a.window_lt
  omega

/-! ## §2. First fit. -/

/-- A free run ends inside the window, whatever lies behind it. -/
theorem Refines.run_inside (a : Arena entries p bs) (r : Refines g_hhdm_offset p s l) {n b : ℕ}
    (hb : b < window_pages p) (h : FreeRun s.pmm.storage.Clear b n) : b + n ≤ window_pages p := by
  refine h.le_stop ?_ (Nat.le_of_lt hb)
  rw [MapStorage.Clear, r.beyond _ (Nat.le_refl _) a.spare]
  exact Bool.noConfusion

/-- The scan accepts exactly the runs of FREE bits. -/
theorem Refines.fits_iff (a : Arena entries p bs) (r : Refines g_hhdm_offset p s l) {n b : ℕ}
    (hn : 0 < n) (hb : b < s.pmm.total_pages.toNat) :
    Fits s.pmm.storage n b ↔ FreeRun s.pmm.storage.Clear b n := by
  have hW := a.window_lt
  have hT := r.total_le_window a
  have hsame : ∀ i < window_pages p, (s.pmm.storage.Free i ↔ s.pmm.storage.Clear i) := by
    intro i hi
    rw [MapStorage.Free, MapStorage.Clear, MapStorage.seen_of_lt _ (by omega)]
  -- either way the run ends inside the window, where the check reads the bit itself
  constructor
  · intro h
    obtain ⟨hend, -⟩ := r.fits_inside a (by rwa [r.total_pages] at hb) h
    exact h.2.mono fun i _ hi hfree => (hsame i (by omega)).mp hfree
  · intro h
    have hend := r.run_inside a (by omega) h
    exact ⟨hn, h.mono fun i _ hi hclear => (hsame i (by omega)).mpr hclear⟩

/-- The pointer the C function returns: a refusal and a block at virtual address 0 look alike. -/
def kalloc_value (g_hhdm_offset : UInt64) (p : PmmBitmap) (n : UInt64) : UInt64 :=
  (kalloc g_hhdm_offset p n).1.getD NULL

/-- Where the direct map puts page `b` of the window. -/
def page_pointer (g_hhdm_offset : UInt64) (p : PmmBitmap) (b : ℕ) : UInt64 :=
  p.lowest_address + 4096 * UInt64.ofNat b + g_hhdm_offset

/-- What `kalloc` answers on every map.  The early exit never turns down a request that the scan
    would serve, the least fit is never page 0, whose scan result is `NULL`, and the pointer
    returned is that of the least fit. -/
structure ServesFirstFit (g_hhdm_offset : UInt64) (p : PmmBitmap) (n : UInt64) : Prop where
  fast_path : p.total_pages ≤ p.used_pages →
    ¬ ∃ b < p.total_pages.toNat, FreeRun p.storage.Clear b n.toNat
  null_of_none : (¬ ∃ b < p.total_pages.toNat, FreeRun p.storage.Clear b n.toNat) →
    kalloc_value g_hhdm_offset p n = NULL
  value_eq : ∀ b, FirstFit p.storage.Clear p.total_pages.toNat n.toNat b →
    b ≠ 0 ∧ kalloc_value g_hhdm_offset p n = page_pointer g_hhdm_offset p b

/-- **Exact first fit.**  Beyond that, `NULL` is returned only when no run of FREE bits starts
    below `total_pages`. -/
structure ExactFirstFit (g_hhdm_offset : UInt64) (p : PmmBitmap) (n : UInt64) : Prop
    extends ServesFirstFit g_hhdm_offset p n where
  none_of_null : kalloc_value g_hhdm_offset p n = NULL →
    ¬ ∃ b < p.total_pages.toNat, FreeRun p.storage.Clear b n.toNat

/-- The two `NULL` fields together, as the source's callers read them. -/
theorem ExactFirstFit.null_iff {g_hhdm_offset : UInt64} {p : PmmBitmap} {n : UInt64}
    (h : ExactFirstFit g_hhdm_offset p n) : kalloc_value g_hhdm_offset p n = NULL
      ↔ ¬ ∃ b < p.total_pages.toNat, FreeRun p.storage.Clear b n.toNat :=
  ⟨h.none_of_null, h.null_of_none⟩

theorem kalloc_value_of_none {g_hhdm_offset : UInt64} {p : PmmBitmap} {n : UInt64}
    (h : (kalloc g_hhdm_offset p n).1 = none) : kalloc_value g_hhdm_offset p n = NULL := by
  rw [kalloc_value, h, Option.getD_none]

theorem kalloc_value_of_some {g_hhdm_offset : UInt64} {p : PmmBitmap} {n pointer : UInt64}
    (h : (kalloc g_hhdm_offset p n).1 = some pointer) :
    kalloc_value g_hhdm_offset p n = pointer := by
  rw [kalloc_value, h, Option.getD_some]

/-- A first fit is unique. -/
theorem firstFit_unique {free : ℕ → Prop} {bound n b c : ℕ} (hb : FirstFit free bound n b)
    (hc : FirstFit free bound n c) : b = c := IsLeast.unique hb hc

theorem toNat_pos {n : UInt64} (hn : 0 < n) : 0 < n.toNat := by
  rw [UInt64.lt_iff_toNat_lt, UInt64.toNat_zero] at hn
  exact hn

/-- What `kalloc` answers in a state that implements a ledger: it refuses when nothing fits, and
    otherwise gives out the least fit, which is not page 0. -/
theorem Refines.kalloc_answer (a : Arena entries p bs) (r : Refines g_hhdm_offset p s l)
    {n : UInt64} (hn : 0 < n) :
    ((kalloc g_hhdm_offset s.pmm n).1 = none
      ∧ ¬ ∃ b < s.pmm.total_pages.toNat, FreeRun s.pmm.storage.Clear b n.toNat)
    ∨ ∃ b, FirstFit s.pmm.storage.Clear s.pmm.total_pages.toNat n.toNat b ∧ b ≠ 0
        ∧ (kalloc g_hhdm_offset s.pmm n).1 = some (page_pointer g_hhdm_offset s.pmm b) := by
  have hpos := toNat_pos hn
  have hT := r.total_le_window a
  have hfits : ∀ {b}, b < s.pmm.total_pages.toNat → (Fits s.pmm.storage n.toNat b
      ↔ FreeRun s.pmm.storage.Clear b n.toNat) := fun hb => r.fits_iff a hpos hb
  rcases kalloc_cases g_hhdm_offset s.pmm n (r.total_lt a) (r.zero_used a) with
    ⟨hfast, hk⟩ | ⟨-, hnone, hk⟩ | ⟨-, b, hb0, hb, hfit, hmin, hk⟩
  · -- the counter refuses: then no bit is free at all
    refine Or.inl ⟨by rw [hk], ?_⟩
    intro h
    obtain ⟨b, hb, hrun⟩ := h
    exact r.no_free a hfast (by omega) (hrun 0 hpos)
  · -- the scan refuses
    refine Or.inl ⟨by rw [hk], ?_⟩
    intro h
    obtain ⟨b, hb, hrun⟩ := h
    exact hnone b hb ((hfits hb).mpr hrun)
  · -- the scan serves
    refine Or.inr ⟨b.toNat, firstFit_iff.mpr ⟨hb, (hfits hb).mp hfit, ?_⟩,
      Nat.ne_of_gt hb0, ?_⟩
    · intro c hc hrun
      exact hmin c hc ((hfits (by omega)).mpr hrun)
    · rw [hk, BIT_TO_PAGE, UInt64.mul_comm, page_pointer, UInt64.ofNat_toNat]
      rfl

theorem Refines.servesFirstFit (a : Arena entries p bs) (r : Refines g_hhdm_offset p s l)
    {n : UInt64} (hn : 0 < n) : ServesFirstFit g_hhdm_offset s.pmm n := by
  have hpos := toNat_pos hn
  have hT := r.total_le_window a
  constructor
  case fast_path =>
    intro hfast h
    obtain ⟨b, hb, hrun⟩ := h
    exact r.no_free a hfast (by omega) (hrun 0 hpos)
  case null_of_none =>
    intro hnone
    rcases r.kalloc_answer a hn with ⟨hnull, -⟩ | ⟨b, hfirst, -, -⟩
    · exact kalloc_value_of_none hnull
    · -- a first fit is a run
      obtain ⟨hb, hrun, -⟩ := firstFit_iff.mp hfirst
      exact absurd ⟨b, hb, hrun⟩ hnone
  case value_eq =>
    intro b hfirst
    rcases r.kalloc_answer a hn with ⟨-, hnone⟩ | ⟨c, hc, hc0, hsome⟩
    · obtain ⟨hb, hrun, -⟩ := firstFit_iff.mp hfirst
      exact absurd ⟨b, hb, hrun⟩ hnone
    · rw [firstFit_unique hfirst hc]
      exact ⟨hc0, kalloc_value_of_some hsome⟩

/-! ## §3. Using up the low pages. -/

/-- Only pages given at boot are ever free, and page 0 is not one of them. -/
theorem Refines.clear_given (a : Arena entries p bs) (r : Refines g_hhdm_offset p s l) {i : ℕ}
    (hi : i < window_pages p) (h : s.pmm.storage.Clear i) : i ≠ 0 ∧ i ∈ covered bs := by
  have hspare := a.spare
  rw [← a.clear_iff (by omega)]
  by_contra hnot
  -- a bit that is used at boot stays reserved
  rw [MapStorage.Clear, Bool.not_eq_false] at hnot
  have hboot : i ∈ window_used p := mem_window_used.mpr ⟨hi, hnot⟩
  have hused : s.pmm.storage.bit i = true := by
    rw [r.bit_iff hi, Ledger.used, r.reserved]
    exact Finset.mem_union_left _ hboot
  rw [MapStorage.Clear, hused] at h
  exact Bool.noConfusion h

/-- The page numbers of a state are those of the state after boot. -/
theorem Refines.page_pointer_eq (r : Refines g_hhdm_offset p s l) (b : ℕ) :
    page_pointer g_hhdm_offset s.pmm b = page_pointer g_hhdm_offset p b := by
  rw [page_pointer, page_pointer, r.lowest]

/-- If no page given can lie at address 0, a returned `NULL` is a refusal. -/
theorem Refines.none_of_null (a : Arena entries p bs) (r : Refines g_hhdm_offset p s l)
    {n : UInt64} (hn : 0 < n)
    (hzero : ∀ b < p.total_pages.toNat, b ≠ 0 → b ∈ covered bs →
      page_pointer g_hhdm_offset p b ≠ NULL)
    (hnull : kalloc_value g_hhdm_offset s.pmm n = NULL) :
    ¬ ∃ b < s.pmm.total_pages.toNat, FreeRun s.pmm.storage.Clear b n.toNat := by
  rcases r.kalloc_answer a hn with ⟨-, hnone⟩ | ⟨b, hfirst, hb0, hsome⟩
  · exact hnone
  · -- the block found starts at a page that was given, whose pointer is not `NULL`
    obtain ⟨hb, hrun, -⟩ := firstFit_iff.mp hfirst
    have hT := r.total_le_window a
    obtain ⟨-, hgiven⟩ := r.clear_given a (by omega) (hrun 0 (toNat_pos hn))
    rw [kalloc_value_of_some hsome, r.page_pointer_eq] at hnull
    exact absurd hnull (hzero b (by rwa [← r.total_pages]) hb0 hgiven)

/-- The FREE bits below `K`. -/
def free_below (p : PmmBitmap) (K : ℕ) : Finset ℕ :=
  (Finset.range K).filter (fun i => p.storage.bit i = false)

theorem mem_free_below {q : PmmBitmap} {K i : ℕ} :
    i ∈ free_below q K ↔ i < K ∧ q.storage.Clear i := by
  rw [free_below, Finset.mem_filter, Finset.mem_range, MapStorage.Clear]

/-- Marking one of them leaves fewer. -/
theorem free_below_card_lt {q q' : PmmBitmap} {K b : ℕ} (hb : b ∈ free_below q K)
    (hbits : ∀ j, q'.storage.bit j = (decide (j = b) || q.storage.bit j)) :
    (free_below q' K).card < (free_below q K).card := by
  have herase : free_below q' K = (free_below q K).erase b := by
    ext j
    rw [Finset.mem_erase, mem_free_below, mem_free_below, MapStorage.Clear, MapStorage.Clear,
        hbits, Bool.or_eq_false_iff, decide_eq_false_iff_not]
    exact and_left_comm
  rw [herase]
  exact Finset.card_erase_lt_of_mem hb

theorem freeRun_one {free : ℕ → Prop} {b : ℕ} (h : free b) : FreeRun free b 1 := by
  intro i hi
  rw [Nat.lt_one_iff.mp hi]
  exact h

/-- Taking one page takes one of the FREE bits below `K` and leaves the bits from `K` on alone:
    the first fit is not above a bit that is free. -/
theorem Refines.take_one (a : Arena entries p bs) (r : Refines g_hhdm_offset p s l) {K : ℕ}
    (hK : K ≤ p.total_pages.toNat) (h : (free_below s.pmm K).Nonempty) :
    ∃ s', Step g_hhdm_offset s s' ∧ (free_below s'.pmm K).card < (free_below s.pmm K).card
      ∧ ∀ i, K ≤ i → s'.pmm.storage.bit i = s.pmm.storage.bit i := by
  obtain ⟨i, hi⟩ := h
  rw [mem_free_below] at hi
  have hiT : i < s.pmm.total_pages.toNat := by
    rw [r.total_pages]
    omega
  have hfit : Fits s.pmm.storage 1 i := (r.fits_iff a Nat.one_pos hiT).mpr (freeRun_one hi.2)
  have hT := r.total_le_window a
  rcases kalloc_cases g_hhdm_offset s.pmm 1 (r.total_lt a) (r.zero_used a) with
    ⟨hfast, -⟩ | ⟨-, hnone, -⟩ | ⟨-, b, -, hb, hbfit, hmin, hk⟩
  · -- the counter would refuse with a bit still free
    exact absurd hi.2 (r.no_free a hfast (by omega))
  · -- the scan would miss it
    exact absurd hfit (hnone i hiT)
  · -- the page found is free before and used after; no other bit changes
    have hW := a.window_lt
    have hbi : b.toNat ≤ i := Nat.le_of_not_lt fun hlt => hmin i hlt hfit
    have hclear : s.pmm.storage.Clear b.toNat :=
      (r.fits_iff a Nat.one_pos hb).mp hbfit 0 Nat.one_pos
    have hmem : b.toNat ∈ free_below s.pmm K := mem_free_below.mpr ⟨by omega, hclear⟩
    have hbits : ∀ j, (kalloc g_hhdm_offset s.pmm 1).2.storage.bit j
        = (decide (j = b.toNat) || s.pmm.storage.bit j) := by
      intro j
      have hone : (1 : UInt64).toNat = 1 := rfl
      have hpage : (b.toNat ≤ j ∧ j < b.toNat + 1) ↔ j = b.toNat := by omega
      rw [hk]
      simp only [hone]
      rw [use_loop_bit _ _ _ (by omega), MapStorage.bit_congr (find_word s.pmm 1),
          decide_eq_decide.mpr hpage]
    refine ⟨_, Step.kalloc_block s 1 _ (by rw [hk]), free_below_card_lt hmem hbits, ?_⟩
    intro j hj
    rw [hbits, decide_eq_false (by omega), Bool.false_or]

/-- **The pages below `K` can be used up** one by one, whatever is free above them. -/
theorem exhaust (a : Arena entries p bs) {K : ℕ} (hK : K ≤ p.total_pages.toNat) (k : ℕ) :
    ∀ s : KernelState, Reachable g_hhdm_offset p s → (free_below s.pmm K).card ≤ k →
      ∃ s', Reachable g_hhdm_offset p s' ∧ free_below s'.pmm K = ∅
        ∧ ∀ i, K ≤ i → s'.pmm.storage.bit i = s.pmm.storage.bit i := by
  induction k with
  | zero =>
    intro s run hcard
    exact ⟨s, run, Finset.card_eq_zero.mp (by omega), fun _ _ => rfl⟩
  | succ k ih =>
    intro s run hcard
    obtain ⟨l, r⟩ := reachable_refines a run
    rcases (free_below s.pmm K).eq_empty_or_nonempty with hempty | hne
    · exact ⟨s, run, hempty, fun _ _ => rfl⟩
    · -- one page is handed out, and nothing from `K` on changes
      obtain ⟨s₁, step, hless, habove⟩ := r.take_one a hK hne
      obtain ⟨s₂, run₂, hempty, habove₂⟩ := ih s₁ (run.tail step) (by omega)
      exact ⟨s₂, run₂, hempty, fun i hi => (habove₂ i hi).trans (habove i hi)⟩

/-- A run after which no page below `K` is free and page `i`, from `K` on, still is. -/
theorem exhausted_below (a : Arena entries p bs) {K : ℕ} (hK : K ≤ p.total_pages.toNat) {i : ℕ}
    (hi : i ∈ covered bs) (h0 : i ≠ 0) (hKi : K ≤ i) :
    ∃ s, Reachable g_hhdm_offset p s ∧ s.pmm.storage.Clear i
      ∧ ∀ b < K, ¬ s.pmm.storage.Clear b := by
  have start : Reachable g_hhdm_offset p ⟨p, []⟩ := .refl
  obtain ⟨s, run, hempty, habove⟩ := exhaust a hK _ _ start (Nat.le_refl _)
  have hiW := a.inside i hi
  have hspare := a.spare
  refine ⟨s, run, ?_, ?_⟩
  · rw [MapStorage.Clear, habove i hKi]
    exact (a.clear_iff (by omega)).mpr ⟨h0, hi⟩
  · intro b hb hclear
    have hmem : b ∈ free_below s.pmm K := mem_free_below.mpr ⟨hb, hclear⟩
    rw [hempty] at hmem
    exact absurd hmem (Finset.notMem_empty b)

/-- **A page at virtual address 0 is served as `NULL`**: once the pages below it are gone, one
    page is asked for and `NULL` comes back with the page still FREE. -/
theorem null_page_served (a : Arena entries p bs) {i : ℕ} (hi : i ∈ covered bs) (h0 : i ≠ 0)
    (hbound : i < p.total_pages.toNat) (hnull : page_pointer g_hhdm_offset p i = NULL) :
    ∃ s, Reachable g_hhdm_offset p s ∧ s.pmm.storage.Clear i
      ∧ kalloc_value g_hhdm_offset s.pmm 1 = NULL := by
  obtain ⟨s, run, hclear, hbelow⟩ : ∃ s, Reachable g_hhdm_offset p s ∧ s.pmm.storage.Clear i
      ∧ ∀ b < i, ¬ s.pmm.storage.Clear b :=
    exhausted_below a (Nat.le_of_lt hbound) hi h0 (Nat.le_refl i)
  obtain ⟨l, r⟩ := reachable_refines a run
  refine ⟨s, run, hclear, ?_⟩
  have hfirst : FirstFit s.pmm.storage.Clear s.pmm.total_pages.toNat (1 : UInt64).toNat i := by
    refine firstFit_iff.mpr ⟨by rwa [r.total_pages], freeRun_one hclear, ?_⟩
    intro c hc hrun
    exact hbelow c hc (hrun 0 Nat.one_pos)
  obtain ⟨-, hvalue⟩ := (r.servesFirstFit a (by decide)).value_eq i hfirst
  rw [hvalue, r.page_pointer_eq, hnull]

end Balance

/-- **`kalloc` is first fit in every reachable state**, its fast path agrees with the scan, and it
    is exact first fit, with `NULL` for refusals only, exactly when no page that is FREE after
    boot and within reach of the scan lies at virtual address 0. -/
theorem kalloc_first_fit {g_hhdm_offset : UInt64} {ram : WordRows}
    {entries : List LimineMemmapEntry} {p : PmmBitmap} (hpc : PcMap entries)
    (hinit : pmm_initialize g_hhdm_offset ram entries = .ok p)
    (hspare : window_pages p < 64 * p.size.toNat) :
    (∀ s, Reachable g_hhdm_offset p s → ∀ n, 0 < n → ServesFirstFit g_hhdm_offset s.pmm n)
      ∧ ((∀ s, Reachable g_hhdm_offset p s → ∀ n, 0 < n → ExactFirstFit g_hhdm_offset s.pmm n)
        ↔ ∀ b < p.total_pages.toNat, p.storage.Clear b → page_pointer g_hhdm_offset p b ≠ NULL)
    := by
  obtain ⟨bs, a⟩ := pmm_initialize_arena hpc hinit hspare
  have hserves : ∀ s, Reachable g_hhdm_offset p s → ∀ n, 0 < n →
      ServesFirstFit g_hhdm_offset s.pmm n := by
    intro s run n hn
    obtain ⟨l, r⟩ := reachable_refines a run
    exact r.servesFirstFit a hn
  have hT := a.total_eq
  have hrange : ∀ b < p.total_pages.toNat, b < 64 * p.size.toNat := by
    intro b hb
    omega
  refine ⟨hserves, ?_, ?_⟩
  · -- a page at address 0 would come back as `NULL` once the pages below it are gone
    intro hall b hb hclear hnull
    obtain ⟨hb0, hgiven⟩ := (a.clear_iff (hrange b hb)).mp hclear
    obtain ⟨s, run, hfree, hvalue⟩ := null_page_served a hgiven hb0 hb hnull
    obtain ⟨l, r⟩ := reachable_refines a run
    exact (hall s run 1 (by decide)).none_of_null hvalue
      ⟨b, by rwa [r.total_pages], freeRun_one hfree⟩
  · intro hzero s run n hn
    obtain ⟨l, r⟩ := reachable_refines a run
    refine ⟨hserves s run n hn, r.none_of_null a hn ?_⟩
    intro b hb hb0 hgiven
    exact hzero b hb ((a.clear_iff (hrange b hb)).mpr ⟨hb0, hgiven⟩)

theorem kalloc_first_fit_small :
    (∀ s, Reachable small_hhdm small_boot s → ∀ n, 0 < n → ServesFirstFit small_hhdm s.pmm n)
      ∧ ((∀ s, Reachable small_hhdm small_boot s → ∀ n, 0 < n → ExactFirstFit small_hhdm s.pmm n)
        ↔ ∀ b < small_boot.total_pages.toNat, small_boot.storage.Clear b →
          page_pointer small_hhdm small_boot b ≠ NULL) :=
  kalloc_first_fit small_machine_pcMap small_machine_boots small_boot_spare

/-- An offset that puts the second page of the small machine at virtual address 0. -/
def null_hhdm : UInt64 := 0xFFFFFFFFFFEFF000

/-- The small machine booted under that offset. -/
def null_boot : PmmBitmap :=
  boot_state null_hhdm (count_memory (PmmBitmap.start fun _ => 0) small_machine) []
    { base := 0x100000, length := 0x40000, type := LIMINE_MEMMAP_USABLE } []

/-- Right after boot the first page is asked for, and `NULL` comes back although it is FREE. -/
theorem small_machine_null_page :
    PcMap small_machine ∧ pmm_initialize null_hhdm (fun _ => 0) small_machine = .ok null_boot
      ∧ window_pages null_boot < 64 * null_boot.size.toNat
      ∧ Reachable null_hhdm null_boot ⟨null_boot, []⟩
      ∧ null_boot.storage.Clear 1 ∧ 1 < null_boot.total_pages.toNat
      ∧ kalloc_value null_hhdm null_boot 1 = NULL
      ∧ ¬ ExactFirstFit null_hhdm null_boot 1 := by
  have hinit : pmm_initialize null_hhdm (fun _ => 0) small_machine = .ok null_boot := rfl
  have hclear : null_boot.storage.Clear 1 := by
    rw [MapStorage.Clear]
    decide +kernel
  have htotal : null_boot.total_pages.toNat = 63 := by decide +kernel
  have hvalue : kalloc_value null_hhdm null_boot 1 = NULL := by decide +kernel
  refine ⟨small_machine_pcMap, hinit, by decide, .refl, hclear, by omega, hvalue, ?_⟩
  intro h
  exact h.none_of_null hvalue ⟨1, by omega, freeRun_one hclear⟩

/-! ## §4. The pages above the scan bound. -/

/-- The first page number the scan never starts at: the window less the pages of the bitmap. -/
def scan_bound (entries : List LimineMemmapEntry) : ℕ :=
  window_pages (survey entries) - (survey entries).size.toNat / 4096

/-- `NULL` is returned only when the window has no `n` consecutive FREE bits. -/
def NoPageLost (g_hhdm_offset : UInt64) (p : PmmBitmap) : Prop :=
  ∀ n : UInt64, 0 < n → kalloc_value g_hhdm_offset p n = NULL →
    ¬ ∃ b, b + n.toNat ≤ window_pages p ∧ FreeRun p.storage.Clear b n.toNat

theorem total_pages_scan_bound {g_hhdm_offset : UInt64} {ram : WordRows}
    {entries : List LimineMemmapEntry} {p : PmmBitmap} {bs : List Block}
    (hinit : pmm_initialize g_hhdm_offset ram entries = .ok p) (b : Booted entries p bs) :
    p.total_pages.toNat = scan_bound entries := by
  obtain ⟨hsize, hwin, -⟩ := pmm_initialize_survey hinit
  rw [b.total_eq, scan_bound, hsize, hwin]

/-- The map alone says where the direct map puts its pages. -/
theorem page_pointer_survey {g_hhdm_offset : UInt64} {ram : WordRows}
    {entries : List LimineMemmapEntry} {p : PmmBitmap}
    (hinit : pmm_initialize g_hhdm_offset ram entries = .ok p) (i : ℕ) :
    page_pointer g_hhdm_offset p i = page_pointer g_hhdm_offset (survey entries) i := by
  rw [page_pointer, page_pointer, pmm_initialize_lowest hinit]

section Lost

variable {g_hhdm_offset : UInt64} {entries : List LimineMemmapEntry} {p : PmmBitmap}
  {bs : List Block} {s : KernelState} {l : Ledger}

/-- If every page given lies below the bound and none of them at address 0, `NULL` is never
    wrong. -/
theorem Refines.noPageLost (a : Arena entries p bs) (r : Refines g_hhdm_offset p s l)
    (hlow : ∀ i ∈ covered bs, i < p.total_pages.toNat)
    (hzero : ∀ i ∈ covered bs, i ≠ 0 → page_pointer g_hhdm_offset p i ≠ NULL) :
    NoPageLost g_hhdm_offset s.pmm := by
  intro n hn hnull h
  obtain ⟨b, hend, hrun⟩ := h
  have hpos := toNat_pos hn
  rw [r.window] at hend
  obtain ⟨-, hgiven⟩ := r.clear_given a (by omega) (hrun 0 hpos)
  have hb := hlow b hgiven
  exact r.none_of_null a hn (fun i _ h0 hi => hzero i hi h0) hnull
    ⟨b, by rwa [r.total_pages], hrun⟩

/-- One free page in the window refutes the answer `NULL` to a request for one page. -/
theorem Refines.lost (a : Arena entries p bs) (r : Refines g_hhdm_offset p s l) {i : ℕ}
    (hi : i ∈ covered bs) (hclear : s.pmm.storage.Clear i)
    (hnull : kalloc_value g_hhdm_offset s.pmm 1 = NULL) : ¬ NoPageLost g_hhdm_offset s.pmm := by
  intro h
  refine h 1 (by decide) hnull ⟨i, ?_, freeRun_one hclear⟩
  rw [r.window]
  exact a.inside i hi

/-- A page given above the bound is refused once the pages below are gone. -/
theorem page_lost (a : Arena entries p bs) {i : ℕ} (hi : i ∈ covered bs)
    (hbound : p.total_pages.toNat ≤ i) :
    ∃ s, Reachable g_hhdm_offset p s ∧ ¬ NoPageLost g_hhdm_offset s.pmm := by
  have hW := a.window_pos
  have hT := a.total_eq
  have hsize := a.size_eq
  have hspare := a.spare
  obtain ⟨s, run, hclear, hbelow⟩ : ∃ s, Reachable g_hhdm_offset p s ∧ s.pmm.storage.Clear i
      ∧ ∀ b < p.total_pages.toNat, ¬ s.pmm.storage.Clear b :=
    exhausted_below a (Nat.le_refl _) hi (by omega) hbound
  obtain ⟨l, r⟩ := reachable_refines a run
  -- nothing is free below the bound, so one page is refused
  have hnone : ¬ ∃ b < s.pmm.total_pages.toNat,
      FreeRun s.pmm.storage.Clear b (1 : UInt64).toNat := by
    intro h
    obtain ⟨b, hb, hrun⟩ := h
    rw [r.total_pages] at hb
    exact hbelow b hb (hrun 0 Nat.one_pos)
  exact ⟨s, run, r.lost a hi hclear ((r.servesFirstFit a (by decide)).null_of_none hnone)⟩

end Lost

/-- **No page is lost exactly when none is given above the scan bound and none at virtual
    address 0**, page 0 of the window, which is never handed out, apart. -/
theorem no_page_lost_iff {g_hhdm_offset : UInt64} {ram : WordRows}
    {entries : List LimineMemmapEntry} {p : PmmBitmap} (hpc : PcMap entries)
    (hinit : pmm_initialize g_hhdm_offset ram entries = .ok p)
    (hspare : window_pages p < 64 * p.size.toNat) :
    (∀ s, Reachable g_hhdm_offset p s → NoPageLost g_hhdm_offset s.pmm)
      ↔ ∀ i, BootPage entries (survey entries) i → i < scan_bound entries
          ∧ (i ≠ 0 → page_pointer g_hhdm_offset (survey entries) i ≠ NULL) := by
  obtain ⟨bs, a⟩ := pmm_initialize_arena hpc hinit hspare
  obtain ⟨-, -, hpage⟩ := pmm_initialize_survey hinit
  rw [← total_pages_scan_bound hinit a.toBooted, ← hpage]
  simp only [← page_pointer_survey hinit, ← a.page_iff]
  constructor
  · intro hall i hi
    have hbelow : i < p.total_pages.toNat := by
      -- a run that takes every page below the bound loses a page above it
      by_contra hle
      obtain ⟨s, run, hlost⟩ :
          ∃ s, Reachable g_hhdm_offset p s ∧ ¬ NoPageLost g_hhdm_offset s.pmm :=
        page_lost a hi (by omega)
      exact hlost (hall s run)
    refine ⟨hbelow, ?_⟩
    -- a page at address 0 is lost the moment it is served
    intro h0 hnull
    obtain ⟨s, run, hclear, hvalue⟩ := null_page_served a hi h0 hbelow hnull
    obtain ⟨l, r⟩ := reachable_refines a run
    exact r.lost a hi hclear hvalue (hall s run)
  · intro hgood s run
    obtain ⟨l, r⟩ := reachable_refines a run
    exact r.noPageLost a (fun i hi => (hgood i hi).1) (fun i hi => (hgood i hi).2)

theorem no_page_lost_iff_small :
    (∀ s, Reachable small_hhdm small_boot s → NoPageLost small_hhdm s.pmm)
      ↔ ∀ i, BootPage small_machine (survey small_machine) i → i < scan_bound small_machine
          ∧ (i ≠ 0 → page_pointer small_hhdm (survey small_machine) i ≠ NULL) :=
  no_page_lost_iff small_machine_pcMap small_machine_boots small_boot_spare

/-- The small machine after one request for 62 pages: only page 63, the last one, is left. -/
def small_full : KernelState where
  pmm := (kalloc small_hhdm small_boot 62).2
  outstanding := [(0xffff800000101000, 62)]

/-- The last page of the small machine is free and refused. -/
theorem small_machine_loses_page :
    PcMap small_machine ∧ pmm_initialize small_hhdm (fun _ => 0) small_machine = .ok small_boot
      ∧ window_pages small_boot < 64 * small_boot.size.toNat
      ∧ Reachable small_hhdm small_boot small_full
      ∧ ¬ NoPageLost small_hhdm small_full.pmm := by
  have hsome : (kalloc small_hhdm small_boot 62).1 = some 0xffff800000101000 := by
    decide +kernel
  have hnull : kalloc_value small_hhdm small_full.pmm 1 = NULL := by decide +kernel
  have hclear : small_full.pmm.storage.Clear 63 := by
    rw [MapStorage.Clear]
    decide +kernel
  have hwin : window_pages small_full.pmm = 64 := by decide +kernel
  refine ⟨small_machine_pcMap, small_machine_boots, small_boot_spare,
    .single (Step.kalloc_block ⟨small_boot, []⟩ 62 _ hsome), ?_⟩
  intro h
  exact h 1 (by decide) hnull ⟨63, by rw [hwin]; decide, freeRun_one hclear⟩

/-! ## §5. Exact accounting. -/

/-- The counter and the bitmap agree about what is free. -/
structure Accounted (p : PmmBitmap) : Prop where
  le_total : p.used_pages ≤ p.total_pages
  free_eq : (p.total_pages - p.used_pages).toNat = (window_free p).card
  out_iff : p.total_pages ≤ p.used_pages ↔ window_free p = ∅

section Accounts

variable {g_hhdm_offset : UInt64} {entries : List LimineMemmapEntry} {p : PmmBitmap}
  {bs : List Block} {s : KernelState} {l : Ledger}

/-- The counter never runs past the total, with or without page 0. -/
theorem Refines.used_le_total (a : Arena entries p bs) (r : Refines g_hhdm_offset p s l) :
    s.pmm.used_pages ≤ s.pmm.total_pages := by
  have hbal := r.balance a
  rw [UInt64.le_iff_toNat_le]
  omega

/-- The difference of the two counters. -/
theorem Refines.unused_eq (a : Arena entries p bs) (r : Refines g_hhdm_offset p s l) :
    (s.pmm.total_pages - s.pmm.used_pages).toNat
      = (window_free s.pmm).card + if 0 ∈ covered bs then 1 else 0 := by
  have hbal := r.balance a
  rw [UInt64.toNat_sub_of_le _ _ (r.used_le_total a)]
  omega

theorem Refines.accounted (a : Arena entries p bs) (r : Refines g_hhdm_offset p s l)
    (h0 : 0 ∉ covered bs) : Accounted s.pmm := by
  have hle := r.used_le_total a
  have heq := r.unused_eq a
  rw [if_neg h0, Nat.add_zero] at heq
  refine ⟨hle, heq, ?_⟩
  rw [UInt64.toNat_sub_of_le _ _ hle] at heq
  rw [← Finset.card_eq_zero, UInt64.le_iff_toNat_le]
  omega

/-- When page 0 was given, the counter is one page too low from the start. -/
theorem Refines.not_accounted (a : Arena entries p bs) (r : Refines g_hhdm_offset p s l)
    (h0 : 0 ∈ covered bs) : ¬ Accounted s.pmm := by
  intro h
  have heq := r.unused_eq a
  rw [h.free_eq, if_pos h0] at heq
  omega

end Accounts

/-- **The accounts are exact exactly when page 0 of the window is not given to the allocator.**
    When it is, boot gives the page and counts it, and then reserves its bit without counting; the
    balance carries that one page through every run. -/
theorem accounted_iff {g_hhdm_offset : UInt64} {ram : WordRows}
    {entries : List LimineMemmapEntry} {p : PmmBitmap} (hpc : PcMap entries)
    (hinit : pmm_initialize g_hhdm_offset ram entries = .ok p)
    (hspare : window_pages p < 64 * p.size.toNat) :
    (∀ s, Reachable g_hhdm_offset p s → Accounted s.pmm)
      ↔ ¬ BootPage entries (survey entries) 0 := by
  obtain ⟨bs, a⟩ := pmm_initialize_arena hpc hinit hspare
  obtain ⟨-, -, hpage⟩ := pmm_initialize_survey hinit
  rw [← hpage, ← a.page_iff 0]
  constructor
  · -- the boot state itself is off by one
    intro hall h0
    have r : Refines g_hhdm_offset p ⟨p, []⟩ _ := refines_boot a
    exact r.not_accounted a h0 (hall _ .refl)
  · intro h0 s run
    obtain ⟨l, r⟩ := reachable_refines a run
    exact r.accounted a h0

theorem accounted_iff_small :
    (∀ s, Reachable small_hhdm small_boot s → Accounted s.pmm)
      ↔ ¬ BootPage small_machine (survey small_machine) 0 :=
  accounted_iff small_machine_pcMap small_machine_boots small_boot_spare

/-- One page low in memory, and 1 GiB higher up an entry that holds the bitmap of both. -/
def split_machine : List LimineMemmapEntry :=
  [{ base := 0x1000, length := 0x1000, type := LIMINE_MEMMAP_USABLE },
   { base := 0x40100000, length := 0x4000, type := LIMINE_MEMMAP_USABLE }]

def split_boot : PmmBitmap :=
  boot_state small_hhdm (count_memory (PmmBitmap.start fun _ => 0) split_machine)
    [{ base := 0x1000, length := 0x1000, type := LIMINE_MEMMAP_USABLE }]
    { base := 0x40100000, length := 0x4000, type := LIMINE_MEMMAP_USABLE } []

theorem split_machine_pcMap : PcMap split_machine where
  aligned := by simp [split_machine]
  bounded := by simp [split_machine]
  disjoint := by
    simp only [split_machine, List.pairwise_cons, List.mem_singleton, forall_eq,
      List.not_mem_nil, false_implies, implies_true, List.Pairwise.nil, and_true]
    intro _ _
    rw [Finset.disjoint_left]
    intro i
    simp only [mem_span, LimineMemmapEntry.range, UInt64.reduceToNat]
    omega
  below := by simp [split_machine]
  low := ⟨_, List.mem_cons_self, rfl, by decide⟩

/-- The split machine counts its only low page as free although it is reserved. -/
theorem split_machine_unaccounted :
    PcMap split_machine ∧ pmm_initialize small_hhdm (fun _ => 0) split_machine = .ok split_boot
      ∧ window_pages split_boot < 64 * split_boot.size.toNat
      ∧ split_boot.total_pages - split_boot.used_pages = 3
      ∧ ¬ Accounted split_boot := by
  have hinit : pmm_initialize small_hhdm (fun _ => 0) split_machine = .ok split_boot := rfl
  have hspare : window_pages split_boot < 64 * split_boot.size.toNat := by decide +kernel
  obtain ⟨bs, a⟩ := pmm_initialize_arena split_machine_pcMap hinit hspare
  have h0 : 0 ∈ covered bs := by
    rw [a.page_iff]
    refine ⟨⟨_, List.mem_cons_self, rfl, ?_⟩, ?_⟩
    · rw [mem_span]
      decide +kernel
    · intro h
      obtain ⟨e, he, hmem⟩ := h
      have hfind : bitmap_entry split_boot split_machine
          = some { base := 0x40100000, length := 0x4000, type := LIMINE_MEMMAP_USABLE } := by
        decide +kernel
      rw [hfind] at he
      obtain rfl := Option.some.inj he
      rw [mem_span] at hmem
      revert hmem
      decide +kernel
  have r : Refines small_hhdm split_boot ⟨split_boot, []⟩ _ := refines_boot a
  exact ⟨split_machine_pcMap, hinit, hspare, by decide +kernel, r.not_accounted a h0⟩

end Hippos.Mem
