/-
  Hippos.Lib.Ledger — who owns which numbers.

  A block is an interval of numbers, a ledger is a set of reserved numbers together with a list of
  blocks that are pairwise disjoint and avoid the reserved set.  The two facts are fields, so a
  ledger in which a number has two owners cannot be built; `take` and `give` are the only ways to
  move from one ledger to the next.  The conclusions a client wants (what is used, how much is used)
  are then set equations and one cardinality.

  Main results:
    * `card_covered` — disjoint blocks add up.
    * `Ledger.take`, `Ledger.give` — a block of free numbers handed out, and one taken back.
    * `Ledger.used_take`, `Ledger.used_give` — the used numbers before and after.
    * `Ledger.card_used` — the books balance.
-/
import Mathlib.Data.Finset.Card
import Mathlib.Order.Interval.Finset.Nat
import Mathlib.Algebra.BigOperators.Group.List.Basic
import Mathlib.Algebra.GroupWithZero.Nat

namespace Hippos.Lib

/-! ## §1. Blocks. -/

/-- A block: its first number and its length. -/
abbrev Block := ℕ × ℕ

/-- The numbers of a block. -/
def span (b : Block) : Finset ℕ := Finset.Ico b.1 (b.1 + b.2)

/-- The numbers of a list of blocks. -/
def covered : List Block → Finset ℕ
  | [] => ∅
  | b :: bs => span b ∪ covered bs

/-- No number lies in two blocks of the list. -/
def Apart (bs : List Block) : Prop := bs.Pairwise (fun a b => Disjoint (span a) (span b))

/-- The summed length of a list of blocks. -/
def total (bs : List Block) : ℕ := (bs.map Prod.snd).sum

@[simp] theorem mem_span {b : Block} {i : ℕ} : i ∈ span b ↔ b.1 ≤ i ∧ i < b.1 + b.2 :=
  Finset.mem_Ico

@[simp] theorem card_span (b : Block) : (span b).card = b.2 := by simp [span]

@[simp] theorem covered_nil : covered [] = ∅ := rfl

@[simp] theorem covered_cons (b : Block) (bs : List Block) :
    covered (b :: bs) = span b ∪ covered bs := rfl

@[simp] theorem total_cons (b : Block) (bs : List Block) : total (b :: bs) = b.2 + total bs := rfl

/-- A number is covered by one of the blocks. -/
theorem mem_covered {bs : List Block} {i : ℕ} : i ∈ covered bs ↔ ∃ b ∈ bs, i ∈ span b := by
  induction bs with
  | nil => simp
  | cons b bs ih => rw [covered_cons, Finset.mem_union, ih]; simp

/-- Two lists cover what either covers. -/
theorem covered_append (bs cs : List Block) : covered (bs ++ cs) = covered bs ∪ covered cs := by
  ext i
  simp only [mem_covered, Finset.mem_union, List.mem_append, or_and_right, exists_or]

/-- Two lists have the lengths of both. -/
theorem total_append (bs cs : List Block) : total (bs ++ cs) = total bs + total cs := by
  simp [total]

/-- A set that meets none of the blocks is disjoint from all of them. -/
theorem disjoint_covered {s : Finset ℕ} {bs : List Block}
    (h : ∀ b ∈ bs, Disjoint s (span b)) : Disjoint s (covered bs) := by
  rw [Finset.disjoint_left]
  intro i hi hc
  obtain ⟨b, hb, hib⟩ := mem_covered.mp hc
  exact Finset.disjoint_left.mp (h b hb) hi hib

/-- A block of the list is covered. -/
theorem span_subset_covered {bs : List Block} {b : Block} (hb : b ∈ bs) :
    span b ⊆ covered bs := fun _ hi => mem_covered.mpr ⟨b, hb, hi⟩

/-- One more block is apart when it meets none of the others. -/
theorem apart_cons {b : Block} {bs : List Block} :
    Apart (b :: bs) ↔ Disjoint (span b) (covered bs) ∧ Apart bs := by
  unfold Apart
  rw [List.pairwise_cons]
  refine and_congr_left fun _ => ⟨fun h => disjoint_covered h, ?_⟩
  intro h c hc
  exact h.mono_right (span_subset_covered hc)

/-- **Disjoint blocks add up**: they cover as many numbers as their lengths say.  Without
    disjointness the lengths are an upper bound only. -/
theorem card_covered {bs : List Block} (h : Apart bs) : (covered bs).card = total bs := by
  induction bs with
  | nil => rfl
  | cons b bs ih =>
    obtain ⟨hb, hbs⟩ := apart_cons.mp h
    rw [covered_cons, Finset.card_union_of_disjoint hb, card_span, ih hbs, total_cons]

/-- A block in the middle of a disjoint list is disjoint from the rest. -/
theorem Apart.middle {before after : List Block} {b : Block}
    (h : Apart (before ++ b :: after)) :
    Disjoint (span b) (covered (before ++ after)) ∧ Apart (before ++ after) := by
  unfold Apart at h
  rw [List.pairwise_append, List.pairwise_cons] at h
  obtain ⟨hbefore, ⟨hb, hafter⟩, hcross⟩ := h
  refine ⟨disjoint_covered fun c hc => ?_, ?_⟩
  · rcases List.mem_append.mp hc with hc | hc
    · exact (hcross c hc b List.mem_cons_self).symm
    · exact hb c hc
  · exact List.pairwise_append.mpr
      ⟨hbefore, hafter, fun c hc d hd => hcross c hc d (List.mem_cons_of_mem b hd)⟩

/-! ## §2. Ledgers. -/

/-- **Exclusive ownership.**  Every number is reserved, in exactly one block, or free.  Both facts
    are fields, so that a ledger in which a number has two owners cannot be built, and whoever hands
    out or takes back a block has to give the proofs. -/
structure Ledger where
  reserved : Finset ℕ
  blocks : List Block
  apart : Apart blocks
  off_reserved : Disjoint reserved (covered blocks)

namespace Ledger

/-- The numbers that are not free. -/
def used (l : Ledger) : Finset ℕ := l.reserved ∪ covered l.blocks

/-- The ledger with nothing handed out. -/
def fresh (reserved : Finset ℕ) : Ledger where
  reserved := reserved
  blocks := []
  apart := List.Pairwise.nil
  off_reserved := Finset.disjoint_empty_right _

@[simp] theorem used_fresh (reserved : Finset ℕ) : (fresh reserved).used = reserved :=
  Finset.union_empty _

/-- Hand out a block of free numbers.  That none of them is used is what keeps ownership
    exclusive. -/
def take (l : Ledger) (b : Block) (h : Disjoint (span b) l.used) : Ledger where
  reserved := l.reserved
  blocks := b :: l.blocks
  apart := apart_cons.mpr ⟨h.mono_right Finset.subset_union_right, l.apart⟩
  off_reserved := by
    rw [covered_cons, Finset.disjoint_union_right]
    exact ⟨(h.mono_right Finset.subset_union_left).symm, l.off_reserved⟩

/-- Take a block back, from wherever in the list it is.  It must be one that was handed out, which
    `h` says. -/
def give (l : Ledger) (before : List Block) (b : Block) (after : List Block)
    (h : l.blocks = before ++ b :: after) : Ledger where
  reserved := l.reserved
  blocks := before ++ after
  apart := (Apart.middle (h ▸ l.apart)).2
  off_reserved := by
    apply l.off_reserved.mono_right
    intro i hi
    obtain ⟨c, hc, hic⟩ := mem_covered.mp hi
    refine mem_covered.mpr ⟨c, ?_, hic⟩
    rw [h]
    rcases List.mem_append.mp hc with hc | hc
    · exact List.mem_append_left _ hc
    · exact List.mem_append_right _ (List.mem_cons_of_mem b hc)

/-- Handing out uses the numbers of the block, and leaves those used before as they are. -/
theorem used_take (l : Ledger) (b : Block) (h : Disjoint (span b) l.used) :
    (l.take b h).used = span b ∪ l.used := by
  unfold used take
  rw [covered_cons, Finset.union_left_comm]

/-- Taking back frees the numbers of the block, and no others, since no other owner has them. -/
theorem used_give (l : Ledger) (before : List Block) (b : Block) (after : List Block)
    (h : l.blocks = before ++ b :: after) :
    (l.give before b after h).used = l.used \ span b := by
  have hcov : covered l.blocks = span b ∪ covered (before ++ after) := by
    rw [h, covered_append, covered_append, covered_cons, Finset.union_left_comm]
  have hoff : Disjoint (span b) l.reserved := by
    refine (l.off_reserved.mono_right ?_).symm
    rw [hcov]
    exact Finset.subset_union_left
  have hrest : Disjoint (span b) (covered (before ++ after)) := (Apart.middle (h ▸ l.apart)).1
  ext i
  have hi1 : i ∈ span b → i ∉ l.reserved := fun hi => Finset.disjoint_left.mp hoff hi
  have hi2 : i ∈ span b → i ∉ covered (before ++ after) :=
    fun hi => Finset.disjoint_left.mp hrest hi
  -- the block meets neither of the two, so removing it leaves both whole
  simp only [used, give, hcov, Finset.mem_union, Finset.mem_sdiff]
  tauto

/-- **The books balance**: what is used is what is reserved plus what is handed out.  No number is
    counted twice, as no number has two owners. -/
theorem card_used (l : Ledger) : l.used.card = l.reserved.card + total l.blocks := by
  rw [used, Finset.card_union_of_disjoint l.off_reserved, card_covered l.apart]

/-- One transaction. -/
inductive Step : Ledger → Ledger → Prop
  | take (l : Ledger) (b : Block) (h : Disjoint (span b) l.used) : Step l (l.take b h)
  | give (l : Ledger) (before : List Block) (b : Block) (after : List Block)
      (h : l.blocks = before ++ b :: after) : Step l (l.give before b after h)

end Ledger

end Hippos.Lib
