/-
  Hippos.Cpu.Gates — the descriptor tables, `cpu/gdt.c`, `cpu/idt.c` and `asm/gdt.s`.

  Two packed tables in memory are filled by the kernel and read by the processor: an exception is
  looked up in one of them and the code segment it names in the other.  `IdtEntry.store` is what the
  kernel does to the bytes of memory, and `enter` is the processor's side, which loads the same
  bytes and checks what it is documented to check before it goes to the address in the gate.

  The descriptors of the GDT are data of the kernel image, so they are an assumption on memory
  (`GdtAt`); the interrupt table is written by the loop of `idt_initialize`, and the invariant
  `Filled` says of each round which gates are there and that nothing else has changed.  After both
  initialisations exactly the first 32 vectors lead somewhere, each to its stub.

  Main results:
    * `load_store_entry` — a packed entry is read back field by field.
    * `gate_offset` — the three parts of an address in a gate are the address.
    * `set_stubs_filled` — what the loop of `idt_initialize` leaves behind.
    * `exceptions_enter` — which vectors are delivered, and where to.
-/
import Hippos.Cpu.Idt
import Hippos.Lib.ByteMemory

namespace Hippos.Cpu

open Hippos.Lib

/-! ## §1. The tables. -/

/-- `idt_entry_t`. -/
structure IdtEntry where
  isr_low : UInt16
  kernel_cs : UInt16
  ist : UInt8
  attributes : UInt8
  isr_mid : UInt16
  isr_high : UInt32
  reserved : UInt32
  deriving Repr, DecidableEq

/-- The fields one after the other, without padding: 16 bytes. -/
def IdtEntry.store (m : Memory) (a : ℕ) (e : IdtEntry) : Memory :=
  ((((((m.store16 a e.isr_low).store16 (a + 2) e.kernel_cs).store (a + 4) e.ist).store (a + 5)
    e.attributes).store16 (a + 6) e.isr_mid).store32 (a + 8) e.isr_high).store32 (a + 12) e.reserved

/-- The same fields, as the processor reads them. -/
def IdtEntry.load (m : Memory) (a : ℕ) : IdtEntry where
  isr_low := m.word16 a
  kernel_cs := m.word16 (a + 2)
  ist := m.byte (a + 4)
  attributes := m.byte (a + 5)
  isr_mid := m.word16 (a + 6)
  isr_high := m.word32 (a + 8)
  reserved := m.word32 (a + 12)

/-- `gdt_entry_t`. -/
structure GdtEntry where
  limit : UInt16
  base_low16 : UInt16
  base_mid8 : UInt8
  access : UInt8
  granularity : UInt8
  base_high8 : UInt8
  deriving Repr, DecidableEq

/-- Eight bytes, as the processor reads them. -/
def GdtEntry.load (m : Memory) (a : ℕ) : GdtEntry where
  limit := m.word16 a
  base_low16 := m.word16 (a + 2)
  base_mid8 := m.byte (a + 4)
  access := m.byte (a + 5)
  granularity := m.byte (a + 6)
  base_high8 := m.byte (a + 7)

/-- The initialiser of `gdt`: null, 64-bit code, 64-bit data, user data, user code. -/
def gdt_table : List GdtEntry :=
  [⟨0, 0, 0, 0, 0, 0⟩, ⟨0xFFFF, 0, 0, 0x9A, 0xA0, 0⟩, ⟨0xFFFF, 0, 0, 0x92, 0xA0, 0⟩,
   ⟨0xFFFF, 0, 0, 0xF2, 0xC0, 0⟩, ⟨0xFFFF, 0, 0, 0xFA, 0xA0, 0⟩]

/-- What the kernel sets up: the registers of both tables, the segments, the interrupt flag, the
    array `vectors`, and the memory. -/
structure Core where
  gdtr_limit : UInt16
  gdtr_base : UInt64
  idtr_limit : UInt16
  idtr_base : UInt64
  cs : UInt16
  data_segments : UInt16
  interrupts : Bool
  vectors : ℕ → Bool
  memory : Memory

/-! ## §2. The kernel. -/

/-- The length of the array `idt`. -/
def IDT_MAX_DESCRIPTORS : ℕ := 32

/-- `lgdt`, then the reloads: `ds`, `es`, `fs`, `gs` and `ss` are 0x10, `cs` is 0x08. -/
def gdt_flush (c : Core) (size : UInt16) (offset : UInt64) : Core :=
  { c with gdtr_limit := size, gdtr_base := offset, data_segments := 0x10, cs := 0x08 }

/-- `gdt_initialize`: the limit is the last byte of the table.  `gdt` is where the table is. -/
def gdt_initialize (gdt : UInt64) (c : Core) : Core :=
  gdt_flush c (UInt16.ofNat (8 * gdt_table.length - 1)) gdt

/-- `idt_set_descriptor`: the address of the handler is cut into three parts.  `idt` is where the
    array is. -/
def idt_set_descriptor (idt : UInt64) (m : Memory) (vector : UInt8) (isr : UInt64) (flags : UInt8) :
    Memory :=
  IdtEntry.store m (idt.toNat + 16 * vector.toNat)
    { isr_low := (isr &&& 0xFFFF).toUInt16
      kernel_cs := 0x08
      ist := 0
      attributes := flags
      isr_mid := ((isr >>> 16) &&& 0xFFFF).toUInt16
      isr_high := ((isr >>> 32) &&& 0xFFFFFFFF).toUInt32
      reserved := 0 }

section Initialize

variable (idt : UInt64) (stub_address : ℕ → UInt64)

/-- `for (uint8_t vector = 0; vector < 32; vector++)`, the first `n` rounds.  `stub_address` is what
    `isr_stub_table` holds. -/
def set_stubs (c : Core) : (n : ℕ) → Core
  | 0 => c
  | n + 1 =>
    let c := set_stubs c n
    { c with
      memory := idt_set_descriptor idt c.memory (UInt8.ofNat n) (stub_address n) 0x8E
      vectors := fun v => if v = n then true else c.vectors v }

/-- `idt_initialize`: interrupts are off while the table is filled, and on from then on. -/
def idt_initialize (c : Core) : Core :=
  let c := { c with interrupts := false }
  let base := idt
  let limit := UInt16.ofNat (16 * IDT_MAX_DESCRIPTORS - 1)
  let c := set_stubs idt stub_address c 32
  { c with idtr_limit := limit, idtr_base := base, interrupts := true }

end Initialize

/-! ## §3. The processor. -/

/-- The address in a gate. -/
def IdtEntry.offset (e : IdtEntry) : UInt64 :=
  UInt64.ofNat (e.isr_low.toNat + 2 ^ 16 * e.isr_mid.toNat + 2 ^ 32 * e.isr_high.toNat)

/-- Bit 7 of the attributes. -/
def IdtEntry.present (e : IdtEntry) : Bool := e.attributes &&& 0x80 != 0

/-- A 64-bit interrupt gate, which turns interrupts off. -/
def IdtEntry.is_interrupt_gate (e : IdtEntry) : Bool := e.attributes &&& 0x1F == 0x0E

/-- Bit 7 of the access byte. -/
def GdtEntry.present (e : GdtEntry) : Bool := e.access &&& 0x80 != 0

/-- The privilege level of the segment. -/
def GdtEntry.dpl (e : GdtEntry) : UInt8 := e.access >>> 5 &&& 3

/-- Code in 64-bit mode: executable, with L set and D clear. -/
def GdtEntry.is_long_code (e : GdtEntry) : Bool :=
  e.access &&& 0x18 == 0x18 && e.granularity &&& 0x60 == 0x20

/-- Where execution goes on. -/
structure Entry where
  rip : UInt64
  cs : UInt16
  ist : UInt8
  interrupts : Bool
  deriving Repr, DecidableEq

/-- Delivery of vector `v` to code of privilege level 0: the gate, if it is within the limit, then
    the segment it names.  Everything else is a fault. -/
def enter (c : Core) (v : UInt8) : Option Entry :=
  if 16 * v.toNat + 15 ≤ c.idtr_limit.toNat then
    let gate := IdtEntry.load c.memory (c.idtr_base.toNat + 16 * v.toNat)
    let index := gate.kernel_cs.toNat / 8
    let segment := GdtEntry.load c.memory (c.gdtr_base.toNat + 8 * index)
    -- the gate; the selector, which must be of this table and not null; and the segment
    if gate.is_interrupt_gate && gate.present && gate.kernel_cs &&& 4 == 0 && index != 0
        && 8 * index + 7 ≤ c.gdtr_limit.toNat && segment.is_long_code && segment.present
        && segment.dpl == 0 then
      some { rip := gate.offset, cs := gate.kernel_cs &&& 0xFFFC, ist := gate.ist &&& 7,
             interrupts := false }
    else none
  else none

/-! ## §4. Packed entries. -/

section Entries

variable {m : Memory} {a b : ℕ}

/-- A byte written changes no other. -/
theorem byte_store_other (m : Memory) {a b : ℕ} (v : UInt8) (h : b ≠ a) :
    (m.store a v).byte b = m.byte b := if_neg h

/-- An entry written changes its own 16 bytes only. -/
theorem byte_store_entry_other (e : IdtEntry) (h : b < a ∨ a + 16 ≤ b) :
    (e.store m a).byte b = m.byte b := by
  unfold IdtEntry.store
  rw [Memory.byte_store32_other _ _ (by omega), Memory.byte_store32_other _ _ (by omega),
      Memory.byte_store16_other _ _ (by omega), byte_store_other _ _ (by omega),
      byte_store_other _ _ (by omega), Memory.byte_store16_other _ _ (by omega),
      Memory.byte_store16_other _ _ (by omega)]

/-- **A stored entry is read back**, field by field: later stores do not touch the fields before
    them, as the offsets of `idt_entry_t` are apart.  It holds at any address and for any memory, so
    that tables can be built entry by entry. -/
theorem load_store_entry (m : Memory) (a : ℕ) (e : IdtEntry) :
    IdtEntry.load (e.store m a) a = e := by
  have hlow : (e.store m a).word16 a = e.isr_low := by
    rw [← Memory.word16_store16 m a e.isr_low]
    apply Memory.word16_congr
    intro i hi
    unfold IdtEntry.store
    simp (disch := omega) only [Memory.byte_store32_other, Memory.byte_store16_other,
      byte_store_other]
  have hcs : (e.store m a).word16 (a + 2) = e.kernel_cs := by
    rw [← Memory.word16_store16 (m.store16 a e.isr_low) (a + 2) e.kernel_cs]
    apply Memory.word16_congr
    intro i hi
    unfold IdtEntry.store
    rw [Memory.byte_store32_other _ _ (by omega), Memory.byte_store32_other _ _ (by omega),
        Memory.byte_store16_other _ _ (by omega), byte_store_other _ _ (by omega),
        byte_store_other _ _ (by omega)]
  have hist : (e.store m a).byte (a + 4) = e.ist := by
    unfold IdtEntry.store
    rw [Memory.byte_store32_other _ _ (by omega), Memory.byte_store32_other _ _ (by omega),
        Memory.byte_store16_other _ _ (by omega), byte_store_other _ _ (by omega)]
    exact if_pos rfl
  have hattributes : (e.store m a).byte (a + 5) = e.attributes := by
    unfold IdtEntry.store
    rw [Memory.byte_store32_other _ _ (by omega), Memory.byte_store32_other _ _ (by omega),
        Memory.byte_store16_other _ _ (by omega)]
    exact if_pos rfl
  have hmid : (e.store m a).word16 (a + 6) = e.isr_mid := by
    unfold IdtEntry.store
    have hupper : ∀ (m : Memory) (v w : UInt32),
        ((m.store32 (a + 8) v).store32 (a + 12) w).word16 (a + 6) = m.word16 (a + 6) := by
      intro m v w
      apply Memory.word16_congr
      intro i hi
      rw [Memory.byte_store32_other _ _ (by omega), Memory.byte_store32_other _ _ (by omega)]
    rw [hupper, Memory.word16_store16]
  have hhigh : (e.store m a).word32 (a + 8) = e.isr_high := by
    unfold IdtEntry.store
    rw [Memory.word32_store32_other _ _ (by omega), Memory.word32_store32]
  have hreserved : (e.store m a).word32 (a + 12) = e.reserved := by
    unfold IdtEntry.store
    rw [Memory.word32_store32]
  unfold IdtEntry.load
  rw [hlow, hcs, hist, hattributes, hmid, hhigh, hreserved]

/-- An entry depends on its own 16 bytes. -/
theorem load_entry_congr {m' : Memory} (h : ∀ i < 16, m.byte (a + i) = m'.byte (a + i)) :
    IdtEntry.load m a = IdtEntry.load m' a := by
  have hword16 : ∀ k < 15, m.word16 (a + k) = m'.word16 (a + k) := by
    intro k hk
    apply Memory.word16_congr
    intro i hi
    rw [Nat.add_assoc]
    exact h (k + i) (by omega)
  have hword32 : ∀ k < 13, m.word32 (a + k) = m'.word32 (a + k) := by
    intro k hk
    apply Memory.word32_congr
    intro i hi
    rw [Nat.add_assoc]
    exact h (k + i) (by omega)
  unfold IdtEntry.load
  rw [show m.word16 a = m'.word16 a from hword16 0 (by omega), hword16 2 (by omega),
      h 4 (by omega), h 5 (by omega), hword16 6 (by omega), hword32 8 (by omega),
      hword32 12 (by omega)]

/-- A descriptor depends on its own eight. -/
theorem load_segment_congr {m' : Memory} (h : ∀ i < 8, m.byte (a + i) = m'.byte (a + i)) :
    GdtEntry.load m a = GdtEntry.load m' a := by
  have hword16 : ∀ k < 7, m.word16 (a + k) = m'.word16 (a + k) := by
    intro k hk
    apply Memory.word16_congr
    intro i hi
    rw [Nat.add_assoc]
    exact h (k + i) (by omega)
  unfold GdtEntry.load
  rw [show m.word16 a = m'.word16 a from hword16 0 (by omega), hword16 2 (by omega),
      h 4 (by omega), h 5 (by omega), h 6 (by omega), h 7 (by omega)]

end Entries

/-! ## §5. The gates. -/

/-- The gate of a stub at `isr`. -/
def gate_to (isr : UInt64) : IdtEntry where
  isr_low := (isr &&& 0xFFFF).toUInt16
  kernel_cs := 0x08
  ist := 0
  attributes := 0x8E
  isr_mid := ((isr >>> 16) &&& 0xFFFF).toUInt16
  isr_high := ((isr >>> 32) &&& 0xFFFFFFFF).toUInt32
  reserved := 0

/-- **The three parts of an address are the address.**  `idt_set_descriptor` cuts it at bits 16 and
    32 and the processor puts it together again; nothing is lost for any of the 2^64 addresses. -/
theorem gate_offset (isr : UInt64) : (gate_to isr).offset = isr := by
  have hlt := isr.toNat_lt
  have hlow : (isr &&& 0xFFFF).toUInt16.toNat = isr.toNat % 2 ^ 16 := by
    rw [UInt64.toNat_toUInt16, UInt64.toNat_and]
    show (isr.toNat &&& 2 ^ 16 - 1) % 2 ^ 16 = _
    rw [Nat.and_two_pow_sub_one_eq_mod, Nat.mod_mod]
  have hmid : ((isr >>> 16) &&& 0xFFFF).toUInt16.toNat = isr.toNat / 2 ^ 16 % 2 ^ 16 := by
    rw [UInt64.toNat_toUInt16, UInt64.toNat_and, UInt64.toNat_shiftRight]
    show (isr.toNat >>> 16 &&& 2 ^ 16 - 1) % 2 ^ 16 = _
    rw [Nat.and_two_pow_sub_one_eq_mod, Nat.mod_mod, Nat.shiftRight_eq_div_pow]
  have hhigh : ((isr >>> 32) &&& 0xFFFFFFFF).toUInt32.toNat = isr.toNat / 2 ^ 32 := by
    rw [UInt64.toNat_toUInt32, UInt64.toNat_and, UInt64.toNat_shiftRight]
    show (isr.toNat >>> 32 &&& 2 ^ 32 - 1) % 2 ^ 32 = _
    rw [Nat.and_two_pow_sub_one_eq_mod, Nat.mod_mod, Nat.shiftRight_eq_div_pow]
    omega
  unfold IdtEntry.offset gate_to
  dsimp only
  rw [hlow, hmid, hhigh, ← UInt64.toNat_inj, UInt64.toNat_ofNat']
  omega

section Gates

variable {idt : UInt64} {stub_address : ℕ → UInt64} {c : Core}

/-- The first `n` entries of the table lead to the stubs; nothing else has changed.  This is the
    invariant of the loop of `idt_initialize`. -/
structure Filled (idt : UInt64) (stub_address : ℕ → UInt64) (n : ℕ) (c c' : Core) : Prop where
  gates : ∀ k < n, IdtEntry.load c'.memory (idt.toNat + 16 * k) = gate_to (stub_address k)
  vectors : ∀ k < n, c'.vectors k = true
  others : ∀ b, b < idt.toNat ∨ idt.toNat + 16 * n ≤ b → c'.memory.byte b = c.memory.byte b
  rest : { c' with memory := c.memory, vectors := c.vectors } = c

/-- Every round fills the next entry and leaves the others as they were.  By induction on the
    rounds.  The vector is a byte, so there is room for 256 rounds and the 32 of the source do not
    wrap. -/
theorem set_stubs_filled (idt : UInt64) (stub_address : ℕ → UInt64) (c : Core) (n : ℕ)
    (hn : n ≤ 256) : Filled idt stub_address n c (set_stubs idt stub_address c n) := by
  induction n with
  | zero =>
    exact ⟨fun k hk => absurd hk (Nat.not_lt_zero k), fun k hk => absurd hk (Nat.not_lt_zero k),
      fun _ _ => rfl, rfl⟩
  | succ n ih =>
    obtain ⟨hgates, hvectors, hothers, hrest⟩ := ih (by omega)
    have hvector : (UInt8.ofNat n).toNat = n := by
      rw [UInt8.toNat_ofNat']
      omega
    have hmem : (set_stubs idt stub_address c (n + 1)).memory
        = (gate_to (stub_address n)).store (set_stubs idt stub_address c n).memory
            (idt.toNat + 16 * n) := by
      show idt_set_descriptor idt _ _ _ _ = _
      unfold idt_set_descriptor gate_to
      rw [hvector]
    refine ⟨fun k hk => ?_, fun k hk => ?_, fun b hb => ?_, ?_⟩
    · rw [hmem]
      -- the gates are 16 bytes apart
      rcases Nat.lt_succ_iff_lt_or_eq.mp hk with hlt | rfl
      · -- an older gate is not touched
        rw [← hgates k hlt]
        apply load_entry_congr
        intro i hi
        exact byte_store_entry_other _ (by omega)
      · exact load_store_entry _ _ _
    · show (if k = n then true else (set_stubs idt stub_address c n).vectors k) = true
      split_ifs
      · rfl
      · exact hvectors k (by omega)
    · rw [hmem, byte_store_entry_other _ (by omega)]
      exact hothers b (by omega)
    · exact hrest

/-- What the table holds, loaded as the five descriptors. -/
def GdtAt (m : Memory) (gdt : UInt64) : Prop :=
  ∀ i (h : i < gdt_table.length), GdtEntry.load m (gdt.toNat + 8 * i) = gdt_table[i]

/-- The gate of a stub leads to it, through the code segment of the kernel: every check of the
    processor is met. -/
theorem enter_gate_to {v : UInt8} {isr : UInt64}
    (hlimit : 16 * v.toNat + 15 ≤ c.idtr_limit.toNat)
    (hgate : IdtEntry.load c.memory (c.idtr_base.toNat + 16 * v.toNat) = gate_to isr)
    (hsize : c.gdtr_limit.toNat = 39) (hgdt : GdtAt c.memory c.gdtr_base) :
    enter c v = some { rip := isr, cs := 0x08, ist := 0, interrupts := false } := by
  have hsegment := hgdt 1 (by decide)
  have hindex : (gate_to isr).kernel_cs.toNat / 8 = 1 := by
    show (0x08 : UInt16).toNat / 8 = 1
    decide
  have hgood : ((gate_to isr).is_interrupt_gate && (gate_to isr).present
      && (gate_to isr).kernel_cs &&& 4 == 0) = true := by
    show (((0x8E : UInt8) &&& 0x1F == 0x0E) && ((0x8E : UInt8) &&& 0x80 != 0)
      && ((0x08 : UInt16) &&& 4 == 0)) = true
    decide
  unfold enter
  rw [if_pos hlimit, hgate]
  dsimp only
  rw [hindex, hsegment, hsize, gate_offset, hgood, if_pos (by decide)]
  show some (Entry.mk isr ((0x08 : UInt16) &&& 0xFFFC) ((0 : UInt8) &&& 7) false) = _
  rw [show (0x08 : UInt16) &&& 0xFFFC = 0x08 by decide, show (0 : UInt8) &&& 7 = 0 by decide]

/-- The bytes of `gdt_table`. -/
def gdt_bytes : List UInt8 :=
  [0, 0, 0, 0, 0, 0, 0, 0,
   0xFF, 0xFF, 0, 0, 0, 0x9A, 0xA0, 0,
   0xFF, 0xFF, 0, 0, 0, 0x92, 0xA0, 0,
   0xFF, 0xFF, 0, 0, 0, 0xF2, 0xC0, 0,
   0xFF, 0xFF, 0, 0, 0, 0xFA, 0xA0, 0]

/-- Before both initialisations, with the descriptors at 0x800. -/
def boot_core : Core where
  gdtr_limit := 0
  gdtr_base := 0
  idtr_limit := 0
  idtr_base := 0
  cs := 0
  data_segments := 0
  interrupts := false
  vectors := fun _ => false
  memory := ⟨fun a => if 0x800 ≤ a then gdt_bytes.getD (a - 0x800) 0 else 0, []⟩

section Initialized

variable (idt gdt : UInt64) (stub_address : ℕ → UInt64) (c : Core)

/-- What the loop of `idt_initialize` leaves behind. -/
theorem initialized_filled :
    Filled idt stub_address 32 { gdt_initialize gdt c with interrupts := false }
      (set_stubs idt stub_address { gdt_initialize gdt c with interrupts := false } 32) :=
  set_stubs_filled idt stub_address _ 32 (by decide)

/-- No byte outside the array has changed. -/
theorem initialized_other {b : ℕ} (hb : b < idt.toNat ∨ idt.toNat + 512 ≤ b) :
    (Cpu.idt_initialize idt stub_address (Cpu.gdt_initialize gdt c)).memory.byte b
      = c.memory.byte b := by
  obtain ⟨-, -, hothers, -⟩ := initialized_filled idt gdt stub_address c
  unfold idt_initialize
  dsimp only
  rw [hothers b hb]
  rfl

/-- An exception goes to its stub, when the two tables are apart. -/
theorem enter_stub {c : Core} (hgdt : GdtAt c.memory gdt)
    (hapart : gdt.toNat + 40 ≤ idt.toNat ∨ idt.toNat + 512 ≤ gdt.toNat) {v : UInt8}
    (hv : v.toNat < 32) :
    enter (Cpu.idt_initialize idt stub_address (Cpu.gdt_initialize gdt c)) v
      = some { rip := stub_address v.toNat, cs := 0x08, ist := 0, interrupts := false } := by
  have hother := fun b hb => initialized_other idt gdt stub_address c (b := b) hb
  obtain ⟨hgates, -, -, hrest⟩ := initialized_filled idt gdt stub_address c
  unfold idt_initialize at hother ⊢
  dsimp only at hother ⊢
  -- what the loop leaves
  generalize set_stubs idt stub_address { gdt_initialize gdt c with interrupts := false } 32 = d
    at hgates hother hrest ⊢
  have hsize : d.gdtr_limit = 39 := congrArg Core.gdtr_limit hrest
  have hbase : d.gdtr_base = gdt := congrArg Core.gdtr_base hrest
  refine enter_gate_to ?_ (hgates v.toNat hv) (congrArg UInt16.toNat hsize) ?_
  · show 16 * v.toNat + 15 ≤ 511
    omega
  · -- the descriptors are where they were
    show GdtAt d.memory d.gdtr_base
    rw [hbase]
    intro i hi
    rw [← hgdt i hi]
    have hi' : i < 5 := hi
    apply load_segment_congr
    intro j hj
    exact hother _ (by omega)

/-- Every other vector is beyond the limit. -/
theorem enter_beyond {v : UInt8} (hv : ¬ v.toNat < 32) :
    enter (Cpu.idt_initialize idt stub_address (Cpu.gdt_initialize gdt c)) v = none := by
  unfold enter
  rw [if_neg]
  show ¬ 16 * v.toNat + 15 ≤ 511
  omega

/-- **Exactly the exceptions are delivered, each to its stub.**  After `gdt_initialize` and
    `idt_initialize` the processor finds the stub's address for the first 32 vectors, in the code
    segment of the kernel and with interrupts off, and faults on every other one; no byte outside
    the array has changed.  `gdt` and `idt` are where the two arrays lie, which must not overlap. -/
theorem exceptions_enter (hgdt : GdtAt c.memory gdt)
    (hapart : gdt.toNat + 40 ≤ idt.toNat ∨ idt.toNat + 512 ≤ gdt.toNat) :
    (∀ v : UInt8, enter (Cpu.idt_initialize idt stub_address (Cpu.gdt_initialize gdt c)) v
        = if v.toNat < 32 then
            some { rip := stub_address v.toNat, cs := 0x08, ist := 0, interrupts := false }
          else none)
      ∧ ∀ b, b < idt.toNat ∨ idt.toNat + 512 ≤ b →
          (Cpu.idt_initialize idt stub_address (Cpu.gdt_initialize gdt c)).memory.byte b
            = c.memory.byte b := by
  refine ⟨fun v => ?_, fun b hb => initialized_other idt gdt stub_address c hb⟩
  split_ifs with hv
  · exact enter_stub idt gdt stub_address hgdt hapart hv
  · exact enter_beyond idt gdt stub_address c hv

/-- A page fault goes to its stub, the vector after the last exception nowhere. -/
theorem exceptions_enter_page_fault :
    enter (Cpu.idt_initialize 0x1000 (fun v => UInt64.ofNat (0x100000 + 16 * v))
        (Cpu.gdt_initialize 0x800 boot_core)) 14
        = some { rip := 0x1000E0, cs := 0x08, ist := 0, interrupts := false }
      ∧ enter (Cpu.idt_initialize 0x1000 (fun v => UInt64.ofNat (0x100000 + 16 * v))
        (Cpu.gdt_initialize 0x800 boot_core)) 32 = none := by
  obtain ⟨henter, -⟩ := exceptions_enter 0x1000 0x800
    (fun v => UInt64.ofNat (0x100000 + 16 * v)) boot_core (by unfold GdtAt; decide +kernel)
    (by decide)
  exact ⟨henter 14, henter 32⟩

end Initialized

end Gates

end Hippos.Cpu
