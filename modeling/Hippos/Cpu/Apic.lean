/-
  Hippos.Cpu.Apic — the local APIC, `arch/x86_64/cpu/apic.c`.

  IA32_APIC_BASE is a 64-bit register reached through two 32-bit halves: its base field is bits 12
  and up, bit 11 enables the APIC.  The setter masks the address with `0xfffff0000`, one digit
  wider than the getter's `0xfffff000`, and so loses four bits of the base.

  `apic_initialize` reads the base the firmware chose and sets it again to turn the APIC on.  The
  intention is that the APIC stays where it is; what is written instead, and for which addresses
  that makes no difference, follows from the two masks and the cut to 32 bits.

  Main results:
    * `set_apic_base_msr` — the register after the setter, as a number.
    * `apic_base_iff` — the addresses that survive setting and getting, and the bases that survive
      being set again.
    * `apic_moves_from_fee01000` — an APIC that boot moves away.
-/
import Hippos.Lib.ByteMemory
import Hippos.Lib.FieldMask

namespace Hippos.Cpu

open Hippos.Lib

/-! ## §1. The processor. -/

/-- The ports and initialisation words of the two 8259 controllers, as `apic.h` defines them; they
    are written once, in `apic_initialize`, and read by no proof. -/
def PIC_MASTER : UInt16 := 0x20
def PIC_SLAVE : UInt16 := 0xA0
def PIC_MASTER_COMMAND : UInt16 := PIC_MASTER
def PIC_MASTER_DATA : UInt16 := PIC_MASTER + 1
def PIC_SLAVE_COMMAND : UInt16 := PIC_SLAVE
def PIC_SLAVE_DATA : UInt16 := PIC_SLAVE + 1
def PIC_ICW1 : UInt8 := 0x11
def PIC_ICW2_MASTER : UInt8 := 0x20
def PIC_ICW2_SLAVE : UInt8 := 0x28
def PIC_ICW3_MASTER : UInt8 := 0x2
def PIC_ICW3_SLAVE : UInt8 := 0x4
def PIC_ICW4 : UInt8 := 0x01

def IA32_APIC_BASE_MSR : UInt32 := 0x1B
/-- Bit 11 of the register, the global enable flag. -/
def IA32_APIC_BASE_MSR_ENABLE : UInt64 := 0x800
/-- Offset of the spurious interrupt vector register from the base of the APIC. -/
def LAPIC_SPURIOUS : UInt64 := 0x0F0

/-- What the functions of `apic.c` read and write: the model specific registers, the port writes so
    far (oldest first), memory, and the global `apic_base`. -/
structure Processor where
  msr : UInt32 → UInt64
  ports : List (UInt16 × UInt8)
  memory : Memory
  apic_base : UInt64

def outb (c : Processor) (port : UInt16) (val : UInt8) : Processor :=
  { c with ports := c.ports ++ [(port, val)] }

/-- `rdmsr` leaves the low half in `eax` and the high half in `edx`. -/
def cpu_get_msr (c : Processor) (msr : UInt32) : UInt32 × UInt32 :=
  ((c.msr msr).toUInt32, (c.msr msr >>> 32).toUInt32)

/-- `wrmsr` puts a register together from the same two halves and leaves the others alone. -/
def cpu_set_msr (c : Processor) (msr lo hi : UInt32) : Processor :=
  { c with msr := fun r => if r = msr then hi.toUInt64 <<< 32 ||| lo.toUInt64 else c.msr r }

/-! ## §2. `apic.c`. -/

/-- The setter.  The 36-bit mask applies to the 64-bit address, then the result is cut to
    `uint32_t`: of the 20 bits the mask lets through only the lower 16 are left. -/
def cpu_set_apic_base (c : Processor) (apic : UInt64) : Processor :=
  -- without physical address extension the upper half of the address is dropped
  let edx : UInt32 := 0
  let eax : UInt32 := (apic &&& 0xfffff0000 ||| IA32_APIC_BASE_MSR_ENABLE).toUInt32
  cpu_set_msr c IA32_APIC_BASE_MSR eax edx

/-- The getter, compiled without `__PHYSICAL_MEMORY_EXTENSION__`, which nothing defines: bits 12 to
    31 of the register, and nothing of the upper half. -/
def cpu_get_apic_base (c : Processor) : UInt64 :=
  let (eax, _) := cpu_get_msr c IA32_APIC_BASE_MSR
  (eax &&& 0xfffff000).toUInt64

/-- `apic_initialize`, in the order of the source; `check_apic` and `check_msr` are what `cpuid`
    answers.  Without an APIC or model specific registers it gives up and leaves everything as it
    was. -/
def apic_initialize (check_apic check_msr : Bool) (g_hhdm_offset : UInt64) (c : Processor) :
    Processor :=
  if !check_apic then c
  else if !check_msr then c
  else
    -- Disable the 8259 PIC
    let c := outb c PIC_MASTER_COMMAND PIC_ICW1
    let c := outb c PIC_SLAVE_COMMAND PIC_ICW1
    let c := outb c PIC_MASTER_DATA PIC_ICW2_MASTER
    let c := outb c PIC_SLAVE_DATA PIC_ICW2_SLAVE
    let c := outb c PIC_MASTER_DATA PIC_ICW3_MASTER
    let c := outb c PIC_SLAVE_DATA PIC_ICW3_SLAVE
    let c := outb c PIC_MASTER_DATA PIC_ICW4
    let c := outb c PIC_SLAVE_DATA PIC_ICW4
    let c := outb c PIC_MASTER_DATA 0xFF
    let c := outb c PIC_SLAVE_DATA 0xFF
    -- Hardware enable local APIC: the base is read and written back
    let c := { c with apic_base := cpu_get_apic_base c }
    let c := cpu_set_apic_base c c.apic_base
    -- the register is written through the direct map, at the address that was read
    let addr := g_hhdm_offset + c.apic_base + LAPIC_SPURIOUS
    { c with memory := c.memory.store32 addr.toNat 0xFF }

/-! ## §3. The base field. -/

/-- Bits 12 and up of IA32_APIC_BASE: where the processor has the APIC, whatever the kernel's getter
    makes of it. -/
def base_field (c : Processor) : UInt64 := c.msr IA32_APIC_BASE_MSR >>> 12 <<< 12

/-- Bit 11 of the register: whether the APIC is on. -/
def enabled (c : Processor) : Bool := c.msr IA32_APIC_BASE_MSR &&& IA32_APIC_BASE_MSR_ENABLE != 0

/-- As a number, the base is the register rounded down to a page. -/
theorem base_field_toNat (c : Processor) :
    (base_field c).toNat = (c.msr IA32_APIC_BASE_MSR).toNat / 4096 * 4096 := by
  have hlt := (c.msr IA32_APIC_BASE_MSR).toNat_lt
  rw [base_field, UInt64.toNat_shiftLeft, UInt64.toNat_shiftRight]
  simp only [UInt64.reduceToNat, Nat.shiftLeft_eq, Nat.shiftRight_eq_div_pow, Nat.reduceMod,
    Nat.reducePow]
  omega

/-- The getter sees the base field cut to 32 bits, so it is right below 4 GiB. -/
theorem get_apic_base_toNat (c : Processor) :
    (cpu_get_apic_base c).toNat = (base_field c).toNat % 2 ^ 32 := by
  show ((c.msr IA32_APIC_BASE_MSR).toUInt32 &&& 0xfffff000).toUInt64.toNat = _
  rw [base_field_toNat, UInt32.toNat_toUInt64, UInt32.toNat_and, UInt64.toNat_toUInt32]
  show (c.msr IA32_APIC_BASE_MSR).toNat % 2 ^ 32 &&& 2 ^ 12 * (2 ^ 20 - 1) = _
  rw [and_field]
  omega

/-- **What the setter writes**: bits 16 to 31 of the address, and the enable bit.  The mask of the
    source starts at bit 16, so bits 12 to 15 are lost, and the upper half of the register is
    written as 0.  Everything below is read off from this number. -/
theorem set_apic_base_msr (c : Processor) (apic : UInt64) :
    ((cpu_set_apic_base c apic).msr IA32_APIC_BASE_MSR).toNat
      = 2 ^ 16 * (apic.toNat / 2 ^ 16 % 2 ^ 16) + 2 ^ 11 := by
  -- the mask keeps 20 bits, from bit 16 on
  have hmask : apic.toNat &&& 0xfffff0000 = 2 ^ 16 * (apic.toNat / 2 ^ 16 % 2 ^ 20) :=
    and_field apic.toNat 16 20
  have heax : (apic &&& 0xfffff0000 ||| IA32_APIC_BASE_MSR_ENABLE).toUInt32.toNat
      = 2 ^ 16 * (apic.toNat / 2 ^ 16 % 2 ^ 16) + 2 ^ 11 := by
    rw [UInt64.toNat_toUInt32, UInt64.toNat_or, UInt64.toNat_and]
    -- the cut to 32 bits takes off the upper four of the 20
    show ((apic.toNat &&& 0xfffff0000) ||| 2 ^ 11) % 2 ^ 32 = _
    rw [hmask, or_bit_below (by omega)]
    omega
  -- the upper half that `wrmsr` adds is zero
  have hzero : (0 : UInt32).toUInt64 <<< 32 = 0 := by decide
  unfold cpu_set_apic_base cpu_set_msr
  dsimp only
  rw [if_pos rfl, hzero, UInt64.zero_or, UInt32.toNat_toUInt64, heax]

/-- So the base that is set has nothing outside bits 16 to 31. -/
theorem set_apic_base_field (c : Processor) (apic : UInt64) :
    (base_field (cpu_set_apic_base c apic)).toNat = 2 ^ 16 * (apic.toNat / 2 ^ 16 % 2 ^ 16) := by
  rw [base_field_toNat, set_apic_base_msr]
  omega

/-- And the APIC is on, whatever the address. -/
theorem set_apic_base_enabled (c : Processor) (apic : UInt64) :
    enabled (cpu_set_apic_base c apic) = true := by
  have hbit : ((cpu_set_apic_base c apic).msr IA32_APIC_BASE_MSR
      &&& IA32_APIC_BASE_MSR_ENABLE).toNat = 2 ^ 11 := by
    rw [UInt64.toNat_and, set_apic_base_msr]
    show (2 ^ 16 * (apic.toNat / 2 ^ 16 % 2 ^ 16) + 2 ^ 11) &&& 2 ^ 11 * (2 ^ 1 - 1) = _
    rw [and_field]
    omega
  rw [enabled, bne_iff_ne, ne_eq, ← UInt64.toNat_inj, hbit]
  decide

/-! ## §4. The round trip. -/

/-- What setting a base promises: after it the register has that base, the APIC is on, and the
    getter returns it. -/
structure RoundTrip (c : Processor) (a : UInt64) : Prop where
  base : base_field (cpu_set_apic_base c a) = a
  on : enabled (cpu_set_apic_base c a) = true
  read_back : cpu_get_apic_base (cpu_set_apic_base c a) = a

/-- What `apic_initialize` relies on: setting the base to what the getter returns leaves the APIC
    where the firmware put it. -/
def Stays (c : Processor) : Prop :=
  base_field (cpu_set_apic_base c (cpu_get_apic_base c)) = base_field c

/-- **Base addresses survive exactly on 64 KiB boundaries below 4 GiB.**  A base field is a multiple
    of 4 KiB, so one in sixteen of those the hardware allows there comes through. -/
theorem apic_base_iff (c : Processor) (a : UInt64) :
    (RoundTrip c a ↔ a.toNat < 2 ^ 32 ∧ a.toNat % 2 ^ 16 = 0)
      ∧ (Stays c ↔ (base_field c).toNat < 2 ^ 32 ∧ (base_field c).toNat % 2 ^ 16 = 0) := by
  have hfield := set_apic_base_field c a
  refine ⟨⟨?_, ?_⟩, ?_⟩
  · -- the field has nothing outside bits 16 to 31
    intro h
    rw [h.base] at hfield
    omega
  · -- and with nothing outside them the address comes back
    intro hex
    obtain ⟨hlt, hmod⟩ := hex
    refine ⟨?_, set_apic_base_enabled c a, ?_⟩
    · rw [← UInt64.toNat_inj, hfield]
      omega
    · rw [← UInt64.toNat_inj, get_apic_base_toNat, hfield]
      omega
  · -- the getter cuts to 32 bits, the setter takes off four bits at the lower end
    have hget := get_apic_base_toNat c
    rw [Stays, ← UInt64.toNat_inj, set_apic_base_field, hget]
    omega

/-- `apic_initialize` does to the register what setting the value of the getter does: the port
    writes and the store to the APIC leave it alone. -/
theorem apic_initialize_msr (g_hhdm_offset : UInt64) (c : Processor) :
    (Cpu.apic_initialize true true g_hhdm_offset c).msr
      = (cpu_set_apic_base c (cpu_get_apic_base c)).msr := rfl

/-- A processor whose APIC the firmware put at `base`, turned on. -/
def apic_at (base : UInt64) : Processor where
  msr := fun r => if r = IA32_APIC_BASE_MSR then base ||| IA32_APIC_BASE_MSR_ENABLE else 0
  ports := []
  memory := { byte := fun _ => 0, accessed := [] }
  apic_base := 0

/-- An APIC at 0xFEE01000, one page above the usual place, is moved to 0xFEE00000 by
    `apic_initialize`, and cannot be set back: bit 12 is one that the getter reads and the setter
    drops. -/
theorem apic_moves_from_fee01000 :
    (base_field (apic_at 0xFEE01000)).toNat < 2 ^ 32
      ∧ base_field (Cpu.apic_initialize true true 0 (apic_at 0xFEE01000)) = 0xFEE00000
      ∧ ¬ Stays (apic_at 0xFEE01000) ∧ ¬ RoundTrip (apic_at 0xFEE01000) 0xFEE01000 := by
  have hat : base_field (apic_at 0xFEE01000) = 0xFEE01000 := by decide
  have hset : base_field (cpu_set_apic_base (apic_at 0xFEE01000) 0xFEE01000) = 0xFEE00000 := by
    decide
  have hget : cpu_get_apic_base (apic_at 0xFEE01000) = 0xFEE01000 := by decide
  refine ⟨by decide, ?_, ?_, ?_⟩
  · rw [base_field, apic_initialize_msr, hget]
    exact hset
  · intro h
    rw [Stays, hget, hset, hat] at h
    exact absurd h (by decide)
  · intro h
    have hbase := h.base
    rw [hset] at hbase
    exact absurd hbase (by decide)

end Hippos.Cpu
