/-
  Hippos.Mem.Pmm — the physical memory manager, `kernel/arch/x86_64/mem/pmm.c`.

  `PmmBitmap` is `struct pmm_bitmap_t` with the words behind `map` beside the pointer.  The
  functions are the ones of the source, in its order: `pmm_initialize` (count the window, place the
  bitmap, print the map, free the usable entries, reserve page 0), `print_memmap`, `kalloc`,
  `find_first_free_page_range`, `kfree`.

  Addresses and counters are `UInt64` and wrap as they do in C; a loop recurses on the number of
  rounds it has left.  A page number is a bit number, and the three units of the source stay apart
  under its own names: `BIT_TO_PAGE` and `PAGE_TO_BIT` between bits and addresses, `BITS_PER_ROW`
  between bits and words.  Log output is not modelled here; `Hippos.Mem.Report` puts it back.

  The words of the bitmap are storage of their own.  In the kernel they lie in a usable entry, and
  `memset` clears eight times what it takes off that entry; what this does to the memory behind the
  bitmap is the subject of `Hippos.Mem.Placement`, and the passes here go on with the map as the
  bootloader gave it.
-/
import Hippos.Mem.Bitmap

namespace Hippos.Mem

open Hippos.Lib

def NULL : UInt64 := 0

/-- The least multiple of `align`, a power of two, that is not below `address`. -/
def ALIGN_UP (address align : UInt64) : UInt64 := (address + align - 1) &&& ~~~(align - 1)
def BIT_TO_PAGE (bit : UInt64) : UInt64 := bit * PAGE_SIZE
def PAGE_TO_BIT (page : UInt64) : UInt64 := page / PAGE_SIZE

/-! ## §1. The Limine memory map. -/

def LIMINE_MEMMAP_USABLE : UInt64 := 0
def LIMINE_MEMMAP_RESERVED : UInt64 := 1
def LIMINE_MEMMAP_ACPI_RECLAIMABLE : UInt64 := 2
def LIMINE_MEMMAP_ACPI_NVS : UInt64 := 3
def LIMINE_MEMMAP_BAD_MEMORY : UInt64 := 4
def LIMINE_MEMMAP_BOOTLOADER_RECLAIMABLE : UInt64 := 5
def LIMINE_MEMMAP_EXECUTABLE_AND_MODULES : UInt64 := 6
def LIMINE_MEMMAP_FRAMEBUFFER : UInt64 := 7

/-- `struct limine_memmap_entry`. -/
structure LimineMemmapEntry where
  base : UInt64
  length : UInt64
  type : UInt64
  deriving Repr, DecidableEq

/-- The test all three passes of `pmm_initialize` make. -/
def LimineMemmapEntry.usable (e : LimineMemmapEntry) : Bool := e.type == LIMINE_MEMMAP_USABLE

/-! ## §2. `print_memmap`. -/

/-- One printed line. -/
structure MemmapLine where
  base : UInt64
  length : UInt64
  pages : UInt64
  type_buf : String
  deriving Repr, DecidableEq

/-- The `switch` on the entry's type; a type it does not list keeps the empty string. -/
def type_buf (type : UInt64) : String :=
  if type == LIMINE_MEMMAP_USABLE then "USABLE"
  else if type == LIMINE_MEMMAP_RESERVED then "RESERVED"
  else if type == LIMINE_MEMMAP_ACPI_RECLAIMABLE then "ACPI RECLAIMABLE"
  else if type == LIMINE_MEMMAP_ACPI_NVS then "ACPI NVS"
  else if type == LIMINE_MEMMAP_BAD_MEMORY then "BAD MEMORY"
  else if type == LIMINE_MEMMAP_BOOTLOADER_RECLAIMABLE then "BOOTLOADER RECLAIMABLE"
  else if type == LIMINE_MEMMAP_EXECUTABLE_AND_MODULES then "EXECUTABLES & MODULES"
  else if type == LIMINE_MEMMAP_FRAMEBUFFER then "FRAMEBUFFER"
  else ""

/-- What is printed of an entry. -/
def memmap_line (e : LimineMemmapEntry) : MemmapLine :=
  { base := e.base, length := e.length, pages := e.length / PAGE_SIZE,
    type_buf := type_buf e.type }

/-- The printing loop with its `uint8_t` counter, for at most `rounds` rounds: the lines printed,
    or `none` when the loop is still running. -/
def print_memmap_loop (entries : List LimineMemmapEntry) :
    (rounds : ℕ) → (i : UInt8) → Option (List MemmapLine)
  | 0, _ => none
  | rounds + 1, i =>
    match entries[i.toNat]? with
    | none => some []
    | some e => (print_memmap_loop entries rounds (i + 1)).map (memmap_line e :: ·)

/-- After `2^8` rounds the counter has taken every value it has: a loop still running then runs
    forever. -/
def print_memmap (entries : List LimineMemmapEntry) : Option (List MemmapLine) :=
  print_memmap_loop entries (2 ^ 8) 0

/-! ## §3. The allocator's state. -/

/-- `struct pmm_bitmap_t`.  `map` is the pointer the bootloader's offset turns into an address, and
    `storage` is what lies behind it. -/
structure PmmBitmap where
  map : UInt64
  storage : MapStorage
  size : UInt64
  total_pages : UInt64
  used_pages : UInt64
  highest_address : UInt64
  lowest_address : UInt64

/-- The static initialiser of `pmm_bitmap`; `ram` is what memory holds where the bitmap will be.
    The lower end starts at 4 GiB less one, not at the top of the address space. -/
def PmmBitmap.start (ram : WordRows) : PmmBitmap where
  map := NULL
  storage := { word := ram, touched := [] }
  size := 0
  total_pages := 0
  used_pages := 0
  lowest_address := 0xffffffff
  highest_address := 0

/-! ## §4. `kfree`. -/

/-- `for (size_t i = 0; i < rounds; i++) op(&pmm_bitmap, index + i)`, the loop `kalloc` and `kfree`
    share up to `op`. -/
def page_loop (op : MapStorage → UInt64 → MapStorage) (map : MapStorage) (index : UInt64) :
    (rounds : ℕ) → MapStorage
  | 0 => map
  | i + 1 => op (page_loop op map index i) (index + UInt64.ofNat i)

/-- The loop of `kfree`. -/
def free_loop (map : MapStorage) (index : UInt64) (page_count : ℕ) : MapStorage :=
  page_loop bitmap_free map index page_count

/-- The index is computed from the pointer and the pages are freed without a look at them;
    `used_pages` loses as many. -/
def kfree (g_hhdm_offset : UInt64) (p : PmmBitmap) (pointer page_count : UInt64) : PmmBitmap :=
  let index := PAGE_TO_BIT (pointer - g_hhdm_offset - p.lowest_address)
  { p with
    storage := free_loop p.storage index page_count.toNat
    used_pages := p.used_pages - page_count }

/-! ## §5. `find_first_free_page_range`. -/

/-- The look-ahead from `bit_i`: `true` when it reaches its `return`.  `rounds` is what is left
    of `page_count_i < page_count`. -/
def look_ahead (bit_i page_count : UInt64) :
    (rounds : ℕ) → (page_count_i : UInt64) → MapStorage → Bool × MapStorage
  | 0, _, map => (false, map)
  | rounds + 1, page_count_i, map =>
    let (used, map) := bitmap_check map (bit_i + page_count_i)
    if used then (false, map)
    else if page_count_i == page_count - 1 then (true, map)
    else look_ahead bit_i page_count rounds (page_count_i + 1) map

/-- The scan for a first free bit, with `rounds` left of `bit_i < pmm_bitmap.total_pages`. -/
def scan (page_count : UInt64) :
    (rounds : ℕ) → (bit_i : UInt64) → MapStorage → UInt64 × MapStorage
  | 0, _, map => (NULL, map)
  | rounds + 1, bit_i, map =>
    let (used, map) := bitmap_check map bit_i
    if used then scan page_count rounds (bit_i + 1) map
    else
      let (found, map) := look_ahead bit_i page_count page_count.toNat 0 map
      if found then (BIT_TO_PAGE bit_i, map)
      else scan page_count rounds (bit_i + 1) map

/-- The search starts at bit 0 and looks at `total_pages` bits.  It answers 0 when it finds nothing,
    which is the answer for page 0 as well. -/
def find_first_free_page_range (p : PmmBitmap) (page_count : UInt64) : UInt64 × MapStorage :=
  scan page_count p.total_pages.toNat 0 p.storage

/-! ## §6. `kalloc`. -/

/-- The marking loop of `kalloc`. -/
def use_loop (map : MapStorage) (index : UInt64) (page_count : ℕ) : MapStorage :=
  page_loop bitmap_use map index page_count

/-- `none` stands for the two `return NULL` of the source.  The pointer of a block is a sum of
    64-bit words and can be 0 like any other; `kalloc_value` is what the caller sees. -/
def kalloc (g_hhdm_offset : UInt64) (p : PmmBitmap) (page_count : UInt64) :
    Option UInt64 × PmmBitmap :=
  if p.used_pages ≥ p.total_pages then (none, p)
  else
    let (pointer, map) := find_first_free_page_range p page_count
    if pointer == NULL then (none, { p with storage := map })
    else
      let index := PAGE_TO_BIT pointer
      (some (p.lowest_address + BIT_TO_PAGE index + g_hhdm_offset),
        { p with
          storage := use_loop map index page_count.toNat
          used_pages := p.used_pages + page_count })

/-! ## §7. `pmm_initialize`. -/

/-- One round of the first pass. -/
def count_entry (p : PmmBitmap) (e : LimineMemmapEntry) : PmmBitmap :=
  if e.usable then
    let current_page_top := e.base + e.length
    let p := if current_page_top > p.highest_address
      then { p with highest_address := current_page_top } else p
    if e.base < p.lowest_address then { p with lowest_address := e.base } else p
  else p

/-- The first pass and the two sizes computed from it.  `size` is the number of rows, rounded up to
    a multiple of 4096, and the next pass takes it for a number of bytes. -/
def count_memory (p : PmmBitmap) (entries : List LimineMemmapEntry) : PmmBitmap :=
  let p := entries.foldl count_entry p
  let p := { p with total_pages := (p.highest_address - p.lowest_address) / PAGE_SIZE }
  { p with size := ALIGN_UP (p.total_pages / BITS_PER_ROW) PAGE_SIZE }

/-- The number of bytes the placement hands to `memset`. -/
def memset_size (p : PmmBitmap) : UInt64 := p.size * 8

/-- `memset(pmm_bitmap.map, USED, bytes)`, by rows of eight bytes. -/
def memset_used (map : MapStorage) (bytes : UInt64) : MapStorage :=
  { map with word := fun r => if r < bytes.toNat / 8 then 0xFFFFFFFFFFFFFFFF else map.word r }

/-- The test of the placement loop. -/
def suitable (p : PmmBitmap) (e : LimineMemmapEntry) : Bool := e.usable && e.length ≥ p.size

/-- The bitmap goes to the start of `e` with every bit USED.  Its pages are taken off the total, and
    all that remain count as used. -/
def nestle (g_hhdm_offset : UInt64) (p : PmmBitmap) (e : LimineMemmapEntry) : PmmBitmap :=
  { p with
    map := e.base + g_hhdm_offset
    storage := memset_used p.storage (memset_size p)
    total_pages := p.total_pages - p.size / PAGE_SIZE
    used_pages := p.total_pages - p.size / PAGE_SIZE }

/-- What the placement leaves of the entry it chose. -/
def carve (p : PmmBitmap) (e : LimineMemmapEntry) : LimineMemmapEntry :=
  { e with base := e.base + p.size, length := e.length - p.size }

/-- The second pass: the first suitable entry takes the bitmap and is shortened.  Where none is
    suitable `map` stays NULL. -/
def place_bitmap (g_hhdm_offset : UInt64) (p : PmmBitmap) :
    List LimineMemmapEntry → PmmBitmap × List LimineMemmapEntry
  | [] => (p, [])
  | e :: es =>
    if suitable p e then (nestle g_hhdm_offset p e, carve p e :: es)
    else
      let (p', es') := place_bitmap g_hhdm_offset p es
      (p', e :: es')

/-- One round of the last pass. -/
def free_entry (g_hhdm_offset : UInt64) (p : PmmBitmap) (e : LimineMemmapEntry) : PmmBitmap :=
  if e.usable then kfree g_hhdm_offset p (e.base + g_hhdm_offset) (e.length / PAGE_SIZE)
  else p

/-- Why `pmm_initialize` may never come back. -/
inductive Stuck where
  /-- `hcf()`: no entry can hold the bitmap. -/
  | hcf
  /-- `print_memmap` runs forever. -/
  | print_memmap
  deriving Repr, DecidableEq

/-- The three passes, with `print_memmap` between the second and the third, and the reservation of
    page 0 at the end.  The bitmap is storage of its own: that `memset` may reach into memory that
    is read later, the bootloader's map among it, is no part of this definition. -/
def pmm_initialize (g_hhdm_offset : UInt64) (ram : WordRows) (entries : List LimineMemmapEntry) :
    Except Stuck PmmBitmap :=
  let p := count_memory (PmmBitmap.start ram) entries
  -- from here on the chosen entry is shorter
  let (p, entries) := place_bitmap g_hhdm_offset p entries
  if p.map == NULL then .error .hcf
  else
    match print_memmap entries with
    | none => .error .print_memmap
    | some _ =>
      let p := entries.foldl (free_entry g_hhdm_offset) p
      -- Reserve page 0 for null pointer
      .ok { p with storage := bitmap_use p.storage 0 }

end Hippos.Mem
