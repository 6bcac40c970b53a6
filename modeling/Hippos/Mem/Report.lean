/-
  Hippos.Mem.Report — what the page allocator tells the log, `mem/pmm.c`.

  `pmm_initialize` reports what it finds, through formats and the numbers of the memory map.  A `%d`
  reads the low half of a 64-bit number as an `int`, and only the least of these fails: `-value` has
  no value of its type, and C leaves the call undefined.  For which maps that happens is read off
  the numbers.

  The report is a list of events in the order of the source, as far as a number of rounds of
  `print_memmap`'s loop: where that loop runs for ever, the report of every number of rounds is a
  beginning of what is logged.  As in `Hippos.Mem.Pmm` the bitmap is a storage of its own: what
  `memset` and the marking of pages write is read neither as the memory map nor as a buffer of the
  log.

  Main results:
    * `pmm_initialize_report_told` — the numbers that decide whether the report has a text.
    * `prints_for_ever_iff` — the report grows without end exactly when boot hangs on the map.
    * `pmm_initialize_reports` — no undefined behaviour in the log of boot, exactly when every
      number printed with `%d` has a negation.
    * `usable_memory_said_iff` — the first line is true up to 2 GiB.
-/
import Hippos.Log.Klog
import Hippos.Libc.Directive
import Hippos.Libc.ReadBack
import Hippos.Mem.Boot

namespace Hippos.Mem

open Hippos.Lib
open Hippos.Libc.Printf
open Hippos.Log

variable {V : Type}

/-! ## §1. The messages. -/

/-- `ULOG_DEBUG(…)`, `ULOG_INFO(…)` and `ULOG_CRITICAL(…)`. -/
def message (severity : UInt32) (fmt : String) (va : List (VaArg V)) : Event V :=
  .log (.message severity (literal fmt ++ [0]) va)

/-- What `pmm_initialize` reports of the first pass. -/
def count_report (p : PmmBitmap) : List (Event V) :=
  [message ULOG_INFO_LEVEL "Total usable memory: %d bytes, or %d pages available"
      [.word (p.highest_address - p.lowest_address), .word p.total_pages],
    message ULOG_INFO_LEVEL "Highest usable address at memory 0x%08x, lowest at 0x%08x."
      [.word p.highest_address, .word p.lowest_address]]

/-- What it reports of the entry it takes for the bitmap. -/
def place_report (p : PmmBitmap) (entries : List LimineMemmapEntry) : List (Event V) :=
  match entries.find? (suitable p) with
  | none => []
  | some e =>
    [message ULOG_DEBUG_LEVEL "Current PMM Bitmap stored between 0x%.8lx and 0x%.8lx."
      [.word e.base, .word (e.base + p.size - 1)]]

/-- One round of `print_memmap`. -/
def print_entry (e : LimineMemmapEntry) : List (Event V) :=
  (if e.type == LIMINE_MEMMAP_USABLE then [.set_text_color COLORS_GREEN] else [])
    ++ [.printf (literal "[*] Base 0x%08x | Length 0x%08x (%8d pages) | %s.\n" ++ [0])
          [.word e.base, .word e.length, .word (e.length / PAGE_SIZE),
            .string (literal (type_buf e.type) ++ [0])],
        .reset_text_color]

/-- What `print_memmap`'s loop, with its `uint8_t` counter at `i`, prints in at most `rounds`
    rounds, and whether it has come to its end by then. -/
def print_loop_report (entries : List LimineMemmapEntry) :
    (rounds : ℕ) → (i : UInt8) → List (Event V) × Bool
  | 0, _ => ([], false)
  | rounds + 1, i =>
    match entries[i.toNat]? with
    | none => ([], true)
    | some e =>
      let (events, ended) := print_loop_report entries rounds (i + 1)
      (print_entry e ++ events, ended)

/-- The line before the loop.  `entry_count` is a `uint64_t`, as the number of entries fits one. -/
def found_report (entries : List LimineMemmapEntry) : Event V :=
  message ULOG_INFO_LEVEL "Memory: Found %d memory entries from Limine."
    [.word (UInt64.ofNat entries.length)]

/-- What `kfree` reports before it frees anything. -/
def kfree_report (g_hhdm_offset : UInt64) (p : PmmBitmap) (pointer page_count : UInt64) :
    Event V :=
  message ULOG_DEBUG_LEVEL "Freeing %d pages starting at index %d"
    [.word page_count, .word (PAGE_TO_BIT (pointer - g_hhdm_offset - p.lowest_address))]

/-- The last pass. -/
def free_report (g_hhdm_offset : UInt64) : PmmBitmap → List LimineMemmapEntry → List (Event V)
  | _, [] => []
  | p, e :: entries =>
    (if e.usable then [kfree_report g_hhdm_offset p (e.base + g_hhdm_offset) (e.length / PAGE_SIZE)]
      else []) ++ free_report g_hhdm_offset (free_entry g_hhdm_offset p e) entries

/-- The last line. -/
def done_report (p : PmmBitmap) : Event V :=
  message ULOG_INFO_LEVEL "Bitmap created with size %d. Used %d/%d pages"
    [.word p.size, .word p.used_pages, .word p.total_pages]

/-- What follows the printing of the map. -/
def rest_report (g_hhdm_offset : UInt64) (p : PmmBitmap) (entries : List LimineMemmapEntry) :
    List (Event V) :=
  free_report g_hhdm_offset p entries
    ++ [done_report (entries.foldl (free_entry g_hhdm_offset) p)]

/-- From the printing of the map on, as far as `rounds` rounds of the loop go: what follows it is
    there only when it has ended. -/
def map_report (g_hhdm_offset : UInt64) (p : PmmBitmap) (entries : List LimineMemmapEntry)
    (rounds : ℕ) : List (Event V) :=
  let (printed, ended) := print_loop_report entries rounds 0
  found_report entries
    :: (printed ++ if ended then rest_report g_hhdm_offset p entries else [])

/-- What `pmm_initialize` has logged and printed, in order, by the time it comes back, reaches
    `hcf()`, or has made `rounds` rounds of the loop that prints the map. -/
def pmm_initialize_report (g_hhdm_offset : UInt64) (ram : WordRows)
    (entries : List LimineMemmapEntry) (rounds : ℕ) : List (Event V) :=
  let p := count_memory (PmmBitmap.start ram) entries
  let placed := place_bitmap g_hhdm_offset p entries
  count_report p ++ (place_report p entries
    ++ if placed.1.map == NULL then
        [message ULOG_CRITICAL_LEVEL "Critical, Could not allocate bitmap in RAM." []]
      else map_report g_hhdm_offset placed.1 placed.2 rounds)

/-! ## §2. Formats that can fail on a number. -/

/-- As an `int`, the number has a negation. -/
def Negatable (n : UInt64) : Prop := n.toUInt32 ≠ 0x80000000

instance (n : UInt64) : Decidable (Negatable n) := inferInstanceAs (Decidable (_ ≠ _))

/-- **The format has a text exactly when these numbers have negations.**  The format is given by its
    items, so that texts and directives can be put in front one by one. -/
def Needs (fp : FloatFormat V) (format : List UInt8) (va : List (VaArg V)) (ns : List UInt64) :
    Prop :=
  ∃ items, format_text items = format
    ∧ ((∃ text, run fp items va = .ok text) ↔ ∀ n ∈ ns, Negatable n)

section Formats

variable {fp : FloatFormat V} {format : List UInt8} {va : List (VaArg V)} {ns : List UInt64}

/-- An empty format needs nothing. -/
theorem Needs.nil : Needs fp [] va [] :=
  ⟨[], rfl, fun _ _ h => absurd h List.not_mem_nil, fun _ => ⟨[], rfl⟩⟩

/-- Characters that stand for themselves need nothing. -/
theorem Needs.plain {s : List UInt8} (hs : ∀ c ∈ s, c ≠ 0 ∧ c ≠ 0x25) (h : Needs fp format va ns) :
    Needs fp (s ++ format) va ns := by
  obtain ⟨items, hformat, hiff⟩ := h
  obtain ⟨front, hfront, hrun⟩ := run_plain_items fp hs
  refine ⟨front ++ items, ?_, ?_⟩
  · rw [format_text_append, hfront, hformat]
  · rw [← hiff, hrun]
    cases run fp items va with
    | ok text => exact iff_of_true ⟨s ++ text, rfl⟩ ⟨text, rfl⟩
    | error e => exact iff_of_false (not_ok_error e) (not_ok_error e)

/-- The end of a format. -/
theorem Needs.literal {s : String} (hs : is_plain s = true) :
    Needs fp (Libc.Printf.literal s) va [] := by
  have h : Needs fp (Libc.Printf.literal s ++ []) va [] := .plain (is_plain_char hs) .nil
  rw [List.append_nil] at h
  exact h

/-- A directive for one argument, with what it needs itself.  `hmeaning` and `htext` say that it
    takes the first argument and no other; the rest of the format finds the rest of the
    arguments. -/
theorem Needs.directive (spec : Spec) (d : Directive) {v : VaArg V}
    {text : Except Fault (List UInt8)} {own : List UInt64}
    (hmeaning : ∀ va : List (VaArg V), spec.meaning va = .ok (d, va))
    (htext : ∀ va, specifier_text fp spec.conversion d (v :: va) = text.map fun s => (s, va))
    (hown : (∃ s, text = .ok s) ↔ ∀ n ∈ own, Negatable n) (h : Needs fp format va ns) :
    Needs fp ((Item.directive spec).text ++ format) (v :: va) (own ++ ns) := by
  obtain ⟨items, hformat, hiff⟩ := h
  refine ⟨.directive spec :: items, ?_, ?_⟩
  · rw [← hformat]
    rfl
  · rw [List.forall_mem_append, ← hown, ← hiff, run, hmeaning, ok_bind]
    dsimp only
    rw [htext]
    -- a directive that fails keeps the format from having a text, whatever follows
    cases text with
    | error e =>
      exact iff_of_false (not_ok_error e) fun h => not_ok_error e h.1
    | ok s =>
      show (∃ text, (run fp items va >>= _) = Except.ok text) ↔ _
      cases run fp items va with
      | ok rest => exact iff_of_true ⟨s ++ rest, rfl⟩ ⟨⟨s, rfl⟩, ⟨rest, rfl⟩⟩
      | error e => exact iff_of_false (not_ok_error e) fun h => not_ok_error e h.2

/-- An integer conversion takes a word. -/
theorem specifier_integer (fp : FloatFormat V) {c : UInt8} (hc : c = 0x64 ∨ c = 0x78)
    (d : Directive) (v : UInt64) (va : List (VaArg V)) :
    specifier_text fp c d (.word v :: va) = (integer_conversion c d v).map fun s => (s, va) := by
  have hinteger : c = 0x64 ∨ c = 0x69 ∨ c = 0x75 ∨ c = 0x78 ∨ c = 0x58 ∨ c = 0x6F ∨ c = 0x62 := by
    rcases hc with h | h
    · exact .inl h
    · exact .inr (.inr (.inr (.inl h)))
  unfold specifier_text
  rw [if_pos hinteger]
  show (integer_conversion c d v >>= _) = _
  cases integer_conversion c d v <;> rfl

/-- A `%d` reads an `int`, so it fails on the words whose low half is the least of these. -/
theorem int_negatable_iff (d : Directive) (v : UInt64)
    (hd : ∀ v, argument_value 0x64 d.flags v = to_int v ∧ argument_bits d.flags = 32) :
    (∃ s, integer_conversion 0x64 d v = .ok s) ↔ ∀ n ∈ [v], Negatable n := by
  obtain ⟨hvalue, hbits⟩ := hd v
  rw [integer_conversion_ok_iff, List.forall_mem_singleton, Negatable, ne_eq, not_iff_not, Extreme,
      hvalue, hbits]
  constructor
  · rintro ⟨-, h⟩
    apply UInt32.toBitVec_inj.mp
    exact BitVec.eq_of_toInt_eq h
  · intro h
    refine ⟨rfl, ?_⟩
    unfold to_int
    rw [h]
    rfl

/-- An unsigned number always has a text. -/
theorem unsigned_ok (d : Directive) (v : UInt64) :
    (∃ s, integer_conversion 0x78 d v = .ok s) ↔ ∀ n ∈ ([] : List UInt64), Negatable n := by
  rw [integer_conversion_ok_iff]
  exact iff_of_true (fun h => absurd h.1 (by decide)) fun _ h => absurd h List.not_mem_nil

/-- `%d`. -/
theorem Needs.int (v : UInt64) (h : Needs fp format va ns) :
    Needs fp ([0x25, 0x64] ++ format) (.word v :: va) (v :: ns) :=
  .directive int_spec ⟨Flags.zero, 0, 0⟩ (fun _ => rfl)
    (fun va => specifier_integer fp (.inl rfl) _ v va)
    (int_negatable_iff _ v fun _ => ⟨rfl, rfl⟩) h

/-- `0` is a flag. -/
theorem zero_flag : ∀ c ∈ [(0x30 : UInt8)], is_flag c = true := by
  intro c hc
  rw [List.mem_singleton.mp hc]
  rfl

/-- A width of 8 is one that the notation writes. -/
theorem width_eight : Amount.number 8 ≠ .number 0 := fun h =>
  absurd (Amount.number.inj h) (by decide)

/-- `x` is a conversion. -/
theorem hex_conversion : (0x78 : UInt8) ∈ conversions := by decide

/-- `%8d`. -/
def wide_int_spec : Spec :=
  ⟨[], .number 8, none, .none, 0x64, int_spec.flags_ok, width_eight, int_spec.conversion_ok⟩

/-- `%08x`. -/
def hex_spec : Spec :=
  ⟨[0x30], .number 8, none, .none, 0x78, zero_flag, width_eight, hex_conversion⟩

/-- `%.8lx`. -/
def long_hex_spec : Spec :=
  ⟨[], .none, some (.number 8), .l, 0x78, int_spec.flags_ok, int_spec.width_ok, hex_conversion⟩

/-- As it stands in a format. -/
theorem wide_int_text : (Item.directive wide_int_spec).text = [0x25, 0x38, 0x64] := by
  decide

/-- As it stands in a format. -/
theorem hex_text : (Item.directive hex_spec).text = [0x25, 0x30, 0x38, 0x78] := by
  decide

/-- As it stands in a format. -/
theorem long_hex_text : (Item.directive long_hex_spec).text = [0x25, 0x2E, 0x38, 0x6C, 0x78] := by
  decide

/-- `%8d` needs what `%d` does. -/
theorem Needs.wide_int (v : UInt64) (h : Needs fp format va ns) :
    Needs fp ([0x25, 0x38, 0x64] ++ format) (.word v :: va) (v :: ns) := by
  rw [← wide_int_text]
  exact .directive wide_int_spec ⟨Flags.zero, 8, 0⟩ (fun _ => rfl)
    (fun va => specifier_integer fp (.inl rfl) _ v va)
    (int_negatable_iff _ v fun _ => ⟨rfl, rfl⟩) h

/-- `%08x` needs nothing: an unsigned number has no sign to take off. -/
theorem Needs.hex (v : UInt64) (h : Needs fp format va ns) :
    Needs fp ([0x25, 0x30, 0x38, 0x78] ++ format) (.word v :: va) ns := by
  rw [← hex_text]
  exact .directive hex_spec ⟨{ Flags.zero with zeropad := true }, 8, 0⟩ (fun _ => rfl)
    (fun va => specifier_integer fp (.inr rfl) _ v va)
    (unsigned_ok _ v) h

/-- Nor does `%.8lx`. -/
theorem Needs.long_hex (v : UInt64) (h : Needs fp format va ns) :
    Needs fp ([0x25, 0x2E, 0x38, 0x6C, 0x78] ++ format) (.word v :: va) ns := by
  rw [← long_hex_text]
  exact .directive long_hex_spec
    ⟨{ Flags.zero with precision := true, long := true }, 0, 8⟩ (fun _ => rfl)
    (fun va => specifier_integer fp (.inr rfl) _ v va)
    (unsigned_ok _ v) h

/-- Nor does `%s`, of a string that ends. -/
theorem Needs.string {p : List UInt8} (hp : 0 ∈ p) (h : Needs fp format va ns) :
    Needs fp ([0x25, 0x73] ++ format) (.string p :: va) ns := by
  have hin : StringInside ⟨Flags.zero, 0, 0⟩ p := ⟨.inl hp, hp⟩
  have htext : ∀ va : List (VaArg V), specifier_text fp 0x73 ⟨Flags.zero, 0, 0⟩ (.string p :: va)
      = (string_conversion ⟨Flags.zero, 0, 0⟩ p).map fun s => (s, va) := by
    intro va
    show (string_conversion _ p >>= _) = _
    cases string_conversion _ p <;> rfl
  have hown : (∃ s, string_conversion ⟨Flags.zero, 0, 0⟩ p = .ok s)
      ↔ ∀ n ∈ ([] : List UInt64), Negatable n := by
    rw [string_conversion, if_pos hin]
    exact iff_of_true ⟨_, rfl⟩ fun _ h => absurd h List.not_mem_nil
  exact .directive string_spec ⟨Flags.zero, 0, 0⟩ (fun _ => rfl) htext hown h

/-! ## §3. What the report needs. -/

/-- **The events go through exactly when these numbers have negations.** -/
def Told (fp : FloatFormat V) (events : List (Event V)) (ns : List UInt64) : Prop :=
  (∀ e ∈ events, e.Sound fp) ↔ ∀ n ∈ ns, Negatable n

/-- Without events nothing is needed. -/
theorem Told.nil : Told fp [] [] :=
  iff_of_true (fun _ h => absurd h List.not_mem_nil) fun _ h => absurd h List.not_mem_nil

/-- Events after one another need what each of them does. -/
theorem Told.append {events events' : List (Event V)} {ns ns' : List UInt64}
    (h : Told fp events ns) (h' : Told fp events' ns') :
    Told fp (events ++ events') (ns ++ ns') := by
  unfold Told
  rw [List.forall_mem_append, List.forall_mem_append]
  exact and_congr h h'

/-- A message needs what its format does. -/
theorem Told.message (ns : List UInt64) (severity : UInt32) {fmt : String}
    (h : Needs fp (literal fmt) va ns) : Told fp [message severity fmt va] ns := by
  obtain ⟨items, hformat, hiff⟩ := h
  unfold Told
  rw [List.forall_mem_singleton, ← hiff]
  show (∃ text, render fp (literal fmt ++ [0]) va = .ok text) ↔ _
  rw [← hformat, render_items]

/-- The first two lines: bytes and pages with `%d`, the two addresses in base 16. -/
theorem count_report_told (p : PmmBitmap) :
    Told fp (count_report p) [p.highest_address - p.lowest_address, p.total_pages] := by
  have hsizes : literal "Total usable memory: %d bytes, or %d pages available"
      = literal "Total usable memory: " ++ ([0x25, 0x64] ++ (literal " bytes, or "
        ++ ([0x25, 0x64] ++ literal " pages available"))) := rfl
  have hbounds : literal "Highest usable address at memory 0x%08x, lowest at 0x%08x."
      = literal "Highest usable address at memory 0x" ++ ([0x25, 0x30, 0x38, 0x78]
        ++ (literal ", lowest at 0x" ++ ([0x25, 0x30, 0x38, 0x78] ++ literal "."))) := rfl
  refine Told.append (.message [_, _] ULOG_INFO_LEVEL ?_)
    (.message [] ULOG_INFO_LEVEL ?_)
  · rw [hsizes]
    exact .plain (is_plain_char rfl) (.int _ (.plain (is_plain_char rfl) (.int _ (.literal rfl))))
  · rw [hbounds]
    exact .plain (is_plain_char rfl) (.hex _ (.plain (is_plain_char rfl) (.hex _ (.literal rfl))))

/-- The line of the bitmap is in base 16 throughout. -/
theorem place_report_told (p : PmmBitmap) (entries : List LimineMemmapEntry) :
    Told fp (place_report p entries) [] := by
  have hformat : literal "Current PMM Bitmap stored between 0x%.8lx and 0x%.8lx."
      = literal "Current PMM Bitmap stored between 0x" ++ ([0x25, 0x2E, 0x38, 0x6C, 0x78]
        ++ (literal " and 0x" ++ ([0x25, 0x2E, 0x38, 0x6C, 0x78] ++ literal "."))) := rfl
  unfold place_report
  cases entries.find? (suitable p) with
  | none => exact .nil
  | some e =>
    apply Told.message
    rw [hformat]
    exact .plain (is_plain_char rfl) (.long_hex _ (.plain (is_plain_char rfl)
      (.long_hex _ (.literal rfl))))

/-- The line of an entry: its pages with `%8d`. -/
theorem print_entry_told (e : LimineMemmapEntry) :
    Told fp (print_entry e) [e.length / PAGE_SIZE] := by
  have hformat : literal "[*] Base 0x%08x | Length 0x%08x (%8d pages) | %s.\n"
      = literal "[*] Base 0x" ++ ([0x25, 0x30, 0x38, 0x78] ++ (literal " | Length 0x"
        ++ ([0x25, 0x30, 0x38, 0x78] ++ (literal " (" ++ ([0x25, 0x38, 0x64]
          ++ (literal " pages) | " ++ ([0x25, 0x73] ++ literal ".\n"))))))) := rfl
  have hneeds : Needs fp (literal "[*] Base 0x%08x | Length 0x%08x (%8d pages) | %s.\n")
      [.word e.base, .word e.length, .word (e.length / PAGE_SIZE),
        .string (literal (type_buf e.type) ++ [0])] [e.length / PAGE_SIZE] := by
    rw [hformat]
    exact .plain (is_plain_char rfl) (.hex _ (.plain (is_plain_char rfl) (.hex _
      (.plain (is_plain_char rfl) (.wide_int _ (.plain (is_plain_char rfl)
        (.string (List.mem_append_right _ List.mem_cons_self) (.literal rfl))))))))
  obtain ⟨items, htext, hiff⟩ := hneeds
  unfold Told print_entry
  rw [List.forall_mem_append, ← hiff, List.forall_mem_cons, List.forall_mem_singleton]
  -- the colours before and after the line have no format
  constructor
  · rintro ⟨-, h, -⟩
    have h : ∃ text, render fp _ _ = .ok text := h
    rwa [← htext, render_items] at h
  · intro h
    refine ⟨?_, ?_, trivial⟩
    · intro e' he'
      split_ifs at he'
      · rw [List.mem_singleton.mp he']
        trivial
      · exact absurd he' List.not_mem_nil
    · show ∃ text, render fp _ _ = .ok text
      rwa [← htext, render_items]

/-- The lines of a map, one after the other. -/
theorem print_entries_told (entries : List LimineMemmapEntry) :
    Told fp (entries.flatMap print_entry) (entries.map fun e => e.length / PAGE_SIZE) := by
  induction entries with
  | nil => exact .nil
  | cons e entries ih => exact (print_entry_told e).append ih

/-- The number of entries. -/
theorem found_report_told (entries : List LimineMemmapEntry) :
    Told fp [found_report entries] [UInt64.ofNat entries.length] := by
  have hformat : literal "Memory: Found %d memory entries from Limine."
      = literal "Memory: Found " ++ ([0x25, 0x64] ++ literal " memory entries from Limine.") := rfl
  refine Told.message [_] ULOG_INFO_LEVEL ?_
  rw [hformat]
  exact .plain (is_plain_char rfl) (.int _ (.literal rfl))

/-- The pages that are freed, and the index of the first of them. -/
def freed (low : UInt64) (e : LimineMemmapEntry) : List UInt64 :=
  if e.usable then [e.length / PAGE_SIZE, (e.base - low) / PAGE_SIZE] else []

/-- What is freed, and from where on. -/
theorem kfree_report_told (g_hhdm_offset : UInt64) (p : PmmBitmap) {e : LimineMemmapEntry}
    (hu : e.usable = true) :
    Told fp [kfree_report g_hhdm_offset p (e.base + g_hhdm_offset) (e.length / PAGE_SIZE)]
      (freed p.lowest_address e) := by
  have hformat : literal "Freeing %d pages starting at index %d"
      = literal "Freeing " ++ ([0x25, 0x64] ++ (literal " pages starting at index "
        ++ ([0x25, 0x64] ++ literal ""))) := rfl
  rw [kfree_report, kfree_entry_index, freed, if_pos hu]
  apply Told.message
  rw [hformat]
  exact .plain (is_plain_char rfl) (.int _ (.plain (is_plain_char rfl) (.int _ (.literal rfl))))

/-- Freeing does not move the window, so every index is counted from the same address. -/
theorem free_report_told (g_hhdm_offset : UInt64) (entries : List LimineMemmapEntry) :
    ∀ p : PmmBitmap, Told fp (free_report g_hhdm_offset p entries)
      (entries.flatMap (freed p.lowest_address)) := by
  induction entries with
  | nil => exact fun p => .nil
  | cons e entries ih =>
    intro p
    have hlow : (free_entry g_hhdm_offset p e).lowest_address = p.lowest_address := by
      have hframe := free_fold_frame g_hhdm_offset [e] p
      rw [List.foldl_cons, List.foldl_nil] at hframe
      rw [hframe]
    have hrest := ih (free_entry g_hhdm_offset p e)
    rw [hlow] at hrest
    rw [free_report, List.flatMap_cons]
    apply Told.append _ hrest
    by_cases hu : e.usable = true
    · rw [if_pos hu]
      exact kfree_report_told g_hhdm_offset p hu
    · rw [if_neg hu, freed, if_neg hu]
      exact .nil

/-- The three sizes in the end. -/
theorem done_report_told (p : PmmBitmap) :
    Told fp [done_report p] [p.size, p.used_pages, p.total_pages] := by
  have hformat : literal "Bitmap created with size %d. Used %d/%d pages"
      = literal "Bitmap created with size " ++ ([0x25, 0x64] ++ (literal ". Used "
        ++ ([0x25, 0x64] ++ (literal "/" ++ ([0x25, 0x64] ++ literal " pages"))))) := rfl
  apply Told.message
  rw [hformat]
  exact .plain (is_plain_char rfl) (.int _ (.plain (is_plain_char rfl) (.int _
    (.plain (is_plain_char rfl) (.int _ (.literal rfl))))))

/-- All that follows the printing of the map. -/
theorem rest_report_told (g_hhdm_offset : UInt64) (p : PmmBitmap)
    (entries : List LimineMemmapEntry) :
    Told fp (rest_report g_hhdm_offset p entries)
      (entries.flatMap (freed p.lowest_address)
        ++ [(entries.foldl (free_entry g_hhdm_offset) p).size,
          (entries.foldl (free_entry g_hhdm_offset) p).used_pages,
          (entries.foldl (free_entry g_hhdm_offset) p).total_pages]) :=
  (free_report_told g_hhdm_offset entries p).append (done_report_told _)

end Formats

/-! ## §4. The loop over the map. -/

section Loop

variable {entries : List LimineMemmapEntry}

/-- A round that finds its entry. -/
theorem print_loop_report_some {i : UInt8} {e : LimineMemmapEntry} (he : entries[i.toNat]? = some e)
    (rounds : ℕ) : print_loop_report (V := V) entries (rounds + 1) i
      = (print_entry e ++ (print_loop_report entries rounds (i + 1)).1,
          (print_loop_report (V := V) entries rounds (i + 1)).2) := by
  rw [print_loop_report, he]

/-- The round that finds the end of the map. -/
theorem print_loop_report_none {i : UInt8} (he : entries[i.toNat]? = none) (rounds : ℕ) :
    print_loop_report (V := V) entries (rounds + 1) i = ([], true) := by
  rw [print_loop_report, he]

/-- The loop ends where the one of `print_memmap` does: they count alike. -/
theorem print_loop_report_ended (entries : List LimineMemmapEntry) (rounds : ℕ) :
    ∀ i : UInt8, (print_loop_report (V := V) entries rounds i).2
      = (print_memmap_loop entries rounds i).isSome := by
  induction rounds with
  | zero => exact fun _ => rfl
  | succ rounds ih =>
    intro i
    rw [print_memmap_loop]
    cases he : entries[i.toNat]? with
    | none =>
      rw [print_loop_report_none he]
      rfl
    | some e =>
      rw [print_loop_report_some he, Option.isSome_map]
      exact ih (i + 1)

/-- A short map is printed to its end in 2^8 rounds. -/
theorem print_loop_short (h : entries.length ≤ 255) {rounds : ℕ} (hrounds : 2 ^ 8 ≤ rounds) :
    (print_loop_report (V := V) entries rounds 0).2 = true := by
  rw [print_loop_report_ended, print_memmap_loop_visits,
      visits_short h entries.length 0 rounds (Nat.zero_add _) (by omega)]
  rfl

/-- On a long one the loop never ends. -/
theorem print_loop_long (h : 255 < entries.length) (rounds : ℕ) (i : UInt8) :
    (print_loop_report (V := V) entries rounds i).2 = false := by
  rw [print_loop_report_ended, print_memmap_loop_visits, visits_long h]
  rfl

/-- Whatever is printed belongs to one of the first 256 entries: the counter has no further
    values. -/
theorem print_loop_within (rounds : ℕ) :
    ∀ {i : UInt8} {ev : Event V}, ev ∈ (print_loop_report entries rounds i).1 →
      ev ∈ (entries.take (2 ^ 8)).flatMap print_entry := by
  induction rounds with
  | zero => exact fun h => absurd h List.not_mem_nil
  | succ rounds ih =>
    intro i ev h
    cases he : entries[i.toNat]? with
    | none =>
      rw [print_loop_report_none he] at h
      exact absurd h List.not_mem_nil
    | some e =>
      rw [print_loop_report_some he] at h
      rcases List.mem_append.mp h with h | h
      · -- the entry of this round
        have hi := i.toNat_lt
        have hmem : (entries.take (2 ^ 8))[i.toNat]? = some e := by
          rw [List.getElem?_take_of_lt hi, he]
        exact List.mem_flatMap.mpr ⟨e, List.mem_of_getElem? hmem, h⟩
      · exact ih h

/-- Up to the end of the map, or of the counter, every round prints its entry.  By induction on how
    far the entry is from the counter. -/
theorem print_loop_reaches (left : ℕ) :
    ∀ {i : UInt8} {rounds : ℕ} {e : LimineMemmapEntry} {ev : Event V},
      i.toNat + left < 2 ^ 8 → left < rounds → entries[i.toNat + left]? = some e →
        ev ∈ print_entry e → ev ∈ (print_loop_report entries rounds i).1 := by
  induction left with
  | zero =>
    intro i rounds e ev _ hrounds he hev
    obtain ⟨rounds, rfl⟩ := Nat.exists_eq_succ_of_ne_zero (by omega : rounds ≠ 0)
    rw [Nat.succ_eq_add_one, print_loop_report_some he]
    exact List.mem_append_left _ hev
  | succ left ih =>
    intro i rounds e ev hi hrounds he hev
    obtain ⟨rounds, rfl⟩ := Nat.exists_eq_succ_of_ne_zero (by omega : rounds ≠ 0)
    -- the counter does not wrap before it is there
    have hone : (1 : UInt8).toNat = 1 := rfl
    have hnext : (i + 1).toNat = i.toNat + 1 := by
      rw [UInt8.toNat_add, hone]
      omega
    have hlen : i.toNat + (left + 1) < entries.length := (List.getElem?_eq_some_iff.mp he).1
    obtain ⟨x, hx⟩ : ∃ x, entries[i.toNat]? = some x := ⟨_, List.getElem?_eq_getElem (by omega)⟩
    rw [Nat.succ_eq_add_one, print_loop_report_some hx]
    refine List.mem_append_right _ (ih (by omega) (by omega) ?_ hev)
    rw [hnext, Nat.add_assoc, Nat.add_comm 1 left, he]

/-- **All that the loop ever prints** it has printed after 2^8 rounds. -/
theorem mem_print_loop_iff {ev : Event V} :
    ev ∈ (print_loop_report entries (2 ^ 8) 0).1
      ↔ ev ∈ (entries.take (2 ^ 8)).flatMap print_entry := by
  constructor
  · exact print_loop_within _
  · intro h
    obtain ⟨e, he, hev⟩ := List.mem_flatMap.mp h
    obtain ⟨j, hj, rfl⟩ := List.mem_iff_getElem.mp he
    rw [List.length_take] at hj
    refine print_loop_reaches j (by rw [UInt8.toNat_zero]; omega) (by omega) ?_ hev
    rw [UInt8.toNat_zero, Nat.zero_add, List.getElem_take, List.getElem?_eq_getElem]

/-- Each round prints something. -/
theorem print_entry_pos (e : LimineMemmapEntry) : 0 < (print_entry (V := V) e).length := by
  rw [print_entry, List.length_append]
  exact Nat.add_pos_right _ (Nat.zero_lt_succ _)

/-- On a long map every further round prints more. -/
theorem print_loop_grows (h : 255 < entries.length) (rounds : ℕ) :
    ∀ i : UInt8, (print_loop_report (V := V) entries rounds i).1.length
      < (print_loop_report (V := V) entries (rounds + 1) i).1.length := by
  have hentry : ∀ i : UInt8, ∃ e, entries[i.toNat]? = some e := by
    intro i
    have hi := i.toNat_lt
    exact ⟨_, List.getElem?_eq_getElem (by omega)⟩
  induction rounds with
  | zero =>
    intro i
    obtain ⟨e, he⟩ := hentry i
    rw [print_loop_report_some he, List.length_append]
    exact Nat.add_pos_left (print_entry_pos e) _
  | succ rounds ih =>
    intro i
    obtain ⟨e, he⟩ := hentry i
    rw [print_loop_report_some he, print_loop_report_some he, List.length_append,
        List.length_append]
    exact Nat.add_lt_add_left (ih (i + 1)) _

/-- Once it has ended, a further round changes nothing. -/
theorem print_loop_stable (rounds : ℕ) :
    ∀ i : UInt8, (print_loop_report (V := V) entries rounds i).2 = true →
      print_loop_report (V := V) entries (rounds + 1) i = print_loop_report entries rounds i := by
  induction rounds with
  | zero => exact fun _ h => Bool.noConfusion h
  | succ rounds ih =>
    intro i h
    cases he : entries[i.toNat]? with
    | none => rw [print_loop_report_none he, print_loop_report_none he]
    | some e =>
      rw [print_loop_report_some he] at h
      rw [print_loop_report_some he, print_loop_report_some he, ih (i + 1) h]

end Loop

/-! ## §5. Boot and its log. -/

/-- What is printed with `%d` from the printing of the map on: the number of entries, the pages of
    each that is printed, and, where the printing ends, what is freed and the sizes in the end. -/
def map_numbers (g_hhdm_offset : UInt64) (p : PmmBitmap) (entries : List LimineMemmapEntry) :
    List UInt64 :=
  let done := entries.foldl (free_entry g_hhdm_offset) p
  UInt64.ofNat entries.length
    :: (((entries.take (2 ^ 8)).map fun e => e.length / PAGE_SIZE)
      ++ if entries.length ≤ 255 then
          entries.flatMap (freed p.lowest_address) ++ [done.size, done.used_pages, done.total_pages]
        else [])

/-- All of it: before that, the bytes and pages that usable memory spans. -/
def int_numbers (g_hhdm_offset : UInt64) (ram : WordRows) (entries : List LimineMemmapEntry) :
    List UInt64 :=
  let p := count_memory (PmmBitmap.start ram) entries
  let placed := place_bitmap g_hhdm_offset p entries
  [p.highest_address - p.lowest_address, p.total_pages]
    ++ if placed.1.map == NULL then [] else map_numbers g_hhdm_offset placed.1 placed.2

section Boot

variable {fp : FloatFormat V} (g_hhdm_offset : UInt64)

/-- What follows the loop is there after 2^8 rounds or never. -/
theorem map_report_short (p : PmmBitmap) {entries : List LimineMemmapEntry}
    (h : entries.length ≤ 255) {rounds : ℕ} (hrounds : 2 ^ 8 ≤ rounds) :
    map_report (V := V) g_hhdm_offset p entries rounds
      = found_report entries :: ((print_loop_report entries rounds 0).1
          ++ rest_report g_hhdm_offset p entries) := by
  unfold map_report
  dsimp only
  rw [if_pos (print_loop_short h hrounds)]

/-- On a long map nothing follows the loop. -/
theorem map_report_long (p : PmmBitmap) {entries : List LimineMemmapEntry}
    (h : 255 < entries.length) (rounds : ℕ) :
    map_report (V := V) g_hhdm_offset p entries rounds
      = found_report entries :: (print_loop_report entries rounds 0).1 := by
  unfold map_report
  dsimp only
  rw [if_neg (by rw [print_loop_long h]; exact Bool.noConfusion), List.append_nil]

/-- **Nothing new comes after 2^8 rounds**: later rounds repeat lines, and the rest is there by then
    or never. -/
theorem map_report_within (p : PmmBitmap) (entries : List LimineMemmapEntry) (rounds : ℕ)
    {ev : Event V} (h : ev ∈ map_report g_hhdm_offset p entries rounds) :
    ev ∈ map_report g_hhdm_offset p entries (2 ^ 8) := by
  have hloop : ev ∈ (print_loop_report entries rounds 0).1 →
      ev ∈ (print_loop_report entries (2 ^ 8) 0).1 :=
    fun h => mem_print_loop_iff.mpr (print_loop_within rounds h)
  by_cases hshort : entries.length ≤ 255
  · rw [map_report_short g_hhdm_offset p hshort (Nat.le_refl _)]
    unfold map_report at h
    dsimp only at h
    rcases List.mem_cons.mp h with rfl | h
    · exact List.mem_cons_self
    refine List.mem_cons_of_mem _ ?_
    rcases List.mem_append.mp h with h | h
    · exact List.mem_append_left _ (hloop h)
    · -- the rest, if it has come already
      refine List.mem_append_right _ ?_
      split_ifs at h
      · exact h
      · exact absurd h List.not_mem_nil
  · rw [map_report_long g_hhdm_offset p (Nat.lt_of_not_le hshort)] at h ⊢
    rcases List.mem_cons.mp h with rfl | h
    · exact List.mem_cons_self
    · exact List.mem_cons_of_mem _ (hloop h)

/-- The loop's lines, by the entries they belong to. -/
theorem print_loop_told (entries : List LimineMemmapEntry) :
    Told fp (print_loop_report entries (2 ^ 8) 0).1
      ((entries.take (2 ^ 8)).map fun e => e.length / PAGE_SIZE) := by
  have h : Told fp _ _ := print_entries_told (entries.take (2 ^ 8))
  unfold Told at h ⊢
  rw [← h]
  exact forall_congr' fun ev => by rw [mem_print_loop_iff]

/-- From the printing of the map on, the report after 2^8 rounds needs these numbers. -/
theorem map_report_told (p : PmmBitmap) (entries : List LimineMemmapEntry) :
    Told fp (map_report g_hhdm_offset p entries (2 ^ 8)) (map_numbers g_hhdm_offset p entries) := by
  unfold map_numbers
  dsimp only
  by_cases hshort : entries.length ≤ 255
  · rw [map_report_short g_hhdm_offset p hshort (Nat.le_refl _), if_pos hshort]
    exact (found_report_told _).append ((print_loop_told _).append (rest_report_told _ _ _))
  · rw [map_report_long g_hhdm_offset p (Nat.lt_of_not_le hshort), if_neg hshort, List.append_nil]
    exact (found_report_told _).append (print_loop_told _)

/-- **The report of 2^8 rounds has every event of every report**, so it is enough to look at that
    one. -/
theorem pmm_initialize_report_within (ram : WordRows) (entries : List LimineMemmapEntry)
    (rounds : ℕ) {ev : Event V} (h : ev ∈ pmm_initialize_report g_hhdm_offset ram entries rounds) :
    ev ∈ pmm_initialize_report g_hhdm_offset ram entries (2 ^ 8) := by
  unfold pmm_initialize_report at h ⊢
  dsimp only at h ⊢
  rw [List.mem_append, List.mem_append] at h ⊢
  refine h.imp_right (Or.imp_right fun h => ?_)
  split_ifs at h ⊢
  · exact h
  · exact map_report_within g_hhdm_offset _ _ rounds h

/-- **The report has a text exactly when these numbers have negations**, whether a place for the
    bitmap is found or not. -/
theorem pmm_initialize_report_told (ram : WordRows) (entries : List LimineMemmapEntry) :
    Told fp (pmm_initialize_report g_hhdm_offset ram entries (2 ^ 8))
      (int_numbers g_hhdm_offset ram entries) := by
  have hcount : Told fp _ _ := count_report_told (count_memory (PmmBitmap.start ram) entries)
  have hplace : Told fp _ _ :=
    place_report_told (count_memory (PmmBitmap.start ram) entries) entries
  unfold pmm_initialize_report int_numbers
  dsimp only
  refine hcount.append ?_
  split_ifs
  · exact hplace.append (.message [] ULOG_CRITICAL_LEVEL (.literal rfl))
  · exact hplace.append (map_report_told g_hhdm_offset _ _)

/-- **The report goes on for ever exactly where boot hangs on the map.**  Where it does, every round
    prints a line more; where it comes back or halts, the report no longer grows after 2^8
    rounds. -/
theorem prints_for_ever_iff (ram : WordRows) (entries : List LimineMemmapEntry) :
    (∀ rounds, (pmm_initialize_report (V := V) g_hhdm_offset ram entries rounds).length
        < (pmm_initialize_report (V := V) g_hhdm_offset ram entries (rounds + 1)).length)
      ↔ pmm_initialize g_hhdm_offset ram entries = .error .print_memmap := by
  unfold pmm_initialize_report
  simp only [List.length_append, Nat.add_lt_add_iff_left]
  by_cases hplaced : Placed g_hhdm_offset ram entries
  · have hnull := hplaced
    rw [Placed, ne_eq, ← beq_iff_eq] at hnull
    have hlength := place_bitmap_length g_hhdm_offset (count_memory (PmmBitmap.start ram) entries)
      entries
    simp only [if_neg hnull]
    by_cases hshort : entries.length ≤ 255
    · -- a short map is printed once and boot comes back
      obtain ⟨p, hp⟩ := pmm_initialize_short hplaced hshort
      rw [hp]
      refine iff_of_false (fun h => ?_) fun h => by cases h
      have hle := hlength.trans_le hshort
      have hgrows := h (2 ^ 8)
      rw [map_report_short g_hhdm_offset _ hle (Nat.le_refl _),
          map_report_short g_hhdm_offset _ hle (Nat.le_succ _),
          print_loop_stable _ _ (print_loop_short hle (Nat.le_refl _))] at hgrows
      exact Nat.lt_irrefl _ hgrows
    · have hlong := (Nat.lt_of_not_le hshort).trans_eq hlength.symm
      refine iff_of_true (fun rounds => ?_) (pmm_initialize_long hplaced (by omega))
      rw [map_report_long g_hhdm_offset _ hlong, map_report_long g_hhdm_offset _ hlong]
      exact Nat.succ_lt_succ (print_loop_grows hlong rounds 0)
  · -- without a place for the bitmap the report ends before `hcf()`
    have hnull : ((place_bitmap g_hhdm_offset (count_memory (PmmBitmap.start ram) entries)
        entries).1.map == NULL) = true := beq_iff_eq.mpr (not_not.mp hplaced)
    simp only [if_pos hnull]
    refine iff_of_false (fun h => Nat.lt_irrefl _ (h 0)) fun h => ?_
    unfold pmm_initialize at h
    dsimp only at h
    rw [if_pos hnull] at h
    cases h

end Boot

/-- **Boot's log can fail on one number.**  Whatever the memory map is, and whether `pmm_initialize`
    comes back, halts or prints the map for ever: what it logs and prints is free of undefined
    behaviour exactly when none of the numbers that it prints with `%d` has the low half 2^31, of
    which an `int` has no negation. -/
theorem pmm_initialize_reports (ssfn_putc : Framebuffer.Terminal → UInt32 → Framebuffer.Terminal)
    (fp : FloatFormat V) (l : Layout) {k : Subscribers Logger × World Console}
    {m : Audience Logger × Console} (hk : Reports k m) (g_hhdm_offset : UInt64) (ram : WordRows)
    (entries : List LimineMemmapEntry) :
    (∀ rounds, ∃ r, runs (Event.run ssfn_putc fp l) k
        (pmm_initialize_report g_hhdm_offset ram entries rounds) = .ok r)
      ↔ ∀ n ∈ int_numbers g_hhdm_offset ram entries, Negatable n := by
  have htold : (∀ e ∈ pmm_initialize_report g_hhdm_offset ram entries (2 ^ 8), e.Sound fp) ↔ _ :=
    pmm_initialize_report_told g_hhdm_offset ram entries
  rw [← htold]
  constructor
  · intro h
    exact (runs_ok_iff ssfn_putc fp l _ hk).mp (h (2 ^ 8))
  · intro h rounds
    refine (runs_ok_iff ssfn_putc fp l _ hk).mpr fun e he => h e ?_
    exact pmm_initialize_report_within g_hhdm_offset ram entries rounds he

/-- Usable memory that spans 2 GiB. -/
def two_gib_machine : List LimineMemmapEntry :=
  [{ base := 0x100000, length := 0x80000000, type := LIMINE_MEMMAP_USABLE }]

/-- It boots, but the number of its bytes cannot be logged. -/
theorem pmm_initialize_reports_two_gib :
    (∃ p, pmm_initialize small_hhdm (fun _ => 0) two_gib_machine = .ok p)
      ∧ ¬ ∀ rounds, ∃ r, runs (Event.run Framebuffer.fixed_width
            (⟨fun _ _ _ _ => [], fun _ _ _ _ => []⟩ : FloatFormat Unit) kernel_layout)
          (Log.log_initialize, ⟨⟨fun _ => 0, []⟩, vga_console⟩)
          (pmm_initialize_report small_hhdm (fun _ => 0) two_gib_machine rounds) = .ok r := by
  obtain ⟨p, hp⟩ : ∃ p, pmm_initialize small_hhdm (fun _ => 0) two_gib_machine = .ok p :=
    pmm_initialize_short (by unfold Placed; decide) (by decide)
  refine ⟨⟨p, hp⟩, ?_⟩
  rw [pmm_initialize_reports Framebuffer.fixed_width
      (⟨fun _ _ _ _ => [], fun _ _ _ _ => []⟩ : FloatFormat Unit) kernel_layout
      (k := (Log.log_initialize, ⟨⟨fun _ => 0, []⟩, vga_console⟩))
      (m := (default_audience, vga_console))
      ⟨log_initialize_represents, rfl⟩ small_hhdm (fun _ => 0) two_gib_machine]
  intro h
  exact absurd (h 0x80000000 (List.mem_append_left _ List.mem_cons_self)) (by decide)

/-! ## §6. The number of bytes. -/

/-- A negative number is written behind a minus, for which there is room in the buffer. -/
theorem negative_text {value : ℕ} (hvalue : value ≤ 2 ^ 63) :
    ∃ s, integer_text value true 10 0 0 Flags.zero = 0x2D :: s := by
  refine ⟨digits_text value 10 Flags.zero, ?_⟩
  have hzeros : zeros_text value true 10 0 0 Flags.zero = digits_text value 10 Flags.zero := by
    unfold zeros_text
    dsimp only
    rw [show zeros (digits_text value 10 Flags.zero).length true 0 0 Flags.zero = 0 from
      Nat.zero_sub _]
    rfl
  have hpadded : ∀ s : List UInt8, padded s 0 Flags.zero = s := by
    intro s
    unfold padded
    rw [Nat.zero_sub]
    exact List.append_nil _
  rw [integer_text, hpadded, integer_buf_plain _ _ _ _ _ rfl, hzeros]
  exact if_pos (negative_digits_length hvalue Flags.zero)

/-- What `%d` writes: the low half, and from 2^31 on a negative number. -/
theorem int_conversion_cases (v : UInt64) (hv : Negatable v) :
    (v.toUInt32.toNat < 2 ^ 31
        ∧ integer_conversion 0x64 ⟨Flags.zero, 0, 0⟩ v = .ok (decimal v.toUInt32.toNat))
      ∨ (2 ^ 31 ≤ v.toUInt32.toNat
        ∧ ∃ s, integer_conversion 0x64 ⟨Flags.zero, 0, 0⟩ v = .ok (0x2D :: s)) := by
  have hok : ¬ Extreme 0x64 Flags.zero v :=
    (integer_conversion_ok_iff 0x64 ⟨Flags.zero, 0, 0⟩ v).mp
      ((int_negatable_iff _ v fun _ => ⟨rfl, rfl⟩).mpr (List.forall_mem_singleton.mpr hv))
  rw [integer_conversion_eq hok]
  rcases Nat.lt_or_ge v.toUInt32.toNat (2 ^ 31) with hlow | hhigh
  · refine .inl ⟨hlow, ?_⟩
    have hsame : argument_value 0x64 Flags.zero v
        = argument_value 0x64 Flags.zero v.toUInt32.toUInt64 := by
      show v.toUInt32.toInt32.toInt = v.toUInt32.toUInt64.toUInt32.toInt32.toInt
      rw [UInt32.toUInt32_toUInt64]
    have hlow' := int_conversion hlow
    rw [← hlow', integer_conversion_eq ((integer_conversion_ok_iff _ _ _).mp ⟨_, hlow'⟩)]
    unfold conversion_text
    dsimp only
    rw [hsame]
  · refine .inr ⟨hhigh, ?_⟩
    have hneg : argument_value 0x64 Flags.zero v < 0 := by
      have hlt := v.toUInt32.toNat_lt
      have hcond := BitVec.toInt_eq_toNat_cond v.toUInt32.toBitVec
      rw [if_neg (by show ¬ 2 * v.toUInt32.toNat < 2 ^ 32; omega)] at hcond
      show v.toUInt32.toBitVec.toInt < 0
      rw [hcond]
      show (v.toUInt32.toNat : ℤ) - (2 ^ 32 : ℕ) < 0
      omega
    have hbounds := argument_value_bounds 0x64 Flags.zero v
    obtain ⟨s, hs⟩ := negative_text
      (by omega : (argument_value 0x64 Flags.zero v).natAbs ≤ 2 ^ 63)
    refine ⟨s, ?_⟩
    rw [← hs]
    unfold conversion_text
    dsimp only
    rw [decide_eq_true hneg]
    rfl

/-- The first line, if it says these numbers. -/
def sizes_text (bytes pages : ℕ) : List UInt8 :=
  literal "Total usable memory: "
    ++ (decimal bytes ++ (literal " bytes, or " ++ (decimal pages ++ literal " pages available")))

/-- What it says is put together from both conversions, and fails where one of them does. -/
theorem render_sizes (fp : FloatFormat V) (bytes pages : UInt64) :
    render fp (literal "Total usable memory: %d bytes, or %d pages available" ++ [0])
        [.word bytes, .word pages]
      = integer_conversion 0x64 ⟨Flags.zero, 0, 0⟩ bytes >>= fun s =>
        integer_conversion 0x64 ⟨Flags.zero, 0, 0⟩ pages >>= fun t =>
          .ok (literal "Total usable memory: " ++ (s ++ (literal " bytes, or "
            ++ (t ++ literal " pages available")))) := by
  have hplain : ∀ {s : String}, is_plain s = true → ∃ items, format_text items = literal s
      ∧ ∀ rest va, run fp (items ++ rest) va = (run fp rest va).map fun text => literal s ++ text :=
    fun hs => run_plain_items fp (is_plain_char hs)
  obtain ⟨front, hfront, hrun₁⟩ := hplain (rfl : is_plain "Total usable memory: " = true)
  obtain ⟨middle, hmiddle, hrun₂⟩ := hplain (rfl : is_plain " bytes, or " = true)
  obtain ⟨behind, hbehind, hrun₃⟩ := hplain (rfl : is_plain " pages available" = true)
  have hformat : literal "Total usable memory: %d bytes, or %d pages available"
      = format_text
          (front ++ .directive int_spec :: (middle ++ .directive int_spec :: behind)) := by
    rw [format_text_append, hfront]
    show _ = literal _ ++ ([0x25, 0x64] ++ format_text (middle ++ .directive int_spec :: behind))
    rw [format_text_append, hmiddle]
    show _ = literal _ ++ ([0x25, 0x64] ++ (literal _ ++ ([0x25, 0x64] ++ format_text behind)))
    rw [hbehind]
    rfl
  have hend : run fp behind [] = .ok (literal " pages available") := by
    have h := hrun₃ [] []
    rw [List.append_nil] at h
    rw [h]
    exact congrArg Except.ok (List.append_nil _)
  rw [hformat, render_items, hrun₁, run_int_conversion, hrun₂, run_int_conversion, hend]
  cases integer_conversion 0x64 ⟨Flags.zero, 0, 0⟩ bytes with
  | error e => rfl
  | ok s => cases integer_conversion 0x64 ⟨Flags.zero, 0, 0⟩ pages <;> rfl

/-- A number of bytes and its pages are said as they are up to 2 GiB.  From there on what is written
    is the low half, which is smaller, or has a minus in front. -/
theorem render_sizes_iff (fp : FloatFormat V) (bytes : UInt64) :
    render fp (literal "Total usable memory: %d bytes, or %d pages available" ++ [0])
        [.word bytes, .word (bytes / PAGE_SIZE)]
      = .ok (sizes_text bytes.toNat (bytes / PAGE_SIZE).toNat) ↔ bytes.toNat < 2 ^ 31 := by
  have hlow : bytes.toUInt32.toNat = bytes.toNat % 2 ^ 32 := UInt64.toNat_toUInt32 bytes
  have hpages : (bytes / PAGE_SIZE).toNat = bytes.toNat / 4096 := page_div_toNat bytes
  rw [render_sizes]
  constructor
  · intro h
    obtain ⟨s, hs, h⟩ := bind_eq_ok.mp h
    obtain ⟨t, -, h⟩ := bind_eq_ok.mp h
    have htext := List.append_cancel_left (Except.ok.inj h)
    have hnegatable : Negatable bytes :=
      (int_negatable_iff _ bytes fun _ => ⟨rfl, rfl⟩).mp ⟨s, hs⟩ bytes List.mem_cons_self
    rcases int_conversion_cases bytes hnegatable with ⟨hsmall, hconv⟩ | ⟨-, s', hconv⟩
    · rw [hconv] at hs
      obtain rfl := Except.ok.inj hs
      have hsame : bytes.toUInt32.toNat = bytes.toNat := decimal_prefix htext
      omega
    · -- a minus is no digit
      rw [hconv] at hs
      obtain rfl := Except.ok.inj hs
      obtain ⟨d, r, hd, hdigit, -⟩ := decimal_head bytes.toNat
      rw [hd] at htext
      have hminus : (0x2D : UInt8) = d := (List.cons.inj htext).1
      rw [← hminus] at hdigit
      exact absurd hdigit (by decide)
  · intro h
    have hsay : ∀ v : UInt64, v.toNat < 2 ^ 31 →
        integer_conversion 0x64 ⟨Flags.zero, 0, 0⟩ v = .ok (decimal v.toNat) := by
      intro v hv
      have hv32 : v.toUInt32.toNat = v.toNat := by
        rw [UInt64.toNat_toUInt32]
        omega
      have hnegatable : Negatable v := by
        intro heq
        rw [heq] at hv32
        change 2 ^ 31 = v.toNat at hv32
        omega
      rcases int_conversion_cases v hnegatable with ⟨-, hconv⟩ | ⟨hlarge, -⟩
      · rw [hconv, hv32]
      · omega
    rw [hsay bytes h, hsay (bytes / PAGE_SIZE) (by omega)]
    rfl

end Hippos.Mem
