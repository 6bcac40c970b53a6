/-
  Hippos.Kernel.Main — `kernel_main` from `log_initialize` on, `kernel/kernel.c`.

  The kernel starts its parts one after the other and every one of them reports: detection prints,
  the descriptor tables, the direct map and the memory manager log.  What the serial port gets of it
  is put together from what each part writes, and only the memory manager has formats that can fail.

  The run is a list of events for the log, and it may be without end: with 256 entries or more the
  loop that prints the memory map starts over.  So the list has a number of rounds of that loop, and
  the results are about every number of them.  As everywhere, the bitmap is storage of its own, and
  the map that is printed is the map that was read.

  Main results:
    * `printed_writes` — what is printed is not logged.
    * `report_keeps` — the memory manager keeps the loggers, however far it gets.
    * `kernel_main_log` — when boot is free of undefined behaviour, and what the serial port has got
      at every moment of it.
-/
import Hippos.Cpu.Detect
import Hippos.Mem.Report

namespace Hippos.Kernel

open Hippos.Lib
open Hippos.Libc.Printf
open Hippos.Log
open Hippos.Io (CString)
open Hippos.Cpu (CpuidRegs detect_cpu)
open Hippos.Mem

variable {V : Type}

/-! ## §1. The parts. -/

/-- The colour in which detection prints. -/
def COLORS_WHITE : UInt32 := 0xC0C0C0

/-- What `gdt_initialize` reports. -/
def gdt_report : List (Event V) :=
  [message ULOG_INFO_LEVEL "Initializing GDT..." [],
    message ULOG_INFO_LEVEL "GDT initialized!" []]

/-- `g_hhdm_offset`, which stays 0 where the bootloader does not answer, and the message. -/
def hhdm_initialize (response : Option UInt64) : UInt64 × Event V :=
  match response with
  | none => (0, message ULOG_CRITICAL_LEVEL "HHDM Request Failed." [])
  | some offset => (offset, message ULOG_INFO_LEVEL "HHDM Set." [])

/-- What `kernel_main` prints and logs between `log_initialize` and `mem_initialize`. -/
def early_report (cpuid : UInt32 → CpuidRegs) (junk : UInt8) (response : Option UInt64) :
    List (Event V) :=
  .set_text_color COLORS_WHITE :: (detect_cpu cpuid junk
    ++ .reset_text_color :: (gdt_report ++ [(Kernel.hhdm_initialize response).2]))

/-- All of it, as far as `rounds` rounds of the loop that prints the memory map.  The serial port
    and the terminal have been set up before. -/
def kernel_main (cpuid : UInt32 → CpuidRegs) (junk : UInt8) (response : Option UInt64)
    (ram : WordRows) (entries : List LimineMemmapEntry) (rounds : ℕ) : List (Event V) :=
  -- `log_initialize`
  .subscribe_loggers :: (early_report cpuid junk response
    ++ pmm_initialize_report (Kernel.hhdm_initialize (V := V) response).1 ram entries rounds)

/-! ## §2. What each part does to the log. -/

/-- Nothing is unsubscribed, and the serial port gets these lines. -/
structure Writes (fp : FloatFormat V) (events : List (Event V)) (lines : List CString) : Prop where
  keeps : ∀ e ∈ events, KeepsSubscriptions e
  written : serial_lines fp events = lines

namespace Writes

variable {fp : FloatFormat V} {events events' : List (Event V)} {lines lines' : List CString}

/-- Parts one after the other. -/
theorem append (h : Writes fp events lines) (h' : Writes fp events' lines') :
    Writes fp (events ++ events') (lines ++ lines') where
  keeps e he := by
    rcases List.mem_append.mp he with he | he
    · exact h.keeps e he
    · exact h'.keeps e he
  written := by
    unfold serial_lines
    rw [List.flatMap_append]
    exact congrArg₂ (· ++ ·) h.written h'.written

/-- Something in front that writes nothing. -/
theorem cons {e : Event V} (he : KeepsSubscriptions e) (hline : serial_line fp e = [])
    (h : Writes fp events lines) : Writes fp (e :: events) lines where
  keeps := List.forall_mem_cons.mpr ⟨he, h.keeps⟩
  written := by
    unfold serial_lines
    rw [List.flatMap_cons, hline]
    exact h.written

end Writes

/-- A message without directives is a line of its own. -/
theorem plain_writes (fp : FloatFormat V) {severity : UInt32} {s : String} (hs : is_plain s = true)
    (hlength : (literal s).length ≤ 119) (hlevel : ULOG_DEBUG_LEVEL ≤ severity) :
    Writes fp [message severity s []] [line_string severity (literal s)]
      ∧ ∀ e ∈ [message severity s []], e.Sound fp := by
  have hprints : Prints fp (literal s) ([] : List (VaArg V)) (literal s) := .literal hs
  have hkept : kept (literal s) = literal s := List.take_of_length_le hlength
  have hline : serial_line fp (message severity s []) = [line_string severity (literal s)] := by
    unfold message serial_line
    dsimp only
    rw [hprints.render]
    dsimp only
    rw [if_pos hlevel, hkept]
  refine ⟨⟨List.forall_mem_singleton.mpr trivial, ?_⟩,
    List.forall_mem_singleton.mpr ⟨_, hprints.render⟩⟩
  show serial_line fp (message severity s []) ++ [] = _
  rw [List.append_nil, hline]

/-- Printing is not logged, and the calls of detection are all sound: so they add no line for the
    serial port and cannot end the run in a fault. -/
theorem printed_writes {fp : FloatFormat V} {events : List (Event V)} {text : List UInt8}
    (h : Cpu.Printed fp events text) : Writes fp events [] ∧ ∀ e ∈ events, e.Sound fp := by
  induction h with
  | nil => exact ⟨⟨fun _ h => absurd h List.not_mem_nil, rfl⟩, fun _ h => absurd h List.not_mem_nil⟩
  | cons first rest ih =>
    exact ⟨ih.1.cons trivial rfl, List.forall_mem_cons.mpr ⟨⟨_, first.render⟩, ih.2⟩⟩

/-- Detection is a list of sound calls, for every answer of `cpuid`. -/
theorem detect_cpu_printed (fp : FloatFormat V) (cpuid : UInt32 → CpuidRegs) (junk : UInt8) :
    ∃ text, Cpu.Printed fp (detect_cpu cpuid junk) text := by
  unfold detect_cpu
  dsimp only
  split_ifs
  · obtain ⟨text, hprinted, -⟩ := Cpu.do_intel_printed fp cpuid junk
    exact ⟨text, hprinted⟩
  · obtain ⟨text, hprinted, -⟩ := Cpu.do_amd_printed fp cpuid junk
    exact ⟨text, hprinted⟩
  · exact ⟨_, .one (.literal rfl)⟩

/-- One entry of the map is printed, not logged. -/
theorem print_entry_keeps (x : LimineMemmapEntry) :
    ∀ e ∈ print_entry (V := V) x, KeepsSubscriptions e := by
  intro e he
  unfold print_entry at he
  rcases List.mem_append.mp he with he | he
  · split_ifs at he
    · rw [List.mem_singleton.mp he]
      trivial
    · exact absurd he List.not_mem_nil
  · rcases List.mem_cons.mp he with rfl | he
    · trivial
    · rw [List.mem_singleton.mp he]
      trivial

/-- Nor does freeing the pages take a logger away. -/
theorem free_report_keeps (g_hhdm_offset : UInt64) (entries : List LimineMemmapEntry) :
    ∀ p, ∀ e ∈ free_report (V := V) g_hhdm_offset p entries, KeepsSubscriptions e := by
  induction entries with
  | nil => exact fun _ _ h => absurd h List.not_mem_nil
  | cons x entries ih =>
    intro p e he
    rw [free_report] at he
    rcases List.mem_append.mp he with he | he
    · split_ifs at he
      · rw [List.mem_singleton.mp he]
        trivial
      · exact absurd he List.not_mem_nil
    · exact ih _ e he

/-- The memory manager keeps the loggers, however far the printing of the map has come: it logs,
    prints and sets colours, and none of these is a subscription. -/
theorem report_keeps (g_hhdm_offset : UInt64) (ram : WordRows) (entries : List LimineMemmapEntry)
    (rounds : ℕ) : ∀ e ∈ pmm_initialize_report (V := V) g_hhdm_offset ram entries rounds,
      KeepsSubscriptions e := by
  have hcount : ∀ p, ∀ e ∈ count_report (V := V) p, KeepsSubscriptions e := by
    intro p
    unfold count_report
    exact List.forall_mem_cons.mpr ⟨trivial, List.forall_mem_singleton.mpr trivial⟩
  have hplace : ∀ p es, ∀ e ∈ place_report (V := V) p es, KeepsSubscriptions e := by
    intro p es
    unfold place_report
    cases es.find? (suitable p) with
    | none => exact fun _ h => absurd h List.not_mem_nil
    | some e => exact List.forall_mem_singleton.mpr trivial
  have hloop : ∀ es, ∀ e ∈ (print_loop_report (V := V) es rounds 0).1, KeepsSubscriptions e := by
    intro es e he
    obtain ⟨x, -, he⟩ := List.mem_flatMap.mp (print_loop_within rounds he)
    exact print_entry_keeps x e he
  have hrest : ∀ p es, ∀ e ∈ rest_report (V := V) g_hhdm_offset p es, KeepsSubscriptions e :=
    fun p es => List.forall_mem_append.mpr
      ⟨free_report_keeps g_hhdm_offset es p, List.forall_mem_singleton.mpr trivial⟩
  unfold pmm_initialize_report map_report
  dsimp only
  refine List.forall_mem_append.mpr ⟨hcount _, List.forall_mem_append.mpr ⟨hplace _ _, ?_⟩⟩
  -- no place for the bitmap, a map that is printed to its end, and one that is printed for ever
  split_ifs
  · exact List.forall_mem_singleton.mpr trivial
  · exact List.forall_mem_cons.mpr ⟨trivial, List.forall_mem_append.mpr ⟨hloop _, hrest _ _⟩⟩
  · exact List.forall_mem_cons.mpr ⟨trivial, List.forall_mem_append.mpr
      ⟨hloop _, fun _ h => absurd h List.not_mem_nil⟩⟩

/-! ## §3. The kernel. -/

/-- The line about the direct map. -/
def hhdm_line (response : Option UInt64) : CString :=
  match response with
  | none => line_string ULOG_CRITICAL_LEVEL (literal "HHDM Request Failed.")
  | some _ => line_string ULOG_INFO_LEVEL (literal "HHDM Set.")

/-- Either message is a line. -/
theorem hhdm_writes (fp : FloatFormat V) (response : Option UInt64) :
    Writes fp [(Kernel.hhdm_initialize response).2] [hhdm_line response]
      ∧ ∀ e ∈ [(Kernel.hhdm_initialize (V := V) response).2], e.Sound fp := by
  cases response with
  | none => exact plain_writes fp rfl (by decide) (by decide)
  | some offset => exact plain_writes fp rfl (by decide) (by decide)

/-- What the parts before the memory manager write. -/
def early_lines (response : Option UInt64) : List CString :=
  [line_string ULOG_INFO_LEVEL (literal "Initializing GDT..."),
    line_string ULOG_INFO_LEVEL (literal "GDT initialized!"), hhdm_line response]

/-- The parts before the memory manager write their lines and cannot fail. -/
theorem early_writes (fp : FloatFormat V) (cpuid : UInt32 → CpuidRegs) (junk : UInt8)
    (response : Option UInt64) :
    Writes fp (early_report cpuid junk response) (early_lines response)
      ∧ ∀ e ∈ early_report (V := V) cpuid junk response, e.Sound fp := by
  obtain ⟨text, hprinted⟩ := detect_cpu_printed fp cpuid junk
  obtain ⟨hdetect, hsound⟩ := printed_writes hprinted
  obtain ⟨hstart, hstart'⟩ := plain_writes fp (rfl : is_plain "Initializing GDT..." = true)
    (by decide) (by decide : ULOG_DEBUG_LEVEL ≤ ULOG_INFO_LEVEL)
  obtain ⟨hdone, hdone'⟩ := plain_writes fp (rfl : is_plain "GDT initialized!" = true)
    (by decide) (by decide : ULOG_DEBUG_LEVEL ≤ ULOG_INFO_LEVEL)
  obtain ⟨hhdm, hhdm'⟩ := hhdm_writes fp response
  constructor
  -- the lines, from the last part to the first
  · have hgdt := (hstart.append hdone).append hhdm
    have hreset : Writes fp (.reset_text_color :: _) _ := hgdt.cons trivial rfl
    have hall : Writes fp (.set_text_color COLORS_WHITE :: _) _ :=
      (hdetect.append hreset).cons trivial rfl
    exact hall
  · have hgdt := List.forall_mem_append.mpr ⟨List.forall_mem_append.mpr ⟨hstart', hdone'⟩, hhdm'⟩
    exact List.forall_mem_cons.mpr ⟨trivial, List.forall_mem_append.mpr ⟨hsound,
      List.forall_mem_cons.mpr ⟨trivial, hgdt⟩⟩⟩

/-- **Boot, as the serial port sees it.**  For every processor, every offset the bootloader answers
    with and every memory map: what the kernel prints and logs, whether it ends, halts or prints the
    map for ever, is free of undefined behaviour exactly when no number of the map that it prints
    with `%d` has the low half 2^31.  At every moment the serial port has got the lines of the
    descriptor tables and the direct map, and then those of the memory manager.  The serial port has
    been initialised. -/
theorem kernel_main_log (ssfn_putc : Framebuffer.Terminal → UInt32 → Framebuffer.Terminal)
    (fp : FloatFormat V) (l : Layout) (m : Memory) (c : Console) (hinit : c.is_initialized = true)
    (cpuid : UInt32 → CpuidRegs) (junk : UInt8) (offset : UInt64) (ram : WordRows)
    (entries : List LimineMemmapEntry) :
    ((∀ rounds, ∃ r, runs (Event.run ssfn_putc fp l) (ulog_init, ⟨m, c⟩)
        (kernel_main cpuid junk (some offset) ram entries rounds) = .ok r)
      ↔ ∀ n ∈ int_numbers offset ram entries, Negatable n)
    ∧ ∀ rounds r, runs (Event.run ssfn_putc fp l) (ulog_init, ⟨m, c⟩)
        (kernel_main cpuid junk (some offset) ram entries rounds) = .ok r →
      r.2.2.console.written = c.written ++ (early_lines (some offset)
        ++ serial_lines fp (pmm_initialize_report offset ram entries rounds)) := by
  obtain ⟨hearly, hsound⟩ := early_writes fp cpuid junk (some offset)
  constructor
  · -- only the memory manager has formats that can fail
    have htold : (∀ e ∈ pmm_initialize_report offset ram entries (2 ^ 8), e.Sound fp) ↔ _ :=
      pmm_initialize_report_told offset ram entries
    have hruns : ∀ rounds, (∃ r, runs (Event.run ssfn_putc fp l) (ulog_init, ⟨m, c⟩)
          (kernel_main cpuid junk (some offset) ram entries rounds) = .ok r)
        ↔ ∀ e ∈ pmm_initialize_report offset ram entries rounds, e.Sound fp := by
      intro rounds
      rw [runs_ok_iff ssfn_putc fp l _ (start_reports m c), kernel_main, List.forall_mem_cons,
          List.forall_mem_append]
      exact ⟨fun h => h.2.2, fun h => ⟨trivial, hsound, h⟩⟩
    rw [← htold]
    constructor
    · intro h
      exact (hruns _).mp (h (2 ^ 8))
    · intro h rounds
      exact (hruns rounds).mpr fun e he =>
        h e (pmm_initialize_report_within offset ram entries rounds he)
  · intro rounds r hrun
    have hall : Writes fp (early_report cpuid junk (some offset)
          ++ pmm_initialize_report offset ram entries rounds)
        (early_lines (some offset)
          ++ serial_lines fp (pmm_initialize_report offset ram entries rounds)) :=
      hearly.append ⟨report_keeps offset ram entries rounds, rfl⟩
    rw [← hall.written]
    exact (run_subscribed ssfn_putc fp l m c hinit _ hall.keeps hrun).2.2

/-- The small machine with a processor that is not known: after 2^8 rounds boot is over. -/
theorem kernel_main_log_small :
    ∃ r, runs (Event.run Framebuffer.fixed_width
            (⟨fun _ _ _ _ => [], fun _ _ _ _ => []⟩ : FloatFormat Unit) kernel_layout)
          (ulog_init, ⟨⟨fun _ => 0, []⟩, vga_console⟩)
          (kernel_main (fun _ => ⟨0, 0, 0, 0⟩) 0 (some small_hhdm) (fun _ => 0) small_machine
            (2 ^ 8)) = .ok r
      ∧ (r.2.2.console.written.take 3).map CString.bytes
        = [literal "[INFO]: Initializing GDT...\n", literal "[INFO]: GDT initialized!\n",
          literal "[INFO]: HHDM Set.\n"] := by
  obtain ⟨hiff, hwritten⟩ := kernel_main_log Framebuffer.fixed_width
    (⟨fun _ _ _ _ => [], fun _ _ _ _ => []⟩ : FloatFormat Unit) kernel_layout
    ⟨fun _ => 0, []⟩ vga_console rfl (fun _ => ⟨0, 0, 0, 0⟩) 0 small_hhdm (fun _ => 0) small_machine
  have hnumbers : ∀ n ∈ int_numbers small_hhdm (fun _ => 0) small_machine, Negatable n := by
    intro n hn
    have hall : (int_numbers small_hhdm (fun _ => 0) small_machine).all
        (fun n => decide (Negatable n)) = true := rfl
    exact of_decide_eq_true (List.all_eq_true.mp hall n hn)
  obtain ⟨r, hr⟩ := hiff.mpr hnumbers (2 ^ 8)
  refine ⟨r, hr, ?_⟩
  rw [hwritten _ r hr]
  rfl

end Hippos.Kernel
