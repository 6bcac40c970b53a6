/-
  Hippos.Cpu.Exception — from an exception to the log, `exception_handler` of `cpu/idt.c`.

  The gate of a vector leads to its stub, the stub to the handler, and the handler logs a message
  that a `switch` chooses; two of its cases fall through into the next one.  The number it switches
  on is found where it is looked for even when the frame of the stub is a word too long or too
  short, so every exception is reported by its own message, on the terminal and to the serial port.

  The report is put together from three results on the parts: `enter_stub` for the tables,
  `run_to_call` for the assembly, and the refinement of the log to its meaning.  An exception is
  taken here between two calls of the log, and on a stack that can be written, with memory of its
  own; one inside a log call, which would find the log's buffer half written, is not covered.

  Main results:
    * `vector_number_at_call` — the vector is read right, whatever the frame.
    * `switch_on_reported` — what the `switch` logs for each of the 32 vectors.
    * `critical_meaning` — a message of the handler reaches both loggers as it is.
    * `exception_reported` — every exception is reported by its own message.
-/
import Hippos.Cpu.Gates
import Hippos.Log.Klog
import Mathlib.Tactic.FinCases

namespace Hippos.Cpu

open Hippos.Lib
open Hippos.Libc.Printf
open Hippos.Log hiding deliver
open Hippos.Framebuffer (Terminal fixed_width)
open Hippos.Io

variable {V : Type}

/-! ## §1. The handler. -/

/-- `case label:` with its message, and whether a `break` follows; no label is `default:`. -/
structure Case where
  label : Option UInt64
  message : String
  breaks : Bool

/-- The `switch` of `exception_handler`, case by case.  There is no `break` behind 12 and 20. -/
def exception_cases : List Case :=
  [⟨some 0, "Critical, Interrupt: Divide Error.", true⟩,
   ⟨some 1, "Critical, Interrupt: Debug Exception.", true⟩,
   ⟨some 2, "Critical, Interrupt: Non Maskable External Interrupt.", true⟩,
   ⟨some 3, "Critical, Interrupt: Breakpoint Reached.", true⟩,
   ⟨some 4, "Critical, Interrupt: Overflow.", true⟩,
   ⟨some 5, "Critical, Interrupt: BOUND Range Exceeded.", true⟩,
   ⟨some 6, "Critical, Interrupt: Invalid Opcode (Undefined Opcode).", true⟩,
   ⟨some 7, "Critical, Interrupt: Device Not Available (No Math Coprocessor).", true⟩,
   ⟨some 8, "Critical, Interrupt: Double Fault.", true⟩,
   ⟨some 9, "Critical, Interrupt: Coprocessor Segment Overrun.", true⟩,
   ⟨some 10, "Critical, Interrupt: Invalid TSS.", true⟩,
   ⟨some 11, "Critical, Interrupt: Segment Not Present.", true⟩,
   ⟨some 12, "Critical, Interrupt: Stack-Segment Fault.", false⟩,
   ⟨some 13, "Critical, Interrupt: General Protection Fault.", true⟩,
   ⟨some 14, "Critical, Interrupt: Page Fault.", true⟩,
   ⟨some 15,
    "Critical, Interrupt: This interrupt is reserved by Intel. This should not be used.", true⟩,
   ⟨some 16, "Critical, Interrupt: x87 FPU Floating-Point Error (Math Fault).", true⟩,
   ⟨some 17, "Critical, Interrupt: Alignment Check Fault.", true⟩,
   ⟨some 18, "Critical, Interrupt: Machine Check. Abort.", true⟩,
   ⟨some 19, "Critical, Interrupt: SIMD Floating-Point Exception Fault.", true⟩,
   ⟨some 20, "Critical, Interrupt: Virtualization Exception Fault.", false⟩,
   ⟨some 21, "Critical, Interrupt: Control Protection Exception Fault.", true⟩,
   ⟨none, "Critical, Interrupt: Unexpected Interrupt.", true⟩]

/-- The statements from a case on, up to its `break`. -/
def fall_through : List Case → List String
  | [] => []
  | c :: rest => c.message :: if c.breaks then [] else fall_through rest

/-- What the `switch` logs for a number.  `default:` is the last case, so a number without a case
    gets there by itself. -/
def switch_on (n : UInt64) : List String :=
  fall_through (exception_cases.dropWhile fun c => c.label != none && c.label != some n)

/-- `ULOG_CRITICAL(message)`, without arguments. -/
def ULOG_CRITICAL (message : String) : Event V :=
  .log (.message ULOG_CRITICAL_LEVEL (literal message ++ [0]) [])

/-- What the handler logs before `cli; hlt`.  It reads nothing of the frame but the number. -/
def exception_handler (context : cpu_status_t) : List (Event V) :=
  (switch_on context.vector_number).map ULOG_CRITICAL

/-! ## §2. The number. -/

/-- **The number is read right whatever the frame**: it lies below what processor and stub disagree
    about, four words above where the handler finds its argument. -/
theorem vector_number_at_call (amd : Bool) (v : Fin 32) (s : Interrupted) (error top : UInt64) :
    (read_cpu_status (at_call amd v s error top).stack.mem
      (at_call amd v s error top).rdi).vector_number = UInt64.ofNat v.val := by
  show (read_cpu_status ({ s.cpu.stack with sp := top }.pushAll (frame amd v s error)).mem
    ({ s.cpu.stack with sp := top }.pushAll (frame amd v s error)).sp).vector_number = _
  rw [read_cpu_status_sp]
  apply SlotStack.slot_pushAll _ _ _ _ (by decide)
  unfold frame stub_words
  rw [← List.append_assoc, List.append_assoc, List.reverse_append]
  rfl

/-! ## §3. The messages. -/

/-- The message of an exception: that of its case, without what it falls through to. -/
def exception_message (n : UInt64) : String :=
  match exception_cases.find? fun c => c.label == some n with
  | some c => c.message
  | none => "Critical, Interrupt: Unexpected Interrupt."

/-- What is reported of an exception: 12 and 20 are reported as the next one, too. -/
def reported (v : Fin 32) : List String :=
  exception_message (UInt64.ofNat v.val)
    :: if v = 12 then [exception_message 13] else if v = 20 then [exception_message 21] else []

/-- The `switch` over all 32 vectors: a vector with a case of its own reports that case's message,
    12 and 20 go on to the case behind theirs, and those without one have the message of the
    default.  The check is by cases on the vector, since the `switch` itself is a table. -/
theorem switch_on_reported (v : Fin 32) : switch_on (UInt64.ofNat v.val) = reported v := by
  fin_cases v <;> rfl

/-- A message that is logged as it is: it has no directive, and it is short enough for the buffer of
    the log. -/
structure Loggable (message : String) : Prop where
  plain : is_plain message = true
  short : (literal message).length ≤ ULOG_MAX_MESSAGE_LENGTH - 1

/-- Every message of the handler is. -/
theorem cases_loggable : ∀ c ∈ exception_cases, Loggable c.message := by
  have hall : exception_cases.all (fun c => is_plain c.message
      && decide ((literal c.message).length ≤ ULOG_MAX_MESSAGE_LENGTH - 1)) = true := rfl
  intro c hc
  have hmessage := List.all_eq_true.mp hall c hc
  rw [Bool.and_eq_true, decide_eq_true_iff] at hmessage
  exact ⟨hmessage.1, hmessage.2⟩

/-- The switch logs nothing but messages of its cases. -/
theorem mem_fall_through {message : String} :
    ∀ {l : List Case}, message ∈ fall_through l → ∃ c ∈ l, c.message = message := by
  intro l
  induction l with
  | nil => exact fun h => absurd h List.not_mem_nil
  | cons c rest ih =>
    intro h
    unfold fall_through at h
    rcases List.mem_cons.mp h with rfl | h
    · exact ⟨c, List.mem_cons_self, rfl⟩
    · split_ifs at h
      · exact absurd h List.not_mem_nil
      · obtain ⟨d, hd, hmessage⟩ := ih h
        exact ⟨d, List.mem_cons_of_mem c hd, hmessage⟩

/-- So whatever the number is, what is logged for it is logged as it is. -/
theorem switch_on_loggable (n : UInt64) : ∀ message ∈ switch_on n, Loggable message := by
  intro message hmem
  obtain ⟨c, hc, rfl⟩ := mem_fall_through hmem
  exact cases_loggable c ((List.dropWhile_suffix _).subset hc)

/-! ## §4. The report. -/

section Report

variable (ssfn_putc : Terminal → UInt32 → Terminal) (fp : FloatFormat V)

/-- The console after the critical messages: each a line in the terminal, and a line for the serial
    port. -/
def tell (messages : List String) (c : Console) : Console where
  terminal := messages.foldl
    (fun t message => show_line ssfn_putc ULOG_CRITICAL_LEVEL (literal message) t) c.terminal
  is_initialized := c.is_initialized
  written := c.written ++ messages.map fun message =>
    line_string ULOG_CRITICAL_LEVEL (literal message)

/-- One critical message reaches both loggers: the threshold of either lets it through, and as it
    has no directive and fits the buffer, neither does it change nor cut it.  This is the step that
    the messages of an exception are made of. -/
theorem critical_meaning {message : String} (h : Loggable message) {c : Console}
    (hinit : c.is_initialized = true) :
    (ULOG_CRITICAL message).meaning ssfn_putc fp (default_audience, c)
      = .ok (.ULOG_ERR_NONE, default_audience, tell ssfn_putc [message] c) := by
  have hkept : kept (literal message) = literal message := List.take_of_length_le h.short
  have hprints : Prints fp (literal message) [] (literal message) := .literal h.plain
  have hnul : before_nul (literal message) = literal message :=
    before_nul_of_nonzero hprints.nonzero
  have hkernel : default_audience.hears ULOG_CRITICAL_LEVEL .kernel_log := by
    unfold Audience.hears
    decide
  have hserial : default_audience.hears ULOG_CRITICAL_LEVEL .serial_log :=
    (default_hears_serial _).mpr (by decide)
  unfold ULOG_CRITICAL Event.meaning
  dsimp only
  rw [hprints.render, ok_bind]
  unfold report tell
  rw [hkept, hnul, if_pos hkernel, if_pos ⟨hserial, hinit⟩]
  rfl

/-- So do several of them, one after the other. -/
theorem critical_runs (messages : List String) (h : ∀ message ∈ messages, Loggable message) :
    ∀ c : Console, c.is_initialized = true →
      ∃ errs, runs (Event.meaning ssfn_putc fp) (default_audience, c) (messages.map ULOG_CRITICAL)
        = .ok (errs, default_audience, tell ssfn_putc messages c) := by
  induction messages with
  | nil =>
    intro c _
    refine ⟨[], ?_⟩
    unfold tell
    rw [List.map_nil, List.map_nil, List.append_nil]
    rfl
  | cons message messages ih =>
    intro c hinit
    obtain ⟨errs, hrest⟩ := ih (fun x hx => h x (List.mem_cons_of_mem _ hx))
      (tell ssfn_putc [message] c) hinit
    refine ⟨.ULOG_ERR_NONE :: errs, ?_⟩
    rw [List.map_cons, runs, critical_meaning ssfn_putc fp (h message List.mem_cons_self) hinit,
        ok_bind]
    dsimp only
    rw [hrest, ok_bind]
    unfold tell
    dsimp only
    rw [List.map_cons, List.map_cons, List.map_nil, List.append_assoc]
    rfl

/-- **Every exception is reported.**  Take the descriptor tables and both loggers as set up, with
    whatever has been logged since, and any of the 32 exceptions between two calls of the log, on a
    usable stack with memory of its own.  It enters the stub of its vector, the stub calls the
    handler, and the handler has its own message written to the terminal and to the serial port, and
    after it nothing else but, for 12 and 20, the message of the next exception. -/
theorem exception_reported (idt gdt : UInt64) (stub_address : ℕ → UInt64) (core : Core)
    (hgdt : GdtAt core.memory gdt)
    (hapart : gdt.toNat + 40 ≤ idt.toNat ∨ idt.toNat + 512 ≤ gdt.toNat)
    (code : UInt64 → List Instr) (hcode : ∀ v : Fin 32, code (stub_address v.val) = isr_stub v)
    (l : Layout) (m : Memory) (c : Console) (hinit : c.is_initialized = true)
    (events : List (Event V)) (hkeeps : ∀ e ∈ events, KeepsSubscriptions e)
    {r : List UlogErr × Subscribers Logger × World Console}
    (hrun : runs (Event.run ssfn_putc fp l) (ulog_init, ⟨m, c⟩) (.subscribe_loggers :: events)
      = .ok r)
    (amd : Bool) (v : Fin 32) (s : Interrupted) (error top : UInt64)
    (handler : Machine → Machine) :
    ∃ e machine k,
      enter (Cpu.idt_initialize idt stub_address (Cpu.gdt_initialize gdt core)) (UInt8.ofNat v.val)
        = some e
        ∧ run_to handler .call_exception_handler fuel (code e.rip) (deliver amd v s error top)
            = some machine
        ∧ runs (Event.run ssfn_putc fp l) r.2
            (exception_handler (read_cpu_status machine.stack.mem machine.rdi)) = .ok k
        ∧ k.2.2.console = tell ssfn_putc (reported v) r.2.2.console
        ∧ k.2.2.console.written = c.written ++ serial_lines fp events
            ++ (reported v).map (fun message =>
                line_string ULOG_CRITICAL_LEVEL (literal message)) := by
  have hv : (UInt8.ofNat v.val).toNat = v.val := by
    rw [UInt8.toNat_ofNat']
    omega
  have henter := enter_stub idt gdt stub_address hgdt hapart (v := UInt8.ofNat v.val) (by omega)
  -- the stub is entered and reaches the call
  have hcall : run_to handler .call_exception_handler fuel
      (code (stub_address (UInt8.ofNat v.val).toNat)) (deliver amd v s error top)
        = some (at_call amd v s error top) := by
    rw [hv, hcode]
    exact run_to_call amd v s error top handler
  -- the log is in the state that its events leave
  obtain ⟨hreports, hinit', hwritten⟩ :=
    run_subscribed ssfn_putc fp l m c hinit events hkeeps hrun
  -- what the handler logs, in the meaning of the log and then in its code
  have hloggable := switch_on_loggable (UInt64.ofNat v.val)
  rw [switch_on_reported] at hloggable
  obtain ⟨errs, hmeaning⟩ :=
    critical_runs ssfn_putc fp (reported v) hloggable r.2.2.console hinit'
  have hmatch := runs_refine (event_reports ssfn_putc fp l) ((reported v).map ULOG_CRITICAL)
    r.2 (default_audience, r.2.2.console) hreports
  rw [hmeaning] at hmatch
  obtain ⟨k, hk, -, -, hconsole⟩ := Matches.value hmatch
  have hconsole : k.2.2.console = tell ssfn_putc (reported v) r.2.2.console := hconsole
  refine ⟨_, _, k, henter, hcall, ?_, hconsole, ?_⟩
  · unfold exception_handler
    rw [vector_number_at_call, switch_on_reported]
    exact hk
  · rw [hconsole, ← hwritten]
    rfl

/-- No floating point is printed. -/
def no_floats : FloatFormat Unit := ⟨fun _ _ _ _ => [], fun _ _ _ _ => []⟩

/-- Stubs 16 bytes apart. -/
def stub_at (v : ℕ) : UInt64 := UInt64.ofNat (0x100000 + 16 * v)

/-- The stub at such an address. -/
def code_at (a : UInt64) : List Instr := isr_stub_table.getD ((a.toNat - 0x100000) / 16) []

/-- A stack fault after a logged error: its message, and the one of the case below it. -/
theorem exception_reported_stack_fault :
    ∃ r e machine k,
      runs (Event.run fixed_width no_floats kernel_layout)
          (ulog_init, ⟨⟨fun _ => 0, []⟩, vga_console⟩)
          [.subscribe_loggers, .log (.message ULOG_ERROR_LEVEL [0x68, 0x69, 0] [])] = .ok r
        ∧ enter (Cpu.idt_initialize 0x1000 stub_at (Cpu.gdt_initialize 0x800 boot_core)) 12 = some e
        ∧ run_to id .call_exception_handler fuel (code_at e.rip)
            (deliver false 12 faulting 0 0xffff800000010000) = some machine
        ∧ runs (Event.run fixed_width no_floats kernel_layout) r.2
            (exception_handler (read_cpu_status machine.stack.mem machine.rdi)) = .ok k
        ∧ k.2.2.console.written.map CString.bytes
          = [literal "[ERROR]: hi\n",
             literal "[CRITICAL]: Critical, Interrupt: Stack-Segment Fault.\n",
             literal "[CRITICAL]: Critical, Interrupt: General Protection Fault.\n"] := by
  obtain ⟨r, hr, -⟩ := Matches.value (runs_refine
    (event_reports fixed_width no_floats kernel_layout)
    [.subscribe_loggers, .log (.message ULOG_ERROR_LEVEL [0x68, 0x69, 0] [])] _ _
    (start_reports ⟨fun _ => 0, []⟩ vga_console))
  obtain ⟨e, machine, k, henter, hcall, hk, -, hwritten⟩ := exception_reported fixed_width no_floats
    0x1000 0x800 stub_at boot_core (by unfold GdtAt; decide +kernel) (by decide)
    code_at (by decide) kernel_layout ⟨fun _ => 0, []⟩ vga_console rfl
    [.log (.message ULOG_ERROR_LEVEL [0x68, 0x69, 0] [])] (by simp [KeepsSubscriptions]) hr
    false 12 faulting 0 0xffff800000010000 id
  refine ⟨r, e, machine, k, hr, henter, hcall, hk, ?_⟩
  rw [hwritten]
  rfl

end Report

end Hippos.Cpu
