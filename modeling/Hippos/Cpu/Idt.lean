/-
  Hippos.Cpu.Idt — exception entry and exit, `asm/idt.asm` against `cpu/idt.h`.

  Three parties describe one stack layout: the processor pushes five or six words, a stub chosen
  vector by vector adds one or two, and `cpu_status_t` is read at fixed offsets.  The stubs are
  lists of instructions, run by a small interpreter; the processor is `deliver`.  The layouts agree
  when exactly one of processor and stub supplies an error code.

  The interpreter is used once: `run_to_plain` turns straight-line code into a fold,
  `interrupt_stub_call` and `interrupt_stub_iret` describe the common stub, and `isr_stub_run` puts
  the two macros in front.  From there on a frame is a list of words, and what is asked of it is
  which word is in which slot and how many there are.

  Main results:
    * `run_to_call`, `run_to_iret` — the machine at the call of the handler and at `iret`.
    * `status_at_call` — with one error code the handler is shown the right values.
    * `rip_slot_iff` — RSP is right at `iret` exactly when eleven words were pushed.
    * `frame_correct_iff` — the vectors for which the layouts agree.
-/
import Hippos.Lib.SlotStack

namespace Hippos.Cpu

open Hippos.Lib

/-! ## §1. The machine. -/

/-- The registers that occur in the stubs. -/
inductive Reg where
  | rax | rbx | rdi | rsp | r14 | r15
  deriving Repr, DecidableEq

/-- The registers the stubs use; `rsp` is the pointer of `stack`. -/
structure Machine where
  rax : UInt64
  rbx : UInt64
  rdi : UInt64
  r14 : UInt64
  r15 : UInt64
  stack : SlotStack

/-- The value of a register. -/
def Machine.get (m : Machine) : Reg → UInt64
  | .rax => m.rax
  | .rbx => m.rbx
  | .rdi => m.rdi
  | .rsp => m.stack.sp
  | .r14 => m.r14
  | .r15 => m.r15

/-- A value put into a register. -/
def Machine.set (m : Machine) (v : UInt64) : Reg → Machine
  | .rax => { m with rax := v }
  | .rbx => { m with rbx := v }
  | .rdi => { m with rdi := v }
  | .rsp => { m with stack := { m.stack with sp := v } }
  | .r14 => { m with r14 := v }
  | .r15 => { m with r15 := v }

/-! ## §2. The assembly. -/

/-- The instructions of `idt.asm`. -/
inductive Instr where
  | push_qword (imm : UInt64)
  | push (r : Reg)
  | pop (r : Reg)
  | mov (dst src : Reg)
  | add (dst : Reg) (imm : UInt64)
  | jmp_interrupt_stub
  | call_exception_handler
  | iret
  deriving Repr, DecidableEq

/-- The macro `isr_err_stub`: push a dummy error code and the vector number. -/
def isr_err_stub (v : UInt64) : List Instr := [.push_qword 0, .push_qword v, .jmp_interrupt_stub]

/-- The macro `isr_no_err_stub`: push just the vector number. -/
def isr_no_err_stub (v : UInt64) : List Instr := [.push_qword v, .jmp_interrupt_stub]

/-- The stubs, vector by vector, as the macros are used in the source. -/
def isr_stub_table : List (List Instr) :=
  [isr_no_err_stub 0, isr_no_err_stub 1, isr_no_err_stub 2, isr_no_err_stub 3,
   isr_no_err_stub 4, isr_no_err_stub 5, isr_no_err_stub 6, isr_no_err_stub 7,
   isr_err_stub 8, isr_no_err_stub 9, isr_err_stub 10, isr_err_stub 11,
   isr_err_stub 12, isr_err_stub 13, isr_err_stub 14, isr_no_err_stub 15,
   isr_no_err_stub 16, isr_err_stub 17, isr_no_err_stub 18, isr_no_err_stub 19,
   isr_no_err_stub 20, isr_no_err_stub 21, isr_no_err_stub 22, isr_no_err_stub 23,
   isr_no_err_stub 24, isr_no_err_stub 25, isr_no_err_stub 26, isr_no_err_stub 27,
   isr_no_err_stub 28, isr_no_err_stub 29, isr_err_stub 30, isr_no_err_stub 31]

/-- `isr_stub_v`. -/
def isr_stub (v : Fin 32) : List Instr := isr_stub_table.getD v.val []

/-- `interrupt_stub`: four registers saved, the handler called with the stack pointer, and all of it
    taken down, with 16 bytes for the two words of the stub. -/
def interrupt_stub : List Instr :=
  [.push .rax, .push .rbx, .push .r14, .push .r15,
   .mov .rdi .rsp, .call_exception_handler, .mov .rsp .rax,
   .pop .r15, .pop .r14, .pop .rbx, .pop .rax,
   .add .rsp 16, .iret]

/-- One instruction.  `handler` is the whole call of `exception_handler`; the two jumps are taken by
    `run_to`. -/
def exec (handler : Machine → Machine) (m : Machine) : Instr → Machine
  | .push_qword imm => { m with stack := m.stack.push imm }
  | .push r => { m with stack := m.stack.push (m.get r) }
  | .pop r =>
    { m with stack := { m.stack with sp := m.stack.sp + 8 } }.set (m.stack.slot 0) r
  | .mov dst src => m.set (m.get src) dst
  | .add dst imm => m.set (m.get dst + imm) dst
  | .jmp_interrupt_stub => m
  | .call_exception_handler => handler m
  | .iret => m

/-- Run up to, but not including, the next `target`. -/
def run_to (handler : Machine → Machine) (target : Instr) :
    (fuel : ℕ) → List Instr → Machine → Option Machine
  | 0, _, _ => none
  | _, [], _ => none
  | fuel + 1, i :: rest, m =>
    if i = target then some m
    else if i = .jmp_interrupt_stub then run_to handler target fuel interrupt_stub m
    else run_to handler target fuel rest (exec handler m i)

/-! ## §3. The processor. -/

/-- The interrupted program: `cpu.stack.sp` is its RSP. -/
structure Interrupted where
  rip : UInt64
  cs : UInt64
  rflags : UInt64
  ss : UInt64
  cpu : Machine

/-- The vectors for which the processor pushes an error code.  Two of them are defined by AMD
    only. -/
def has_error_code (amd : Bool) (v : Fin 32) : Bool :=
  v.val == 8 || (10 ≤ v.val && v.val ≤ 14) || v.val == 17 || v.val == 21
    || (amd && (v.val == 29 || v.val == 30))

/-- The words the processor pushes, in its order. -/
def pushed (amd : Bool) (v : Fin 32) (s : Interrupted) (error : UInt64) : List UInt64 :=
  [s.ss, s.cpu.stack.sp, s.rflags, s.cs, s.rip] ++ if has_error_code amd v then [error] else []

/-- Exception delivery on the stack that starts at `top`: the aligned stack of the interrupted
    program, or one from the TSS.  The stack is memory of its own and every push succeeds; a stack
    that cannot be written, where the processor would fault again, is outside of this model. -/
def deliver (amd : Bool) (v : Fin 32) (s : Interrupted) (error top : UInt64) : Machine :=
  { s.cpu with stack := { s.cpu.stack with sp := top }.pushAll (pushed amd v s error) }

/-- Where `deliver` puts RIP. -/
def rip_slot (top : UInt64) : UInt64 := top - 40

/-! ## §4. The C side. -/

/-- `cpu_status_t`, in the order of its fields. -/
structure cpu_status_t where
  r15 : UInt64
  r14 : UInt64
  rbx : UInt64
  rax : UInt64
  vector_number : UInt64
  error_code : UInt64
  iret_rip : UInt64
  iret_cs : UInt64
  iret_flags : UInt64
  iret_rsp : UInt64
  iret_ss : UInt64
  deriving Repr, DecidableEq

/-- `*context`: eleven fields of eight bytes. -/
def read_cpu_status (mem : UInt64 → UInt64) (context : UInt64) : cpu_status_t where
  r15 := mem context
  r14 := mem (context + 8)
  rbx := mem (context + 16)
  rax := mem (context + 24)
  vector_number := mem (context + 32)
  error_code := mem (context + 40)
  iret_rip := mem (context + 48)
  iret_cs := mem (context + 56)
  iret_flags := mem (context + 64)
  iret_rsp := mem (context + 72)
  iret_ss := mem (context + 80)

/-- What the handler should be shown: the registers and the interrupted program, and 0 for an error
    code that there is not. -/
def expected_status (amd : Bool) (v : Fin 32) (s : Interrupted) (error : UInt64) :
    cpu_status_t where
  r15 := s.cpu.r15
  r14 := s.cpu.r14
  rbx := s.cpu.rbx
  rax := s.cpu.rax
  vector_number := UInt64.ofNat v.val
  error_code := if has_error_code amd v then error else 0
  iret_rip := s.rip
  iret_cs := s.cs
  iret_flags := s.rflags
  iret_rsp := s.cpu.stack.sp
  iret_ss := s.ss

/-- The call made in `m` returns the pointer it was given and leaves the structure alone. -/
def Returns (handler : Machine → Machine) (m : Machine) : Prop :=
  (handler m).rax = m.rdi
    ∧ read_cpu_status (handler m).stack.mem m.rdi = read_cpu_status m.stack.mem m.rdi

/-- Enough steps from a stub's entry to `iret`. -/
def fuel : ℕ := 16

/-- **The frame built in assembly is the one the handler reads**, and it is taken down again: at the
    call the structure has its values, and at `iret` the four registers are those of the program and
    RSP points at its RIP. -/
structure FrameCorrect (amd : Bool) (v : Fin 32) (s : Interrupted) (error top : UInt64) :
    Prop where
  called : ∀ handler, ∃ m,
    run_to handler .call_exception_handler fuel (isr_stub v) (deliver amd v s error top) = some m
      ∧ read_cpu_status m.stack.mem m.rdi = expected_status amd v s error
  returned : ∀ handler m₀,
    run_to handler .call_exception_handler fuel (isr_stub v) (deliver amd v s error top) = some m₀ →
    Returns handler m₀ → ∃ m,
      run_to handler .iret fuel (isr_stub v) (deliver amd v s error top) = some m
        ∧ m.rax = s.cpu.rax ∧ m.rbx = s.cpu.rbx ∧ m.r14 = s.cpu.r14 ∧ m.r15 = s.cpu.r15
        ∧ m.stack.sp = rip_slot top

/-! ## §5. What the stubs push. -/

/-- The vectors whose stub pushes a dummy error code. -/
def dummy_error (v : Fin 32) : Bool :=
  v.val == 8 || (10 ≤ v.val && v.val ≤ 14) || v.val == 17 || v.val == 30

/-- The stub of a vector is one of the two macros. -/
theorem isr_stub_eq (v : Fin 32) :
    isr_stub v = if dummy_error v then isr_err_stub (UInt64.ofNat v.val)
      else isr_no_err_stub (UInt64.ofNat v.val) := by
  revert v
  decide

/-- The words the stub of `v` pushes. -/
def stub_words (v : Fin 32) : List UInt64 :=
  (if dummy_error v then [0] else []) ++ [UInt64.ofNat v.val]

/-- The words on the stack when the handler is called, in the order in which they were pushed. -/
def frame (amd : Bool) (v : Fin 32) (s : Interrupted) (error : UInt64) : List UInt64 :=
  pushed amd v s error ++ stub_words v ++ [s.cpu.rax, s.cpu.rbx, s.cpu.r14, s.cpu.r15]

/-- The machine at the call, when `interrupt_stub` is entered with `m`. -/
def save_registers (m : Machine) : Machine :=
  let stack := m.stack.pushAll [m.rax, m.rbx, m.r14, m.r15]
  { m with rdi := stack.sp, stack := stack }

/-- The machine at `iret`, when the call left `m` behind.  The stack pointer comes from what the
    handler returns. -/
def take_down (m : Machine) : Machine :=
  { m with
    r15 := m.stack.mem m.rax
    r14 := m.stack.mem (m.rax + 8)
    rbx := m.stack.mem (m.rax + 16)
    rax := m.stack.mem (m.rax + 24)
    stack := { m.stack with sp := m.rax + 48 } }

/-- `interrupt_stub` before the call. -/
def saving : List Instr := [.push .rax, .push .rbx, .push .r14, .push .r15, .mov .rdi .rsp]

/-- `interrupt_stub` after it, up to `iret`. -/
def restoring : List Instr :=
  [.mov .rsp .rax, .pop .r15, .pop .r14, .pop .rbx, .pop .rax, .add .rsp 16]

/-- The common stub is straight-line code around one call. -/
theorem interrupt_stub_eq :
    interrupt_stub = saving ++ .call_exception_handler :: (restoring ++ [.iret]) := rfl

/-- The first slot is where the stack pointer is. -/
theorem slot_zero (s : SlotStack) : s.slot 0 = s.mem s.sp := by
  rw [SlotStack.slot, show (8 : UInt64) * UInt64.ofNat 0 = 0 from rfl, UInt64.add_zero]

section Runs

variable (handler : Machine → Machine)

/-- **A run executes what is neither its target nor a jump**, one instruction for one step.  By
    induction on the straight-line code in front. -/
theorem run_to_plain {target : Instr} (rest : List Instr) (n : ℕ) (pre : List Instr) :
    ∀ m, (∀ i ∈ pre, i ≠ target ∧ i ≠ .jmp_interrupt_stub) →
      run_to handler target (n + pre.length) (pre ++ rest) m
        = run_to handler target n rest (pre.foldl (exec handler) m) := by
  induction pre with
  | nil => intro m _; rfl
  | cons i pre ih =>
    intro m hpre
    obtain ⟨htarget, hjmp⟩ := hpre i List.mem_cons_self
    have hlen : n + (i :: pre).length = n + pre.length + 1 := rfl
    rw [hlen, List.cons_append, run_to, if_neg htarget, if_neg hjmp, List.foldl_cons]
    exact ih _ fun x hx => hpre x (List.mem_cons_of_mem i hx)

/-- A run stops at its target. -/
theorem run_to_target (target : Instr) (rest : List Instr) (n : ℕ) (m : Machine) :
    run_to handler target (n + 1) (target :: rest) m = some m := by
  rw [run_to, if_pos rfl]

/-- What the code before the call does. -/
theorem save_foldl (m : Machine) : saving.foldl (exec handler) m = save_registers m := by
  cases m
  rfl

/-- What the code after it does. -/
theorem restore_foldl (m : Machine) : restoring.foldl (exec handler) m = take_down m := by
  have h16 : m.rax + 8 + 8 = m.rax + 16 := by rw [UInt64.add_assoc]; rfl
  have h24 : m.rax + 16 + 8 = m.rax + 24 := by rw [UInt64.add_assoc]; rfl
  have h48 : m.rax + 24 + 8 + 16 = m.rax + 48 := by rw [UInt64.add_assoc, UInt64.add_assoc]; rfl
  cases m
  simp only [restoring, List.foldl_cons, List.foldl_nil, exec, Machine.set, Machine.get, slot_zero,
    take_down, h16, h24, h48]

/-- `interrupt_stub` up to the call. -/
theorem interrupt_stub_call (m : Machine) (n : ℕ) :
    run_to handler .call_exception_handler (n + 6) interrupt_stub m = some (save_registers m) := by
  rw [interrupt_stub_eq, show n + 6 = n + 1 + saving.length from rfl,
      run_to_plain handler _ _ _ _ (by decide), run_to_target, save_foldl]

/-- All of `interrupt_stub`: save, call, restore. -/
theorem interrupt_stub_iret (m : Machine) (n : ℕ) :
    run_to handler .iret (n + 13) interrupt_stub m
      = some (take_down (handler (save_registers m))) := by
  have hcall : run_to handler .iret (n + 8) (.call_exception_handler :: (restoring ++ [.iret]))
      (save_registers m) = run_to handler .iret (n + 7) (restoring ++ [.iret])
        (handler (save_registers m)) :=
    run_to_plain handler _ (n + 7) [.call_exception_handler] _ (by decide)
  rw [interrupt_stub_eq, show n + 13 = n + 8 + saving.length from rfl,
      run_to_plain handler _ _ _ _ (by decide), save_foldl, hcall,
      show n + 7 = n + 1 + restoring.length from rfl,
      run_to_plain handler _ _ _ _ (by decide), run_to_target, restore_foldl]

/-- Either stub pushes its words and enters `interrupt_stub`, after two steps or three. -/
theorem isr_stub_run {target : Instr} (htarget : target = .call_exception_handler ∨ target = .iret)
    (v : Fin 32) (m : Machine) (n : ℕ) {r : Option Machine}
    (h : ∀ k, run_to handler target (n + k) interrupt_stub
      { m with stack := m.stack.pushAll (stub_words v) } = r) :
    run_to handler target (n + 3) (isr_stub v) m = r := by
  have hpush : ∀ imm, Instr.push_qword imm ≠ target := by
    rcases htarget with rfl | rfl <;> exact fun imm => Instr.noConfusion
  have hjmp : Instr.jmp_interrupt_stub ≠ target := by
    rcases htarget with rfl | rfl <;> exact Instr.noConfusion
  rw [isr_stub_eq]
  unfold stub_words at h
  cases hv : dummy_error v
  · -- two steps to the jump
    rw [hv] at h
    rw [← h 1]
    simp only [Bool.false_eq_true, if_false, isr_no_err_stub, run_to, exec, hpush, hjmp,
      reduceCtorEq, if_true, List.nil_append, SlotStack.pushAll_cons, SlotStack.pushAll_nil]
  · -- three, with the dummy error code
    rw [hv] at h
    rw [← h 0]
    simp only [if_true, isr_err_stub, run_to, exec, hpush, hjmp, reduceCtorEq, if_false,
      List.cons_append, List.nil_append, SlotStack.pushAll_cons, SlotStack.pushAll_nil,
      Nat.add_zero]

end Runs

/-- The machine when the handler is called. -/
def at_call (amd : Bool) (v : Fin 32) (s : Interrupted) (error top : UInt64) : Machine :=
  let stack := { s.cpu.stack with sp := top }.pushAll (frame amd v s error)
  { s.cpu with rdi := stack.sp, stack := stack }

/-- **The stub reaches the call**, for each of the 32 vectors, with the frame of the processor, of
    the stub and of `interrupt_stub` on the stack.  No instruction before the call depends on the
    handler, which is why it is arbitrary here. -/
theorem run_to_call (amd : Bool) (v : Fin 32) (s : Interrupted) (error top : UInt64)
    (handler : Machine → Machine) :
    run_to handler .call_exception_handler fuel (isr_stub v) (deliver amd v s error top)
      = some (at_call amd v s error top) := by
  apply isr_stub_run handler (Or.inl rfl) v _ 13
  intro k
  rw [show 13 + k = 7 + k + 6 by omega, interrupt_stub_call, save_registers, deliver, at_call,
      frame]
  simp only [SlotStack.pushAll_append]

/-- **The stub reaches `iret`**, whatever the handler does: what is popped behind the call is taken
    from the stack that the handler has left, so the result is a function of that machine. -/
theorem run_to_iret (amd : Bool) (v : Fin 32) (s : Interrupted) (error top : UInt64)
    (handler : Machine → Machine) :
    run_to handler .iret fuel (isr_stub v) (deliver amd v s error top)
      = some (take_down (handler (at_call amd v s error top))) := by
  apply isr_stub_run handler (Or.inr rfl) v _ 13
  intro k
  rw [show 13 + k = k + 13 by omega, interrupt_stub_iret, save_registers, deliver, at_call, frame]
  simp only [SlotStack.pushAll_append]

/-! ## §6. When the layouts agree. -/

/-- Exactly one of processor and stub supplies an error code: of the 32 vectors and two vendors, in
    three cases. -/
theorem one_error_code_iff (amd : Bool) (v : Fin 32) :
    (has_error_code amd v ≠ dummy_error v)
      ↔ v = 21 ∨ (v = 29 ∧ amd = true) ∨ (v = 30 ∧ amd = false) := by
  revert amd v
  decide

/-- With one error code the frame is the structure, field by field from its end. -/
theorem frame_eq {amd : Bool} {v : Fin 32} (h : has_error_code amd v ≠ dummy_error v)
    (s : Interrupted) (error : UInt64) :
    frame amd v s error
      = [s.ss, s.cpu.stack.sp, s.rflags, s.cs, s.rip, if has_error_code amd v then error else 0,
         UInt64.ofNat v.val, s.cpu.rax, s.cpu.rbx, s.cpu.r14, s.cpu.r15] := by
  unfold frame pushed stub_words
  cases hhw : has_error_code amd v <;> cases hdummy : dummy_error v
  · exact absurd (hhw.trans hdummy.symm) h
  · -- the stub supplies the zero
    rfl
  · -- the processor supplies the code
    rfl
  · exact absurd (hhw.trans hdummy.symm) h

/-- Without or with two of them it is a word shorter or longer. -/
theorem frame_length {amd : Bool} {v : Fin 32} (h : has_error_code amd v = dummy_error v)
    (s : Interrupted) (error : UInt64) :
    (frame amd v s error).length = 10 ∨ (frame amd v s error).length = 12 := by
  unfold frame pushed stub_words
  cases hhw : has_error_code amd v <;> cases hdummy : dummy_error v
  · exact Or.inl rfl
  · rw [hhw, hdummy] at h
    exact Bool.noConfusion h
  · rw [hhw, hdummy] at h
    exact Bool.noConfusion h
  · exact Or.inr rfl

/-- The structure at the top of a stack is its first eleven slots. -/
theorem read_cpu_status_sp (s : SlotStack) :
    read_cpu_status s.mem s.sp
      = { r15 := s.slot 0, r14 := s.slot 1, rbx := s.slot 2, rax := s.slot 3,
          vector_number := s.slot 4, error_code := s.slot 5, iret_rip := s.slot 6,
          iret_cs := s.slot 7, iret_flags := s.slot 8, iret_rsp := s.slot 9,
          iret_ss := s.slot 10 } := by
  rw [slot_zero]
  rfl

/-- **The handler is shown the expected structure**, when one error code was pushed.  RDI points at
    the top of the stack, and each field of `cpu_status_t` is the slot at its offset; the slots are
    those of the pushed frame, the last one first. -/
theorem status_at_call {amd : Bool} {v : Fin 32} (h : has_error_code amd v ≠ dummy_error v)
    (s : Interrupted) (error top : UInt64) :
    read_cpu_status (at_call amd v s error top).stack.mem (at_call amd v s error top).rdi
      = expected_status amd v s error := by
  have hslot := fun k x hk => SlotStack.slot_pushAll { s.cpu.stack with sp := top }
    (frame amd v s error) k x hk
  rw [frame_eq h] at hslot
  show read_cpu_status ({ s.cpu.stack with sp := top }.pushAll (frame amd v s error)).mem
    ({ s.cpu.stack with sp := top }.pushAll (frame amd v s error)).sp = _
  rw [read_cpu_status_sp, frame_eq h, expected_status,
      hslot 0 s.cpu.r15 (by omega) rfl, hslot 1 s.cpu.r14 (by omega) rfl,
      hslot 2 s.cpu.rbx (by omega) rfl, hslot 3 s.cpu.rax (by omega) rfl,
      hslot 4 (UInt64.ofNat v.val) (by omega) rfl, hslot 5 _ (by omega) rfl,
      hslot 6 s.rip (by omega) rfl, hslot 7 s.cs (by omega) rfl, hslot 8 s.rflags (by omega) rfl,
      hslot 9 s.cpu.stack.sp (by omega) rfl, hslot 10 s.ss (by omega) rfl]

/-- Where the stub leaves RSP: six words above the structure. -/
theorem iret_sp {amd : Bool} {v : Fin 32} {s : Interrupted} {error top : UInt64}
    {handler : Machine → Machine}
    (hret : Returns handler (at_call amd v s error top)) :
    (take_down (handler (at_call amd v s error top))).stack.sp
      = top - 8 * UInt64.ofNat (frame amd v s error).length + 48 := by
  rw [take_down]
  show (handler (at_call amd v s error top)).rax + 48 = _
  rw [hret.1]
  show ({ s.cpu.stack with sp := top }.pushAll (frame amd v s error)).sp + 48 = _
  rw [SlotStack.pushAll_sp]

/-- RSP points at the pushed RIP exactly when eleven words were pushed, wherever the stack is: an
    error code that both push, or neither does, makes them twelve or ten. -/
theorem rip_slot_iff (top : UInt64) {k : ℕ} (hk : k ≤ 12) :
    top - 8 * UInt64.ofNat k + 48 = rip_slot top ↔ k = 11 := by
  have htop := top.toNat_lt
  have hwords : (8 * UInt64.ofNat k).toNat = 8 * k := by
    rw [UInt64.toNat_mul, UInt64.toNat_ofNat']
    simp only [UInt64.reduceToNat]
    omega
  rw [rip_slot, ← UInt64.toNat_inj, UInt64.toNat_add, UInt64.toNat_sub, UInt64.toNat_sub, hwords]
  simp only [UInt64.reduceToNat]
  omega

/-- **The layouts agree exactly for vector 21, and for one of 29 and 30**, depending on the
    processor.  For all others the stub supplies an error code where the processor does, or neither
    does. -/
theorem frame_correct_iff (amd : Bool) (v : Fin 32) (s : Interrupted) (error top : UInt64) :
    FrameCorrect amd v s error top
      ↔ v = 21 ∨ (v = 29 ∧ amd = true) ∨ (v = 30 ∧ amd = false) := by
  rw [← one_error_code_iff]
  constructor
  · -- a frame one word off leaves RSP one word off
    intro h heq
    have hret : Returns (fun m => { m with rax := m.rdi }) (at_call amd v s error top) :=
      ⟨rfl, rfl⟩
    obtain ⟨m, hrun, -, -, -, -, hsp⟩ := h.returned _ _ (run_to_call amd v s error top _) hret
    rw [run_to_iret] at hrun
    obtain rfl := Option.some.inj hrun
    have hlen := frame_length heq s error
    rw [iret_sp hret, rip_slot_iff top (by omega)] at hsp
    omega
  · -- with eleven words every field and RSP are where they should be
    intro h
    refine ⟨fun handler => ⟨_, run_to_call amd v s error top handler,
      status_at_call h s error top⟩, ?_⟩
    intro handler m₀ hcall hret
    rw [run_to_call] at hcall
    obtain rfl := Option.some.inj hcall
    refine ⟨_, run_to_iret amd v s error top handler, ?_⟩
    have hstatus := hret.2.trans (status_at_call h s error top)
    rw [← hret.1] at hstatus
    have hlen : (frame amd v s error).length = 11 := by
      rw [frame_eq h]
      rfl
    refine ⟨congrArg cpu_status_t.rax hstatus, congrArg cpu_status_t.rbx hstatus,
      congrArg cpu_status_t.r14 hstatus, congrArg cpu_status_t.r15 hstatus, ?_⟩
    rw [iret_sp hret, rip_slot_iff top (by omega), hlen]

/-! ## §7. A page fault. -/

/-- A program interrupted with distinguishable values. -/
def faulting : Interrupted where
  rip := 0xffffffff80001234
  cs := 0x08
  rflags := 0x202
  ss := 0x10
  cpu := { rax := 1, rbx := 2, rdi := 3, r14 := 4, r15 := 5,
           stack := { mem := fun _ => 0, sp := 0xffff800000010000 } }

/-- The handler of a page fault is shown error code 0 and RIP 2, the error code pushed. -/
theorem page_fault_misread :
    ¬ FrameCorrect false 14 faulting 2 0xffff800000010000
      ∧ ∃ m, run_to id .call_exception_handler fuel (isr_stub 14)
          (deliver false 14 faulting 2 0xffff800000010000) = some m
        ∧ (read_cpu_status m.stack.mem m.rdi).error_code = 0
        ∧ (read_cpu_status m.stack.mem m.rdi).iret_rip = 2 := by
  have hcall : ∃ m, run_to id .call_exception_handler fuel (isr_stub 14)
        (deliver false 14 faulting 2 0xffff800000010000) = some m
      ∧ (read_cpu_status m.stack.mem m.rdi).error_code = 0
      ∧ (read_cpu_status m.stack.mem m.rdi).iret_rip = 2 :=
    ⟨_, run_to_call false 14 faulting 2 0xffff800000010000 id, by decide +kernel, by decide +kernel⟩
  refine ⟨?_, hcall⟩
  intro h
  obtain ⟨m, hrun, hstatus⟩ := h.called id
  obtain ⟨m', hrun', herror, -⟩ := hcall
  obtain rfl := Option.some.inj (hrun.symm.trans hrun')
  rw [hstatus] at herror
  revert herror
  decide +kernel

end Hippos.Cpu
