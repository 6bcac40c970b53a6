/-
  Hippos.Log.Klog — the kernel's two loggers, `arch/x86_64/log/klog.c`.

  `kernel_log` prints a message to the terminal in the colour of its severity, `serial_log` formats
  the same line into a buffer of its own and writes it to the serial port.  Together with the
  subscriptions and everything else that prints, they come to one function of the calls: which lines
  the serial port is given, and what is written to the terminal.

  The specification of a call, `Event.meaning`, knows no memory and no table: an audience decides
  which logger hears a message, and each logger appends its line or writes it to the terminal.  The
  refinement goes event by event and then over runs by `runs_refine`.  Its one delicate point is the
  static message buffer, which both loggers are handed by pointer: the second of them still finds
  the message there because `serial_log` formats into another buffer, and `Layout` says that the two
  lie apart.

  Main results:
    * `kernel_log_eq`, `serial_log_eq` — what each of the two loggers does with a message.
    * `log_run` — runs of the log refine the meaning of their events, faults included.
    * `runs_ok_iff` — a run goes through exactly when every format of it has a text.
    * `serial_lines_sent` — the serial port gets the lines, and the UART accepts their bytes.
    * `log_onGrid` — whatever is logged and printed, the cursor stays on a visible line.
-/
import Hippos.Framebuffer.Tty
import Hippos.Io.Serial
import Hippos.Libc.Directive
import Hippos.Log.Ulog

namespace Hippos.Log

open Hippos.Lib
open Hippos.Libc.Printf
open Hippos.Framebuffer hiding run
open Hippos.Io

variable {V : Type}

def COLORS_GREEN : UInt32 := 0x008000
def COLORS_RED : UInt32 := 0x800000
def COLORS_BLUE : UInt32 := 0x000080
def COLORS_YELLOW : UInt32 := 0x808000

/-! ## §1. The loggers. -/

/-- The functions that subscribe. -/
inductive Logger where
  | kernel_log
  | serial_log
  deriving Repr, DecidableEq

/-- The terminal, the flag of the serial port, and the strings `serial_write` was called with. -/
structure Console where
  terminal : Terminal
  is_initialized : Bool
  written : List CString

/-- Where `s_message`, `serial_buf` and the `buffer` of `printf_` are: the first is static, the
    others are on the stack.  None of them is NULL, and the two that are in use at once do not
    overlap. -/
structure Layout where
  s_message : ℕ
  serial_buf : ℕ
  local_buffer : ℕ
  message_there : s_message ≠ 0
  serial_there : serial_buf ≠ 0
  local_there : local_buffer ≠ 0
  apart : s_message + 120 ≤ serial_buf ∨ serial_buf + 256 ≤ s_message

def SERIAL_LOG_BUF_SIZE : ℕ := 256

/-- `TRACE`, `DEBUG`, `INFO`, `WARNING`, `ERROR`, `CRITICAL`, `ALWAYS`, `UNKNOWN`. -/
def level_name (severity : UInt32) : List UInt8 :=
  if severity = ULOG_TRACE_LEVEL then [0x54, 0x52, 0x41, 0x43, 0x45]
  else if severity = ULOG_DEBUG_LEVEL then [0x44, 0x45, 0x42, 0x55, 0x47]
  else if severity = ULOG_INFO_LEVEL then [0x49, 0x4E, 0x46, 0x4F]
  else if severity = ULOG_WARNING_LEVEL then [0x57, 0x41, 0x52, 0x4E, 0x49, 0x4E, 0x47]
  else if severity = ULOG_ERROR_LEVEL then [0x45, 0x52, 0x52, 0x4F, 0x52]
  else if severity = ULOG_CRITICAL_LEVEL then [0x43, 0x52, 0x49, 0x54, 0x49, 0x43, 0x41, 0x4C]
  else if severity = ULOG_ALWAYS_LEVEL then [0x41, 0x4C, 0x57, 0x41, 0x59, 0x53]
  else [0x55, 0x4E, 0x4B, 0x4E, 0x4F, 0x57, 0x4E]

/-- With the NUL of the literal. -/
def ulog_level_name (severity : UInt32) : List UInt8 := level_name severity ++ [0]

/-- `"[%s]: %s\n"`. -/
def serial_format : List UInt8 := [0x5B, 0x25, 0x73, 0x5D, 0x3A, 0x20, 0x25, 0x73, 0x0A, 0]

/-- `"[%s]: "`. -/
def name_format : List UInt8 := [0x5B, 0x25, 0x73, 0x5D, 0x3A, 0x20, 0]

/-- `"%s\n"`. -/
def message_format : List UInt8 := [0x25, 0x73, 0x0A, 0]

/-- The string in a character array, which is read up to its NUL; without one the reading would
    leave the array. -/
def string_in (s : List UInt8) : Except Fault CString :=
  if 0 ∈ s then .ok ⟨before_nul s, before_nul_nonzero s⟩ else .error .string

section Loggers

variable (ssfn_putc : Terminal → UInt32 → Terminal) (fp : FloatFormat V) (l : Layout)

/-- `putchar` of the kernel's libc: `terminal_write(&c, sizeof(c))`. -/
def putchar (c : Console) (ic : UInt8) : Console :=
  { c with terminal := terminal_write ssfn_putc c.terminal [ic] }

/-- Before the port is initialised it returns at once; then it formats the line and writes it. -/
def serial_log (severity : UInt32) (msg : List UInt8) (w : World Console) :
    Except Fault (World Console) :=
  if !w.console.is_initialized then .ok w
  else do
    let (_, w) ← snprintf_ fp (putchar ssfn_putc) l.serial_buf SERIAL_LOG_BUF_SIZE serial_format
      [.string (ulog_level_name severity), .string msg] w
    let serial_buf ← string_in (w.memory.bytes l.serial_buf SERIAL_LOG_BUF_SIZE)
    .ok { w with console := { w.console with written := w.console.written ++ [serial_buf] } }

/-- "Handle terminal colors". -/
def level_color (severity : UInt32) (t : Terminal) : Terminal :=
  if severity = ULOG_INFO_LEVEL then terminal_set_text_color t COLORS_GREEN
  else if severity = ULOG_WARNING_LEVEL then terminal_set_text_color t COLORS_YELLOW
  else if severity = ULOG_DEBUG_LEVEL then terminal_set_text_color t COLORS_BLUE
  else if severity = ULOG_CRITICAL_LEVEL then terminal_set_text_color t COLORS_RED
  else t

/-- Two calls of `printf`, in the colour of the severity. -/
def kernel_log (severity : UInt32) (msg : List UInt8) (w : World Console) :
    Except Fault (World Console) := do
  let w := { w with console := { w.console with
    terminal := level_color severity w.console.terminal } }
  let (_, w) ← printf_ fp (putchar ssfn_putc) l.local_buffer name_format
    [.string (ulog_level_name severity)] w
  let (_, w) ← printf_ fp (putchar ssfn_putc) l.local_buffer message_format [.string msg] w
  .ok { w with console := { w.console with
    terminal := terminal_reset_text_color w.console.terminal } }

/-- The call through a subscriber's pointer. -/
def call_logger : Logger → UInt32 → List UInt8 → World Console → Except Fault (World Console)
  | .kernel_log => kernel_log ssfn_putc fp l
  | .serial_log => serial_log ssfn_putc fp l

end Loggers

/-- Both loggers, each from its own level on.  The answers of `ulog_subscribe` are not looked at. -/
def log_initialize : Subscribers Logger :=
  let t := ulog_init
  let (_, t) := ulog_subscribe t (some .kernel_log) ULOG_INFO_LEVEL
  let (_, t) := ulog_subscribe t (some .serial_log) ULOG_DEBUG_LEVEL
  t

/-- What the rest of the kernel calls. -/
inductive Event (V : Type) where
  /-- `log_initialize()`. -/
  | subscribe_loggers
  | log (c : Call Logger V)
  | printf (fmt : List UInt8) (va : List (VaArg V))
  | set_text_color (c : UInt32)
  | reset_text_color

section Events

variable (ssfn_putc : Terminal → UInt32 → Terminal) (fp : FloatFormat V) (l : Layout)

/-- One event in the kernel: the table of subscribers, memory and the console behind it. -/
def Event.run (k : Subscribers Logger × World Console) :
    Event V → Except Fault (UlogErr × Subscribers Logger × World Console)
  | .subscribe_loggers => .ok (.ULOG_ERR_NONE, log_initialize, k.2)
  | .log c => c.run fp (putchar ssfn_putc) l.s_message (call_logger ssfn_putc fp l) k
  | .printf fmt va => do
    let (_, w) ← printf_ fp (putchar ssfn_putc) l.local_buffer fmt va k.2
    .ok (.ULOG_ERR_NONE, k.1, w)
  | .set_text_color c => .ok (.ULOG_ERR_NONE, k.1, { k.2 with console := { k.2.console with
      terminal := terminal_set_text_color k.2.console.terminal c } })
  | .reset_text_color => .ok (.ULOG_ERR_NONE, k.1, { k.2 with console := { k.2.console with
      terminal := terminal_reset_text_color k.2.console.terminal } })

end Events

/-! ## §2. Lines. -/

/-- No name has a NUL in it, so `%s` prints it whole. -/
theorem level_name_nonzero (severity : UInt32) : ∀ b ∈ level_name severity, b ≠ 0 := by
  unfold level_name
  split_ifs <;> simp

/-- The longest name is `CRITICAL`. -/
theorem level_name_length (severity : UInt32) : (level_name severity).length ≤ 8 := by
  unfold level_name
  split_ifs <;> decide

/-- `[LEVEL]: ` before a message. -/
def heading (severity : UInt32) : List UInt8 := 0x5B :: (level_name severity ++ [0x5D, 0x3A, 0x20])

/-- A message with its heading, on a line. -/
def line (severity : UInt32) (m : List UInt8) : List UInt8 := heading severity ++ (m ++ [0x0A])

/-- There is no NUL before a message. -/
theorem heading_nonzero (severity : UInt32) : ∀ b ∈ heading severity, b ≠ 0 := by
  intro b hb
  simp only [heading, List.mem_cons, List.mem_append, List.not_mem_nil, or_false] at hb
  rcases hb with rfl | hb | rfl | rfl | rfl
  · decide
  · exact level_name_nonzero severity b hb
  · decide
  · decide
  · decide

/-- And none in its line, if the message has none. -/
theorem line_nonzero (severity : UInt32) {m : List UInt8} (hm : ∀ b ∈ m, b ≠ 0) :
    ∀ b ∈ line severity m, b ≠ 0 := by
  intro b hb
  rcases List.mem_append.mp hb with hb | hb
  · exact heading_nonzero severity b hb
  · rcases List.mem_append.mp hb with hb | hb
    · exact hm b hb
    · rw [List.mem_singleton.mp hb]
      decide

/-- The line is at most 13 characters longer than its message. -/
theorem line_length (severity : UInt32) (m : List UInt8) :
    (line severity m).length ≤ m.length + 13 := by
  have hname := level_name_length severity
  simp only [line, heading, List.length_cons, List.length_append, List.length_nil]
  omega

/-- A line as a string for the serial port. -/
def line_string (severity : UInt32) (msg : List UInt8) : CString :=
  ⟨line severity (before_nul msg), line_nonzero severity (before_nul_nonzero msg)⟩

/-- A name with its NUL is read as that name. -/
theorem level_name_string (severity : UInt32) :
    0 ∈ ulog_level_name severity
      ∧ before_nul (ulog_level_name severity) = level_name severity := by
  refine ⟨List.mem_append_right _ (List.mem_singleton.mpr rfl), ?_⟩
  rw [ulog_level_name, before_nul_append_nul, before_nul_of_nonzero (level_name_nonzero severity)]

section Formats

variable (fp : FloatFormat V) (severity : UInt32) {msg : List UInt8} (hmsg : 0 ∈ msg)

/-- A character of a format. -/
def plain (c : UInt8) (h : c ≠ 0 ∧ c ≠ 0x25) : Item := .plain c h.1 h.2

/-- `"[%s]: "` with the name of a level is the heading. -/
theorem render_name :
    render fp name_format [.string (ulog_level_name severity)] = .ok (heading severity) := by
  obtain ⟨hnul, hname⟩ := level_name_string severity
  have hitems : name_format = format_text [plain 0x5B (by decide), .directive string_spec,
      plain 0x5D (by decide), plain 0x3A (by decide), plain 0x20 (by decide)] ++ 0 :: [] := rfl
  rw [hitems, render_items, plain, run, run_string fp hnul, hname]
  rfl

include hmsg

/-- `"%s\n"` with a message is the message and a newline. -/
theorem render_message :
    render fp message_format [.string msg] = .ok (before_nul msg ++ [0x0A]) := by
  have hitems : message_format
      = format_text [.directive string_spec, plain 0x0A (by decide)] ++ 0 :: [] := rfl
  rw [hitems, render_items, run_string fp hmsg]
  rfl

/-- `"[%s]: %s\n"` with both is the whole line: the two loggers print the same. -/
theorem render_serial :
    render fp serial_format [.string (ulog_level_name severity), .string msg]
      = .ok (line severity (before_nul msg)) := by
  obtain ⟨hnul, hname⟩ := level_name_string severity
  have hitems : serial_format = format_text [plain 0x5B (by decide), .directive string_spec,
      plain 0x5D (by decide), plain 0x3A (by decide), plain 0x20 (by decide),
      .directive string_spec, plain 0x0A (by decide)] ++ 0 :: [] := rfl
  rw [hitems, render_items, plain, run, run_string fp hnul, hname, plain, run, plain, run, plain,
      run, run_string fp hmsg]
  show Except.ok _ = Except.ok _
  congr 1
  simp only [line, heading, List.cons_append, List.append_assoc, List.nil_append]

end Formats

/-! ## §3. What the loggers do. -/

section Loggers

variable (ssfn_putc : Terminal → UInt32 → Terminal) (fp : FloatFormat V) (l : Layout)

/-- `printf` writes its text to the terminal, without the NULs. -/
theorem handed_putchar (w : World Console) (text : List UInt8) :
    handed (putchar ssfn_putc) w text = { w with console := { w.console with
      terminal := terminal_write ssfn_putc w.console.terminal (text.filter (· ≠ 0)) } } := by
  have hfold : ∀ (s : List UInt8) (c : Console), s.foldl (putchar ssfn_putc) c
      = { c with terminal := terminal_write ssfn_putc c.terminal s } := by
    intro s
    induction s with
    | nil => intro c; rfl
    | cons b s ih =>
      intro c
      rw [List.foldl_cons, ih]
      rfl
  rw [handed, hfold]

/-- Where there is no NUL, taking them out changes nothing. -/
theorem filter_nonzero {text : List UInt8} (htext : ∀ b ∈ text, b ≠ 0) :
    text.filter (· ≠ 0) = text := by
  rw [List.filter_eq_self]
  intro b hb
  exact decide_eq_true (htext b hb)

/-- A line in the colour of its severity. -/
def show_line (severity : UInt32) (m : List UInt8) (t : Terminal) : Terminal :=
  terminal_reset_text_color (terminal_write ssfn_putc (level_color severity t) (line severity m))

/-- **`kernel_log` shows its line.**  The two calls of `printf` write to the terminal one after the
    other, which is one call with both texts; the message may hold any characters, as it is an
    argument and no format. -/
theorem kernel_log_eq (severity : UInt32) {msg : List UInt8} (hmsg : 0 ∈ msg) (w : World Console) :
    kernel_log ssfn_putc fp l severity msg w = .ok { w with console := { w.console with
      terminal := show_line ssfn_putc severity (before_nul msg) w.console.terminal } } := by
  have hnewline : ∀ b ∈ before_nul msg ++ [0x0A], b ≠ 0 := by
    intro b hb
    rcases List.mem_append.mp hb with hb | hb
    · exact before_nul_nonzero msg b hb
    · rw [List.mem_singleton.mp hb]
      decide
  unfold kernel_log
  dsimp only
  rw [printf_eq _ _ _ _ _ l.local_there, render_name]
  show (printf_ fp (putchar ssfn_putc) l.local_buffer message_format [.string msg]
    (handed (putchar ssfn_putc) _ (heading severity)) >>= _) = _
  rw [printf_eq _ _ _ _ _ l.local_there, render_message fp hmsg,
      handed_putchar, filter_nonzero (heading_nonzero severity)]
  show (Except.ok (_, handed (putchar ssfn_putc) _ (before_nul msg ++ [0x0A])) >>= _) = _
  rw [handed_putchar, filter_nonzero hnewline, ok_bind]
  unfold show_line line
  dsimp only
  rw [show terminal_write ssfn_putc (level_color severity w.console.terminal)
        (heading severity ++ (before_nul msg ++ [0x0A])) = _ from List.foldl_append]
  rfl

/-- **`serial_log` writes its line.**  It fits the buffer whatever the message: a message has at
    most 119 characters and the heading at most 12, and the buffer holds 256. -/
theorem serial_log_eq (severity : UInt32) {msg : List UInt8} (hmsg : 0 ∈ msg)
    (hlen : msg.length ≤ ULOG_MAX_MESSAGE_LENGTH) (w : World Console) :
    serial_log ssfn_putc fp l severity msg w
      = .ok (if w.console.is_initialized then
          { w with
            memory := filled w.memory l.serial_buf SERIAL_LOG_BUF_SIZE
              (line severity (before_nul msg))
            console := { w.console with
              written := w.console.written ++ [line_string severity msg] } }
        else w) := by
  unfold serial_log
  cases hinit : w.console.is_initialized with
  | false => rfl
  | true =>
    rw [if_neg (by decide), if_pos rfl,
        snprintf_eq fp _ _ _ w l.serial_there (by decide : 0 < SERIAL_LOG_BUF_SIZE) (by decide),
        render_serial fp severity hmsg]
    show (string_in ((filled w.memory l.serial_buf SERIAL_LOG_BUF_SIZE _).bytes _ _) >>= _) = _
    obtain ⟨rest, hbytes⟩ := bytes_filled w.memory l.serial_buf
      (by decide : 0 < SERIAL_LOG_BUF_SIZE) (line severity (before_nul msg))
    -- nothing is cut off
    have hshort : (line severity (before_nul msg)).length ≤ SERIAL_LOG_BUF_SIZE - 1 := by
      have h1 := line_length severity (before_nul msg)
      have h2 := before_nul_length_le msg
      rw [SERIAL_LOG_BUF_SIZE]
      rw [ULOG_MAX_MESSAGE_LENGTH] at hlen
      omega
    rw [List.take_of_length_le hshort] at hbytes
    have hstring : string_in ((filled w.memory l.serial_buf SERIAL_LOG_BUF_SIZE
        (line severity (before_nul msg))).bytes l.serial_buf SERIAL_LOG_BUF_SIZE)
          = .ok (line_string severity msg) := by
      rw [hbytes, string_in, if_pos (List.mem_append_right _ List.mem_cons_self)]
      unfold line_string
      congr 2
      rw [before_nul_append_nul,
          before_nul_of_nonzero (line_nonzero severity (before_nul_nonzero msg))]
    rw [hstring, ok_bind]

end Loggers

/-! ## §4. The log as one system. -/

/-- Both loggers, as `log_initialize` subscribes them. -/
def default_audience : Audience Logger where
  listeners := {.kernel_log, .serial_log}
  level := fun
    | .kernel_log => ULOG_INFO_LEVEL
    | .serial_log => ULOG_DEBUG_LEVEL

/-- What is kept of the text of a message. -/
def kept (text : List UInt8) : List UInt8 := text.take (ULOG_MAX_MESSAGE_LENGTH - 1)

/-- A line is never long. -/
theorem kept_line_length (severity : UInt32) (text : List UInt8) :
    (line_string severity (kept text)).bytes.length ≤ 132 := by
  have h₁ := line_length severity (before_nul (kept text))
  have h₂ := before_nul_length_le (kept text)
  have h₃ : (kept text).length ≤ 119 := List.length_take_le _ text
  show (line severity (before_nul (kept text))).length ≤ 132
  omega

section System

variable (ssfn_putc : Terminal → UInt32 → Terminal) (fp : FloatFormat V)

/-- A message reaches the terminal through one logger and the serial port through the other. -/
def report (a : Audience Logger) (severity : UInt32) (text : List UInt8)
    (c : Console) : Console where
  terminal :=
    if a.hears severity .kernel_log then
      show_line ssfn_putc severity (before_nul (kept text)) c.terminal
    else c.terminal
  is_initialized := c.is_initialized
  written :=
    if a.hears severity .serial_log ∧ c.is_initialized then
      c.written ++ [line_string severity (kept text)]
    else c.written

/-- What an event means for the audience and the console. -/
def Event.meaning (m : Audience Logger × Console) :
    Event V → Except Fault (UlogErr × Audience Logger × Console)
  | .subscribe_loggers => .ok (.ULOG_ERR_NONE, default_audience, m.2)
  | .log .init => .ok (.ULOG_ERR_NONE, .nobody, m.2)
  | .log (.subscribe fn threshold) =>
    let (err, a) := m.1.subscribe fn threshold
    .ok (err, a, m.2)
  | .log (.unsubscribe fn) =>
    let (err, a) := m.1.unsubscribe fn
    .ok (err, a, m.2)
  | .log (.message severity fmt ap) => do
    let text ← render fp fmt ap
    .ok (.ULOG_ERR_NONE, m.1, report ssfn_putc m.1 severity text m.2)
  | .printf fmt va => do
    let text ← render fp fmt va
    .ok (.ULOG_ERR_NONE, m.1, { m.2 with
      terminal := terminal_write ssfn_putc m.2.terminal (text.filter (· ≠ 0)) })
  | .set_text_color c => .ok (.ULOG_ERR_NONE, m.1, { m.2 with
      terminal := terminal_set_text_color m.2.terminal c })
  | .reset_text_color => .ok (.ULOG_ERR_NONE, m.1, { m.2 with
      terminal := terminal_reset_text_color m.2.terminal })

/-- **The table shows the audience, and the console is the same.**  Memory is left open: what it
    holds between two calls is nobody's business. -/
def Reports (k : Subscribers Logger × World Console) (m : Audience Logger × Console) : Prop :=
  Represents k.1 m.1 ∧ k.2.console = m.2

/-- After `log_initialize` the table shows both loggers with their levels. -/
theorem log_initialize_represents : Represents log_initialize default_audience := by
  obtain ⟨-, h₁⟩ := subscribe_represents init_represents (some Logger.kernel_log) ULOG_INFO_LEVEL
  obtain ⟨-, h₂⟩ := subscribe_represents h₁ (some Logger.serial_log) ULOG_DEBUG_LEVEL
  have haudience : default_audience = ((Audience.nobody.subscribe (some Logger.kernel_log)
      ULOG_INFO_LEVEL).2.subscribe (some Logger.serial_log) ULOG_DEBUG_LEVEL).2 := by
    unfold default_audience
    congr 1
    · decide
    · funext f
      cases f <;> rfl
  rw [haudience]
  exact h₂

/-- What the loggers that are called make of the console. -/
def deliver (severity : UInt32) (msg : List UInt8) (fs : List Logger) (c : Console) : Console where
  terminal :=
    if .kernel_log ∈ fs then show_line ssfn_putc severity (before_nul msg) c.terminal
    else c.terminal
  is_initialized := c.is_initialized
  written :=
    if .serial_log ∈ fs ∧ c.is_initialized then c.written ++ [line_string severity msg]
    else c.written

/-- **Each logger is called once, in any order**: neither touches what the other reads.  By
    induction on those that are still to be called; the message is in its buffer before each call,
    because neither of them writes there. -/
theorem loggers_deliver (l : Layout) (severity : UInt32) {msg : List UInt8} (hmsg : 0 ∈ msg)
    (hlen : msg.length ≤ ULOG_MAX_MESSAGE_LENGTH) {fs : List Logger} (hnodup : fs.Nodup) :
    ∀ w : World Console, w.memory.bytes l.s_message ULOG_MAX_MESSAGE_LENGTH = msg →
      ∃ m, fs.foldlM (fun w fn => call_logger ssfn_putc fp l fn severity
          (w.memory.bytes l.s_message ULOG_MAX_MESSAGE_LENGTH) w) w
        = .ok ⟨m, deliver ssfn_putc severity msg fs w.console⟩ := by
  induction fs with
  | nil =>
    intro w _
    refine ⟨w.memory, ?_⟩
    simp only [deliver, List.not_mem_nil, if_false, false_and]
    rfl
  | cons f fs ih =>
    intro w hw
    obtain ⟨hnot, hrest_nodup⟩ := List.nodup_cons.mp hnodup
    rw [List.foldlM_cons, hw]
    cases f with
    | kernel_log =>
      rw [call_logger, kernel_log_eq ssfn_putc fp l severity hmsg, ok_bind]
      obtain ⟨m, hrest⟩ := ih hrest_nodup { w with console := { w.console with
        terminal := show_line ssfn_putc severity (before_nul msg) w.console.terminal } } hw
      refine ⟨m, hrest.trans ?_⟩
      simp [deliver, hnot]
    | serial_log =>
      rw [call_logger, serial_log_eq ssfn_putc fp l severity hmsg hlen, ok_bind]
      cases hinit : w.console.is_initialized with
      | false =>
        rw [if_neg Bool.false_ne_true]
        obtain ⟨m, hrest⟩ := ih hrest_nodup w hw
        refine ⟨m, hrest.trans ?_⟩
        simp [deliver, hinit]
      | true =>
        -- the line is formatted beside the message
        rw [if_pos rfl]
        obtain ⟨m, hrest⟩ := ih hrest_nodup
          { w with
            memory := filled w.memory l.serial_buf SERIAL_LOG_BUF_SIZE
              (line severity (before_nul msg))
            console := { w.console with
              written := w.console.written ++ [line_string severity msg] } }
          ((bytes_filled_other w.memory (by decide) _ l.apart).trans hw)
        refine ⟨m, hrest.trans ?_⟩
        simp [deliver, hnot, hinit]

/-- The loggers that are called are those that are subscribed, and they see what is kept. -/
theorem deliver_eq_report {t : Subscribers Logger} {a : Audience Logger} (h : Represents t a)
    (severity : UInt32) (text rest : List UInt8) (c : Console) :
    deliver ssfn_putc severity (kept text ++ 0 :: rest) (receivers t severity) c
      = report ssfn_putc a severity text c := by
  have hstring : line_string severity (kept text ++ 0 :: rest)
      = line_string severity (kept text) := by
    unfold line_string
    congr 1
    rw [before_nul_append_nul]
  unfold deliver report
  rw [before_nul_append_nul, hstring]
  simp only [mem_receivers h]

/-- **One event.**  The table and the console stay in step with the audience, and the event faults
    exactly when its meaning does. -/
theorem event_reports (l : Layout) (k : Subscribers Logger × World Console)
    (m : Audience Logger × Console) (e : Event V) (h : Reports k m) :
    Matches (Answers Reports) (e.run ssfn_putc fp l k) (e.meaning ssfn_putc fp m) := by
  obtain ⟨hrep, hconsole⟩ := h
  cases e with
  | subscribe_loggers => exact ⟨rfl, log_initialize_represents, hconsole⟩
  | log c =>
    cases c with
    | init => exact ⟨rfl, init_represents, hconsole⟩
    | subscribe fn threshold =>
      obtain ⟨herr, htable⟩ := subscribe_represents hrep fn threshold
      exact ⟨herr, htable, hconsole⟩
    | unsubscribe fn =>
      obtain ⟨herr, htable⟩ := unsubscribe_represents hrep fn
      exact ⟨herr, htable, hconsole⟩
    | message severity fmt ap =>
      unfold Event.run Call.run Event.meaning ulog_message
      dsimp only
      rw [snprintf_eq fp _ fmt ap k.2 l.message_there (by decide : 0 < ULOG_MAX_MESSAGE_LENGTH)
          (by decide)]
      cases render fp fmt ap with
      | error e => exact rfl
      | ok text =>
        -- the message is in the buffer, cut to its size and ended by a NUL
        obtain ⟨rest, hbytes⟩ := bytes_filled k.2.memory l.s_message
          (by decide : 0 < ULOG_MAX_MESSAGE_LENGTH) text
        have hlen := congrArg List.length hbytes
        rw [Memory.length_bytes] at hlen
        show Matches _ (notify_loop l.s_message _ severity k.1.slots _ >>= _) _
        rw [notify_loop_eq]
        obtain ⟨mem, hdeliver⟩ := loggers_deliver ssfn_putc fp l severity
          (List.mem_append_right (kept text) List.mem_cons_self) (Nat.le_of_eq hlen.symm)
          (receivers_nodup hrep severity)
          { k.2 with memory := filled k.2.memory l.s_message ULOG_MAX_MESSAGE_LENGTH text } hbytes
        unfold receivers at hdeliver
        rw [hdeliver, ok_bind]
        refine ⟨rfl, hrep, ?_⟩
        rw [← hconsole]
        exact deliver_eq_report ssfn_putc hrep severity text rest k.2.console
  | printf fmt va =>
    unfold Event.run Event.meaning
    dsimp only
    rw [printf_eq _ _ _ _ _ l.local_there, ← hconsole]
    cases render fp fmt va with
    | error e => exact rfl
    | ok text =>
      refine ⟨rfl, hrep, ?_⟩
      show (handed (putchar ssfn_putc) k.2 text).console = _
      rw [handed_putchar]
  | set_text_color c =>
    refine ⟨rfl, hrep, ?_⟩
    rw [← hconsole]
  | reset_text_color =>
    refine ⟨rfl, hrep, ?_⟩
    rw [← hconsole]

/-- Before the first call nobody is subscribed. -/
theorem start_reports (m : Memory) (c : Console) :
    Reports (ulog_init, ⟨m, c⟩) (.nobody, c) :=
  ⟨init_represents, rfl⟩

/-- **The log is one function of what is called.**  Whatever is subscribed, logged and printed in
    whatever order: the answers are those of a set of listeners, the terminal and the serial port
    get a line for each message that its logger is subscribed to, or the run ends in the fault of
    the first format that has one. -/
theorem log_run (l : Layout) (m : Memory) (c : Console) (events : List (Event V)) :
    Matches (Answers Reports)
      (runs (Event.run ssfn_putc fp l) (ulog_init, ⟨m, c⟩) events)
      (runs (Event.meaning ssfn_putc fp) (.nobody, c) events) :=
  runs_refine (event_reports ssfn_putc fp l) events _ _ (start_reports m c)

/-- An event whose format has a text; one without a format always is. -/
def Event.Sound : Event V → Prop
  | .log (.message _ fmt ap) => ∃ text, render fp fmt ap = .ok text
  | .printf fmt va => ∃ text, render fp fmt va = .ok text
  | _ => True

/-- The meaning of an event has a value exactly if its format has a text. -/
theorem meaning_ok_iff (e : Event V) (m : Audience Logger × Console) :
    (∃ r, e.meaning ssfn_putc fp m = .ok r) ↔ e.Sound fp := by
  have hrender : ∀ (fmt : List UInt8) (va : List (VaArg V))
      (f : List UInt8 → UlogErr × Audience Logger × Console),
      (∃ r, (render fp fmt va >>= fun text => .ok (f text)) = .ok r)
        ↔ ∃ text, render fp fmt va = .ok text := by
    intro fmt va f
    cases render fp fmt va with
    | ok text => exact iff_of_true ⟨f text, rfl⟩ ⟨text, rfl⟩
    | error e => exact iff_of_false (not_ok_error e) (not_ok_error e)
  cases e with
  | subscribe_loggers => exact ⟨fun _ => trivial, fun _ => ⟨_, rfl⟩⟩
  | log c =>
    cases c with
    | message severity fmt ap => exact hrender fmt ap _
    | _ => exact ⟨fun _ => trivial, fun _ => ⟨_, rfl⟩⟩
  | printf fmt va => exact hrender fmt va _
  | _ => exact ⟨fun _ => trivial, fun _ => ⟨_, rfl⟩⟩

/-- **A run goes through exactly when every format of it has a text.**  Nothing else in the log can
    fault: not the table, not the buffers, not the loggers.  So whether a run faults can be read off
    its events, whatever state it starts in. -/
theorem runs_ok_iff (l : Layout) (events : List (Event V)) {k : Subscribers Logger × World Console}
    {m : Audience Logger × Console} (h : Reports k m) :
    (∃ r, runs (Event.run ssfn_putc fp l) k events = .ok r) ↔ ∀ e ∈ events, e.Sound fp := by
  -- first over the meanings, where the state plays no part; the refinement then carries it over
  have hmeaning : ∀ m, (∃ r, runs (Event.meaning ssfn_putc fp) m events = .ok r)
      ↔ ∀ e ∈ events, e.Sound fp := by
    induction events with
    | nil => exact fun m => ⟨fun _ e he => absurd he List.not_mem_nil, fun _ => ⟨_, rfl⟩⟩
    | cons e events ih =>
      intro m
      rw [List.forall_mem_cons, ← meaning_ok_iff ssfn_putc fp e m]
      constructor
      · rintro ⟨r, hrun⟩
        rw [runs] at hrun
        obtain ⟨q, hfirst, hrun⟩ := bind_eq_ok.mp hrun
        obtain ⟨q', hrest, -⟩ := bind_eq_ok.mp hrun
        exact ⟨⟨q, hfirst⟩, (ih q.2).mp ⟨q', hrest⟩⟩
      · rintro ⟨⟨q, hfirst⟩, hsound⟩
        obtain ⟨q', hrest⟩ := (ih q.2).mpr hsound
        refine ⟨(q.1 :: q'.1, q'.2), ?_⟩
        rw [runs, hfirst, ok_bind]
        dsimp only
        rw [hrest]
        rfl
  rw [← hmeaning m]
  have hmatch := runs_refine (event_reports ssfn_putc fp l) events k m h
  constructor
  · rintro ⟨r, hr⟩
    rw [hr] at hmatch
    obtain ⟨b, hb, -⟩ := Matches.symm_value hmatch
    exact ⟨b, hb⟩
  · rintro ⟨b, hb⟩
    rw [hb] at hmatch
    obtain ⟨r, hr, -⟩ := Matches.value hmatch
    exact ⟨r, hr⟩

/-! ## §5. What the serial port gets. -/

/-- A layout in the kernel's memory. -/
def kernel_layout : Layout := ⟨0x1000, 0x2000, 0x3000, by decide, by decide, by decide, by decide⟩

/-- A screen of 30 text lines, with the serial port initialised. -/
def vga_console : Console :=
  ⟨Framebuffer.terminal_initialize ⟨0xffff8000fd000000, 640, 480, 2560⟩ 16 0 fun _ => 0, true, []⟩

/-- The line of an event for the serial port, as `log_initialize` subscribes it. -/
def serial_line : Event V → List CString
  | .log (.message severity fmt ap) =>
    match render fp fmt ap with
    | .ok text => if ULOG_DEBUG_LEVEL ≤ severity then [line_string severity (kept text)] else []
    | .error _ => []
  | _ => []

/-- The lines of all events, in their order. -/
def serial_lines (events : List (Event V)) : List CString := events.flatMap (serial_line fp)

/-- No line is longer than the counter of `serial_write` can count. -/
theorem serial_line_length (e : Event V) : ∀ s ∈ serial_line fp e, s.bytes.length ≤ 132 := by
  intro s hs
  unfold serial_line at hs
  split at hs
  · rename_i severity fmt ap
    cases hrender : render fp fmt ap with
    | error e =>
      rw [hrender] at hs
      exact absurd hs List.not_mem_nil
    | ok text =>
      rw [hrender] at hs
      dsimp only at hs
      split_ifs at hs
      · rw [List.mem_singleton.mp hs]
        exact kept_line_length severity text
      · exact absurd hs List.not_mem_nil
  · exact absurd hs List.not_mem_nil

/-- The event leaves the subscriptions alone. -/
def KeepsSubscriptions : Event V → Prop
  | .subscribe_loggers => True
  | .log (.message _ _ _) => True
  | .log _ => False
  | _ => True

/-- As it is subscribed, the serial logger hears everything from `DEBUG` on. -/
theorem default_hears_serial (severity : UInt32) :
    default_audience.hears severity .serial_log ↔ ULOG_DEBUG_LEVEL ≤ severity := by
  have hmem : Logger.serial_log ∈ default_audience.listeners := by decide
  exact ⟨fun h => h.2, fun h => ⟨hmem, h⟩⟩

/-- An event gives the serial port its line, once that is initialised, and leaves the audience and
    the flag as they are. -/
theorem event_serial_line {e : Event V} (he : KeepsSubscriptions e) (c : Console)
    {r : UlogErr × Audience Logger × Console}
    (h : e.meaning ssfn_putc fp (default_audience, c) = .ok r) :
    r.2.1 = default_audience ∧ r.2.2.is_initialized = c.is_initialized
      ∧ r.2.2.written = c.written ++ if c.is_initialized then serial_line fp e else [] := by
  have hnothing : c.written
      = c.written ++ if c.is_initialized then ([] : List CString) else [] := by
    rw [ite_self, List.append_nil]
  cases e with
  | subscribe_loggers =>
    obtain rfl := Except.ok.inj h
    exact ⟨rfl, rfl, hnothing⟩
  | log call =>
    cases call with
    | init => exact he.elim
    | subscribe fn threshold => exact he.elim
    | unsubscribe fn => exact he.elim
    | message severity fmt ap =>
      obtain ⟨text, htext, h⟩ := bind_eq_ok.mp h
      obtain rfl := Except.ok.inj h
      refine ⟨rfl, rfl, ?_⟩
      unfold report serial_line
      dsimp only
      rw [htext]
      dsimp only
      -- the condition of the audience is the comparison with `DEBUG`
      simp only [default_hears_serial]
      cases c.is_initialized with
      | true =>
        simp only [and_true, if_true]
        split_ifs
        · rfl
        · rw [List.append_nil]
      | false => simp
  | printf fmt va =>
    obtain ⟨text, htext, h⟩ := bind_eq_ok.mp h
    obtain rfl := Except.ok.inj h
    exact ⟨rfl, rfl, hnothing⟩
  | set_text_color c =>
    obtain rfl := Except.ok.inj h
    exact ⟨rfl, rfl, hnothing⟩
  | reset_text_color =>
    obtain rfl := Except.ok.inj h
    exact ⟨rfl, rfl, hnothing⟩

/-- **The lines of a run** of meanings, by induction on its events. -/
theorem run_serial_lines (events : List (Event V)) (hkeeps : ∀ e ∈ events, KeepsSubscriptions e) :
    ∀ (c : Console) (r : List UlogErr × Audience Logger × Console),
      runs (Event.meaning ssfn_putc fp) (default_audience, c) events = .ok r →
        r.2.1 = default_audience ∧ r.2.2.is_initialized = c.is_initialized
          ∧ r.2.2.written = c.written ++
              if c.is_initialized then serial_lines fp events else [] := by
  induction events with
  | nil =>
    intro c r h
    obtain rfl := Except.ok.inj h
    refine ⟨rfl, rfl, ?_⟩
    show c.written = c.written ++ if c.is_initialized then [] else []
    rw [ite_self, List.append_nil]
  | cons e events ih =>
    intro c r h
    rw [runs] at h
    obtain ⟨⟨err, a, c₁⟩, hfirst, h⟩ := bind_eq_ok.mp h
    obtain ⟨q, hrest, h⟩ := bind_eq_ok.mp h
    obtain rfl := Except.ok.inj h
    obtain ⟨ha, hinit, hwritten⟩ :=
      event_serial_line ssfn_putc fp (hkeeps e List.mem_cons_self) c hfirst
    obtain rfl : a = default_audience := ha
    have hinit : c₁.is_initialized = c.is_initialized := hinit
    have hwritten : c₁.written = c.written ++ if c.is_initialized then serial_line fp e else [] :=
      hwritten
    obtain ⟨haudience, hinit', htail⟩ :=
      ih (fun x hx => hkeeps x (List.mem_cons_of_mem e hx)) c₁ q hrest
    refine ⟨haudience, hinit'.trans hinit, ?_⟩
    show q.2.2.written = _
    rw [htail, hwritten, hinit, List.append_assoc]
    cases c.is_initialized with
    | true => rfl
    | false => rfl

/-- After `log_initialize` both loggers are subscribed, and `serial_write` has been called with the
    lines of the events.  The meaning of the run says so, and the refinement carries it to the
    run. -/
theorem run_subscribed (l : Layout) (m : Memory) (c : Console) (hinit : c.is_initialized = true)
    (events : List (Event V)) (hkeeps : ∀ e ∈ events, KeepsSubscriptions e)
    {r : List UlogErr × Subscribers Logger × World Console}
    (hrun : runs (Event.run ssfn_putc fp l) (ulog_init, ⟨m, c⟩) (.subscribe_loggers :: events)
      = .ok r) :
    Reports r.2 (default_audience, r.2.2.console) ∧ r.2.2.console.is_initialized = true
      ∧ r.2.2.console.written = c.written ++ serial_lines fp events := by
  have hmatch := runs_refine (event_reports ssfn_putc fp l) (.subscribe_loggers :: events) _ _
    (start_reports m c)
  rw [hrun] at hmatch
  obtain ⟨b, hb, -, hrep, hconsole⟩ := Matches.symm_value hmatch
  rw [runs] at hb
  obtain ⟨q, hfirst, hb⟩ := bind_eq_ok.mp hb
  obtain rfl := Except.ok.inj hfirst
  obtain ⟨q, hrest, hb⟩ := bind_eq_ok.mp hb
  obtain rfl := Except.ok.inj hb
  obtain ⟨haudience, hinit', hwritten⟩ := run_serial_lines ssfn_putc fp events hkeeps c q hrest
  rw [hinit, if_pos rfl] at hwritten
  rw [hconsole]
  have hrep : Represents r.2.1 q.2.1 := hrep
  rw [haudience] at hrep
  exact ⟨⟨hrep, hconsole⟩, hinit'.trans hinit, hwritten⟩

/-- **The serial port gets every line.**  After `log_initialize`, whatever is logged and printed:
    `serial_write` is called with one line for each message from `DEBUG` on, in order, with the
    message up to its 119th character or first NUL; and in every interleaving with the device the
    UART accepts exactly these bytes. -/
theorem serial_lines_sent (l : Layout) (m : Memory) (c : Console) (hinit : c.is_initialized = true)
    (events : List (Event V)) (hkeeps : ∀ e ∈ events, KeepsSubscriptions e)
    {r : List UlogErr × Subscribers Logger × World Console}
    (hrun : runs (Event.run ssfn_putc fp l) (ulog_init, ⟨m, c⟩) (.subscribe_loggers :: events)
      = .ok r) :
    r.2.2.console.written = c.written ++ serial_lines fp events
      ∧ ∀ (u : Uart) (cfg : Config),
          Relation.ReflTransGen Step (start u (serial_lines fp events)) cfg →
            Faithful u.accepted (serial_lines fp events) cfg := by
  constructor
  · exact (run_subscribed ssfn_putc fp l m c hinit events hkeeps hrun).2.2
  · intro u cfg hreach
    have hshort : ∀ s ∈ serial_lines fp events, s.bytes.length ≤ INT_MAX := by
      intro s hs
      obtain ⟨e, -, hs⟩ := List.mem_flatMap.mp hs
      exact (serial_line_length fp e s hs).trans (by decide)
    exact (reach_invariant (step_progress hshort) (start_progress u _) hreach).faithful

/-- One error on an initialised port: `[ERROR]: hi` and a newline. -/
theorem serial_lines_sent_error :
    ∃ r, runs (Event.run fixed_width (⟨fun _ _ _ _ => [], fun _ _ _ _ => []⟩ : FloatFormat Unit)
        kernel_layout) (ulog_init, ⟨⟨fun _ => 0, []⟩, vga_console⟩)
        [.subscribe_loggers, .log (.message ULOG_ERROR_LEVEL [0x68, 0x69, 0] [])] = .ok r
      ∧ r.2.2.console.written.map CString.bytes
        = [[0x5B, 0x45, 0x52, 0x52, 0x4F, 0x52, 0x5D, 0x3A, 0x20, 0x68, 0x69, 0x0A]] := by
  obtain ⟨r, hr, -⟩ := Matches.value (runs_refine (event_reports fixed_width
      (⟨fun _ _ _ _ => [], fun _ _ _ _ => []⟩ : FloatFormat Unit) kernel_layout)
    [.subscribe_loggers, .log (.message ULOG_ERROR_LEVEL [0x68, 0x69, 0] [])] _ _
    (start_reports ⟨fun _ => 0, []⟩ vga_console))
  refine ⟨r, hr, ?_⟩
  rw [(serial_lines_sent fixed_width _ kernel_layout _ vga_console rfl
    [.log (.message ULOG_ERROR_LEVEL [0x68, 0x69, 0] [])] (by simp [KeepsSubscriptions]) hr).1]
  rfl

/-! ## §6. What the terminal shows. -/

section Grid

variable {ssfn_putc} {w h : ℤ} {fh : UInt8}

/-- A colour does not move the cursor. -/
theorem set_text_color_onGrid {t : Terminal} (g : OnGrid w h fh t) (c : UInt32) :
    OnGrid w h fh (terminal_set_text_color t c) where
  x_nonneg := g.x_nonneg
  x_lt := g.x_lt
  y_nonneg := g.y_nonneg
  y_le := g.y_le
  width := g.width
  height := g.height
  font := g.font
  line := g.line

/-- Nor does that of a severity. -/
theorem level_color_onGrid (severity : UInt32) {t : Terminal} (g : OnGrid w h fh t) :
    OnGrid w h fh (level_color severity t) := by
  unfold level_color
  split_ifs
  · exact set_text_color_onGrid g COLORS_GREEN
  · exact set_text_color_onGrid g COLORS_YELLOW
  · exact set_text_color_onGrid g COLORS_BLUE
  · exact set_text_color_onGrid g COLORS_RED
  · exact g

/-- An event keeps the cursor on the grid: it writes characters, sets a colour, or does not touch
    the terminal. -/
theorem event_onGrid (hadv : Advances ssfn_putc) (hfh : 0 < fh.toNat) (hw : 0 < w)
    (hle : fh.toNat ≤ h) (hdvd : (fh.toNat : ℤ) ∣ h) (m : Audience Logger × Console) (e : Event V)
    (r : UlogErr × Audience Logger × Console) (g : OnGrid w h fh m.2.terminal)
    (hrun : e.meaning ssfn_putc fp m = .ok r) : OnGrid w h fh r.2.2.terminal := by
  have hwrite : ∀ (data : List UInt8) (t : Terminal), OnGrid w h fh t →
      OnGrid w h fh (terminal_write ssfn_putc t data) :=
    fun data t => foldl_stays (putchar_onGrid hadv hfh hw hle hdvd) data t
  cases e with
  | subscribe_loggers =>
    obtain rfl := Except.ok.inj hrun
    exact g
  | log call =>
    cases call with
    | init =>
      obtain rfl := Except.ok.inj hrun
      exact g
    | subscribe fn threshold =>
      obtain rfl := Except.ok.inj hrun
      exact g
    | unsubscribe fn =>
      obtain rfl := Except.ok.inj hrun
      exact g
    | message severity fmt ap =>
      obtain ⟨text, -, hrun⟩ := bind_eq_ok.mp hrun
      obtain rfl := Except.ok.inj hrun
      show OnGrid w h fh (if _ then show_line ssfn_putc severity _ m.2.terminal else m.2.terminal)
      split_ifs
      · exact set_text_color_onGrid (hwrite _ _ (level_color_onGrid severity g)) COLORS_TEXT_FG
      · exact g
  | printf fmt va =>
    obtain ⟨text, -, hrun⟩ := bind_eq_ok.mp hrun
    obtain rfl := Except.ok.inj hrun
    exact hwrite _ _ g
  | set_text_color c =>
    obtain rfl := Except.ok.inj hrun
    exact set_text_color_onGrid g c
  | reset_text_color =>
    obtain rfl := Except.ok.inj hrun
    exact set_text_color_onGrid g COLORS_TEXT_FG

/-- **Whatever is logged and printed, the cursor stays on a visible line** of a screen that the text
    lines fill.  It is an invariant of the meaning of every event, and the refinement hands it on to
    the terminal of the kernel. -/
theorem log_onGrid (hadv : Advances ssfn_putc) (hfh : 0 < fh.toNat) (hw : 0 < w)
    (hle : fh.toNat ≤ h) (hdvd : (fh.toNat : ℤ) ∣ h) (l : Layout) (m : Memory) (c : Console)
    (g : OnGrid w h fh c.terminal) (events : List (Event V))
    {r : List UlogErr × Subscribers Logger × World Console}
    (hrun : runs (Event.run ssfn_putc fp l) (ulog_init, ⟨m, c⟩) events = .ok r) :
    OnGrid w h fh r.2.2.console.terminal := by
  have hmatch := runs_refine (event_reports ssfn_putc fp l) events _ _ (start_reports m c)
  rw [hrun] at hmatch
  obtain ⟨b, hb, -, -, hconsole⟩ := Matches.symm_value hmatch
  rw [hconsole]
  exact runs_invariant (P := fun m => OnGrid w h fh m.2.terminal)
    (fun m e r => event_onGrid fp hadv hfh hw hle hdvd m e r) events _ _ g hb

/-- An error on a screen of 30 lines. -/
theorem log_onGrid_error :
    ∃ r, runs (Event.run fixed_width (⟨fun _ _ _ _ => [], fun _ _ _ _ => []⟩ : FloatFormat Unit)
        kernel_layout) (ulog_init, ⟨⟨fun _ => 0, []⟩, vga_console⟩)
        [.subscribe_loggers, .log (.message ULOG_ERROR_LEVEL [0x68, 0x69, 0] [])] = .ok r
      ∧ OnGrid 640 480 16 r.2.2.console.terminal := by
  have hstart : OnGrid 640 480 16 vga_console.terminal :=
    OnGrid.move (by decide) rfl rfl rfl rfl (by decide) (by decide) (Int.dvd_zero _)
  obtain ⟨r, hr, -⟩ := Matches.value (runs_refine (event_reports fixed_width
      (⟨fun _ _ _ _ => [], fun _ _ _ _ => []⟩ : FloatFormat Unit) kernel_layout)
    [.subscribe_loggers, .log (.message ULOG_ERROR_LEVEL [0x68, 0x69, 0] [])] _ _
    (start_reports ⟨fun _ => 0, []⟩ vga_console))
  exact ⟨r, hr, log_onGrid _ fixed_width_advances (by decide) (by decide) (by decide) (by decide)
    kernel_layout _ vga_console hstart _ hr⟩

end Grid

end System

end Hippos.Log
