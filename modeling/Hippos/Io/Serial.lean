/-
  Hippos.Io.Serial — the serial port, `arch/x86_64/io/serial.c`, against a UART.

  The device has a line control register whose top bit (DLAB) redirects the first two ports to the
  divisor latch, and a transmitter of one byte that empties at times of its own.  `serial_write` is
  a step relation over its program points, interleaved with the device.  Its index is an `int`: past
  the step that overflows it C promises nothing, and anything can happen.

  The invariant `Progress` says at each program point which strings are done, how much of the one
  under way has been sent, and that the transmitter is empty where a byte is about to be put into
  it.  The device can only empty the transmitter, so what the kernel has seen stays true.  In the
  other direction a string that is too long has a run that gets to the overflow, since the kernel
  can always be made to go on.

  Main results:
    * `serial_initialize_uart` — configuration clears DLAB and transmits nothing.
    * `step_progress` — one step of the kernel or of the device keeps the invariant.
    * `reach_undefined` — a string longer than `INT_MAX` is reached, and overflows the index.
    * `serial_faithful_iff` — over all interleavings, when nothing is lost, doubled or reordered.
    * `configure_speed_iff` — when the divisor that is asked for is programmed.
-/
import Hippos.Lib.FieldMask
import Hippos.Lib.Reach
import Mathlib.Data.List.GetD
import Mathlib.Tactic.Common

namespace Hippos.Io

open Hippos.Lib
open Relation

/-! ## §1. The UART. -/

/-- The first serial port. -/
def SERIAL_COM1 : UInt16 := 0x3F8

/-- The data register, or the low byte of the divisor latch. -/
def SERIAL_DATA_PORT (base : UInt16) : UInt16 := base
/-- The control register of the FIFO. -/
def SERIAL_FIFO_COMMAND_PORT (base : UInt16) : UInt16 := base + 2
/-- The line control register, with DLAB as its top bit. -/
def SERIAL_LINE_COMMAND_PORT (base : UInt16) : UInt16 := base + 3
/-- The control register of the modem lines. -/
def SERIAL_MODEM_COMMAND_PORT (base : UInt16) : UInt16 := base + 4
/-- The line status. -/
def SERIAL_LINE_STATUS_PORT (base : UInt16) : UInt16 := base + 5

/-- The registers, whether the transmitter holds a byte, and all bytes it ever accepted. -/
structure Uart where
  lcr : UInt8
  fcr : UInt8
  mcr : UInt8
  ier : UInt8
  divisor_low : UInt8
  divisor_high : UInt8
  full : Bool
  accepted : List UInt8
  deriving Repr, DecidableEq

namespace Uart

/-- The top bit of the line control register. -/
def dlab (u : Uart) : Bool := u.lcr &&& 0x80 != 0

/-- A byte written to `port` of the UART at `base`.  A data byte that arrives while the transmitter
    is full is lost. -/
def outb (base : UInt16) (u : Uart) (port : UInt16) (val : UInt8) : Uart :=
  if port = base then
    -- the first two ports have two meanings
    if u.dlab then { u with divisor_low := val }
    else if u.full then u
    else { u with full := true, accepted := u.accepted ++ [val] }
  else if port = base + 1 then
    if u.dlab then { u with divisor_high := val } else { u with ier := val }
  else if port = base + 2 then { u with fcr := val }
  else if port = base + 3 then { u with lcr := val }
  else if port = base + 4 then { u with mcr := val }
  else u

/-- The line status: bit 5 says that the transmitter is empty, the other bits come from outside. -/
def line_status (u : Uart) (other : UInt8) : UInt8 :=
  (other &&& 0xDF) ||| (if u.full then 0 else 0x20)

/-- A byte read from `port`; only the line status is modelled. -/
def inb (base : UInt16) (u : Uart) (port : UInt16) (other : UInt8) : UInt8 :=
  if port = base + 5 then u.line_status other else other

/-- The transmitter has sent its byte. -/
def drain (u : Uart) : Uart := { u with full := false }

end Uart

/-! ## §2. Configuration. -/

/-- DLAB, and nothing else. -/
def SERIAL_LINE_ENABLE_DLAB : UInt8 := 0x80
/-- Eight bits, no parity, one stop bit, and DLAB clear. -/
def SERIAL_DEFAULT_LINE_SETUP : UInt8 := 0x03
/-- FIFOs on and cleared, with the highest threshold. -/
def SERIAL_DEFAULT_FIFO_SETUP : UInt8 := 0xC7
/-- RTS and DTR. -/
def SERIAL_DEFAULT_MODEM_SETUP : UInt8 := 0x03

/-- `serial_configure_baud_rate`: both halves of the divisor go to the data port, the upper one
    first. -/
def serial_configure_baud_rate (u : Uart) (com divisor : UInt16) : Uart :=
  let u := u.outb com (SERIAL_LINE_COMMAND_PORT com) SERIAL_LINE_ENABLE_DLAB
  let u := u.outb com (SERIAL_DATA_PORT com) (divisor >>> 8 &&& 0x00FF).toUInt8
  u.outb com (SERIAL_DATA_PORT com) (divisor &&& 0x00FF).toUInt8

/-- `serial_configure_line`. -/
def serial_configure_line (u : Uart) (com : UInt16) : Uart :=
  u.outb com (SERIAL_LINE_COMMAND_PORT com) SERIAL_DEFAULT_LINE_SETUP

/-- `serial_configure_fifo`. -/
def serial_configure_fifo (u : Uart) (com : UInt16) : Uart :=
  u.outb com (SERIAL_FIFO_COMMAND_PORT com) SERIAL_DEFAULT_FIFO_SETUP

/-- `serial_configure_modem`. -/
def serial_configure_modem (u : Uart) (com : UInt16) : Uart :=
  u.outb com (SERIAL_MODEM_COMMAND_PORT com) SERIAL_DEFAULT_MODEM_SETUP

/-- `serial_initialize`: speed, FIFO, line and modem.  The first component is `is_initialized`. -/
def serial_initialize (u : Uart) (com : UInt16) : Bool × Uart :=
  if com < 1 then (false, u)
  else
    let u := serial_configure_baud_rate u com 8
    let u := serial_configure_fifo u com
    let u := serial_configure_line u com
    (true, serial_configure_modem u com)

/-! ## §3. `serial_write` and the device. -/

/-- A NUL-terminated string: its bytes before the NUL. -/
structure CString where
  bytes : List UInt8
  nonzero : ∀ b ∈ bytes, b ≠ 0

/-- `buf[i]`, for `i` up to the terminator. -/
def CString.get (s : CString) (i : ℕ) : UInt8 := s.bytes.getD i 0

/-- Bit 5 of the line status: 0x20 when the transmitter is empty. -/
def serial_is_transmit_fifo_empty (u : Uart) (com : UInt16) (other : UInt8) : UInt8 :=
  u.inb com (SERIAL_LINE_STATUS_PORT com) other &&& 0x20

/-- The largest `int`. -/
def INT_MAX : ℕ := 2 ^ 31 - 1

/-- Where the kernel is: between calls, or in `serial_write` at the outer test, the polling loop or
    the `outb`, or past an `int` overflow. -/
inductive Point where
  | idle
  | fetch (s : CString) (i : ℕ)
  | poll (s : CString) (i : ℕ)
  | send (s : CString) (i : ℕ)
  | undefined

/-- Kernel, calls still to be made, device. -/
structure Config where
  point : Point
  calls : List CString
  uart : Uart

/-- `i++`. -/
def increment (s : CString) (i : ℕ) : Point := if i = INT_MAX then .undefined else .fetch s (i + 1)

/-- One step of the kernel or of the device. -/
inductive Step : Config → Config → Prop
  | call (s : CString) (calls : List CString) (u : Uart) :
      Step ⟨.idle, s :: calls, u⟩ ⟨.fetch s 0, calls, u⟩
  | fetch_nul (s : CString) (i : ℕ) (calls : List CString) (u : Uart) (h : s.get i = 0) :
      Step ⟨.fetch s i, calls, u⟩ ⟨.idle, calls, u⟩
  | fetch_byte (s : CString) (i : ℕ) (calls : List CString) (u : Uart) (h : s.get i ≠ 0) :
      Step ⟨.fetch s i, calls, u⟩ ⟨.poll s i, calls, u⟩
  | poll_again (s : CString) (i : ℕ) (calls : List CString) (u : Uart) (other : UInt8)
      (h : serial_is_transmit_fifo_empty u SERIAL_COM1 other = 0) :
      Step ⟨.poll s i, calls, u⟩ ⟨.poll s i, calls, u⟩
  | poll_done (s : CString) (i : ℕ) (calls : List CString) (u : Uart) (other : UInt8)
      (h : serial_is_transmit_fifo_empty u SERIAL_COM1 other ≠ 0) :
      Step ⟨.poll s i, calls, u⟩ ⟨.send s i, calls, u⟩
  -- the byte goes out, whether or not the transmitter has room
  | send (s : CString) (i : ℕ) (calls : List CString) (u : Uart) :
      Step ⟨.send s i, calls, u⟩
        ⟨increment s i, calls, u.outb SERIAL_COM1 (SERIAL_DATA_PORT SERIAL_COM1) (s.get i)⟩
  -- past an overflow anything may be next
  | undefined (calls : List CString) (u : Uart) (c : Config) : Step ⟨.undefined, calls, u⟩ c
  | drain (point : Point) (calls : List CString) (u : Uart) :
      Step ⟨point, calls, u⟩ ⟨point, calls, u.drain⟩

/-- `serial_initialize(SERIAL_COM1)` has returned and the strings are about to be written. -/
def start (u : Uart) (strings : List CString) : Config :=
  ⟨.idle, strings, (Io.serial_initialize u SERIAL_COM1).2⟩

/-- The bytes of a list of strings. -/
def text (strings : List CString) : List UInt8 := (strings.map CString.bytes).flatten

/-- **Nothing lost, duplicated or reordered** since the bytes `before` were accepted. -/
structure Faithful (before : List UInt8) (strings : List CString) (c : Config) : Prop where
  safe : ∀ s i, c.point = .send s i → c.uart.full = false ∧ c.uart.dlab = false
  in_order : ∃ sent, c.uart.accepted = before ++ sent ∧ sent <+: text strings
  complete : c.point = .idle → c.calls = [] → c.uart.accepted = before ++ text strings

/-! ## §4. The device as the kernel uses it. -/

/-- Bit 5 of a line status, whatever the other bits are. -/
theorem line_status_bit (other : UInt8) :
    ((other &&& 0xDF) ||| 0) &&& 0x20 = 0 ∧ ((other &&& 0xDF) ||| 0x20) &&& 0x20 ≠ 0 := by
  have hclear : ∀ b : BitVec 8, ((b &&& 0xDF#8) ||| 0#8) &&& 0x20#8 = 0#8 := by decide
  have hset : ∀ b : BitVec 8, ((b &&& 0xDF#8) ||| 0x20#8) &&& 0x20#8 ≠ 0#8 := by decide
  exact ⟨UInt8.toBitVec_inj.mp (hclear other.toBitVec),
    fun h => hset other.toBitVec (UInt8.toBitVec_inj.mpr h)⟩

/-- The status test tells whether the transmitter is empty. -/
theorem transmit_fifo_empty_iff (u : Uart) (other : UInt8) :
    serial_is_transmit_fifo_empty u SERIAL_COM1 other = 0 ↔ u.full = true := by
  obtain ⟨hclear, hset⟩ := line_status_bit other
  rw [serial_is_transmit_fifo_empty, Uart.inb, SERIAL_LINE_STATUS_PORT, if_pos rfl,
      Uart.line_status]
  cases u.full with
  | true => exact ⟨fun _ => rfl, fun _ => hclear⟩
  | false => exact ⟨fun h => absurd h hset, fun h => Bool.noConfusion h⟩

/-- The ports of a UART are different, wherever it is. -/
theorem port_ne (com : UInt16) {i j : UInt16} (h : i ≠ j) : com + i ≠ com + j :=
  fun heq => h ((UInt16.add_right_inj com).mp heq)

/-- The line control port sets its register, whatever DLAB is. -/
theorem outb_line (u : Uart) (com : UInt16) (val : UInt8) :
    u.outb com (SERIAL_LINE_COMMAND_PORT com) val = { u with lcr := val } := by
  have h0 : com + 3 ≠ com := by simp
  rw [Uart.outb, SERIAL_LINE_COMMAND_PORT, if_neg h0, if_neg (port_ne com (by decide)),
      if_neg (port_ne com (by decide)), if_pos rfl]

/-- So does the FIFO control port. -/
theorem outb_fifo (u : Uart) (com : UInt16) (val : UInt8) :
    u.outb com (SERIAL_FIFO_COMMAND_PORT com) val = { u with fcr := val } := by
  have h0 : com + 2 ≠ com := by simp
  rw [Uart.outb, SERIAL_FIFO_COMMAND_PORT, if_neg h0, if_neg (port_ne com (by decide)), if_pos rfl]

/-- And the modem control port. -/
theorem outb_modem (u : Uart) (com : UInt16) (val : UInt8) :
    u.outb com (SERIAL_MODEM_COMMAND_PORT com) val = { u with mcr := val } := by
  have h0 : com + 4 ≠ com := by simp
  rw [Uart.outb, SERIAL_MODEM_COMMAND_PORT, if_neg h0, if_neg (port_ne com (by decide)),
      if_neg (port_ne com (by decide)), if_neg (port_ne com (by decide)), if_pos rfl]

/-- With DLAB set a data byte goes to the divisor latch. -/
theorem outb_data_latch {u : Uart} (com : UInt16) (hdlab : u.dlab = true) (val : UInt8) :
    u.outb com (SERIAL_DATA_PORT com) val = { u with divisor_low := val } := by
  rw [Uart.outb, SERIAL_DATA_PORT, if_pos rfl, hdlab]
  rfl

/-- The first write of `serial_configure_baud_rate` sets DLAB. -/
theorem dlab_of_enable {u : Uart} (h : u.lcr = SERIAL_LINE_ENABLE_DLAB) : u.dlab = true := by
  rw [Uart.dlab, h]
  rfl

/-- Both bytes of the divisor go through the data port, to the low half of the latch. -/
theorem configure_baud_rate_eq (u : Uart) (com divisor : UInt16) :
    serial_configure_baud_rate u com divisor
      = { u with
          lcr := SERIAL_LINE_ENABLE_DLAB
          divisor_low := (divisor &&& 0x00FF).toUInt8 } := by
  unfold serial_configure_baud_rate
  dsimp only
  rw [outb_line u com SERIAL_LINE_ENABLE_DLAB]
  rw [outb_data_latch com (dlab_of_enable rfl) (divisor >>> 8 &&& 0x00FF).toUInt8]
  rw [outb_data_latch com (dlab_of_enable rfl)]

/-- **Configuration clears DLAB and transmits nothing.**  The baud rate is set with DLAB up, and the
    line register that is written behind it takes it down again; until then the data port is the
    latch, so nothing is accepted. -/
theorem serial_initialize_uart (u : Uart) {com : UInt16} (hcom : ¬ com < 1) :
    (Io.serial_initialize u com).2.dlab = false
      ∧ (Io.serial_initialize u com).2.accepted = u.accepted := by
  have hline : (SERIAL_DEFAULT_LINE_SETUP &&& 0x80 != 0) = false := by decide
  rw [Io.serial_initialize, if_neg hcom]
  dsimp only
  rw [configure_baud_rate_eq, serial_configure_fifo, outb_fifo, serial_configure_line, outb_line,
      serial_configure_modem, outb_modem]
  exact ⟨hline, rfl⟩

/-- A data byte reaches an empty transmitter while DLAB is clear. -/
theorem outb_data {u : Uart} (hdlab : u.dlab = false) (hfull : u.full = false) (val : UInt8) :
    u.outb SERIAL_COM1 (SERIAL_DATA_PORT SERIAL_COM1) val
      = { u with full := true, accepted := u.accepted ++ [val] } := by
  rw [Uart.outb, SERIAL_DATA_PORT, if_pos rfl, hdlab, hfull]
  rfl

/-! ## §5. The invariant. -/

/-- What a run keeps when no string is too long: the strings split into those written, the one
    under way and those to come, and the device has accepted what was sent of them. -/
def Progress (before : List UInt8) (strings : List CString) (c : Config) : Prop :=
  c.uart.dlab = false ∧
  match c.point with
  | .idle => ∃ done, strings = done ++ c.calls ∧ c.uart.accepted = before ++ text done
  | .fetch s i => ∃ done, strings = done ++ s :: c.calls ∧ i ≤ s.bytes.length
      ∧ c.uart.accepted = before ++ (text done ++ s.bytes.take i)
  | .poll s i => ∃ done, strings = done ++ s :: c.calls ∧ i < s.bytes.length
      ∧ c.uart.accepted = before ++ (text done ++ s.bytes.take i)
  | .send s i => c.uart.full = false ∧ ∃ done, strings = done ++ s :: c.calls
      ∧ i < s.bytes.length ∧ c.uart.accepted = before ++ (text done ++ s.bytes.take i)
  | .undefined => False

/-- No strings, no bytes. -/
theorem text_nil : text [] = [] := rfl

/-- Strings one after the other. -/
theorem text_append (done rest : List CString) : text (done ++ rest) = text done ++ text rest := by
  rw [text, List.map_append, List.flatten_append]
  rfl

/-- The first string and the others. -/
theorem text_cons (s : CString) (rest : List CString) :
    text (s :: rest) = s.bytes ++ text rest := rfl

/-- The NUL is read exactly at the length. -/
theorem get_eq_zero_iff (s : CString) {i : ℕ} (hi : i ≤ s.bytes.length) :
    s.get i = 0 ↔ i = s.bytes.length := by
  rw [CString.get]
  constructor
  · intro h
    by_contra hne
    have hlt : i < s.bytes.length := by omega
    rw [List.getD_eq_getElem _ _ hlt] at h
    exact s.nonzero _ (List.getElem_mem hlt) h
  · intro hex
    subst hex
    exact List.getD_eq_default _ _ (Nat.le_refl _)

/-- One byte more of a string. -/
theorem take_succ_get (s : CString) {i : ℕ} (hi : i < s.bytes.length) :
    s.bytes.take (i + 1) = s.bytes.take i ++ [s.get i] := by
  rw [CString.get, List.getD_eq_getElem _ _ hi, List.take_add_one, List.getElem?_eq_getElem hi]
  rfl

/-- **One step of the kernel or of the device keeps the invariant**, when no string is longer than
    `INT_MAX`.  The cases are the steps: the kernel calls, fetches, polls, sends; the device empties
    its register, at any time and without a trace in what was accepted. -/
theorem step_progress {before : List UInt8} {strings : List CString}
    (hshort : ∀ s ∈ strings, s.bytes.length ≤ INT_MAX) (c c' : Config)
    (h : Progress before strings c) (step : Step c c') : Progress before strings c' := by
  cases step with
  | call s calls u =>
    -- nothing of the new string is sent yet
    obtain ⟨hdlab, done, hsplit, haccepted⟩ := h
    refine ⟨hdlab, done, hsplit, Nat.zero_le _, ?_⟩
    rw [List.take_zero, List.append_nil]
    exact haccepted
  | fetch_nul s i calls u hnul =>
    -- the whole string is sent
    obtain ⟨hdlab, done, hsplit, hi, haccepted⟩ := h
    rw [get_eq_zero_iff s hi] at hnul
    refine ⟨hdlab, done ++ [s], ?_, ?_⟩
    · rw [hsplit, List.append_assoc]
      rfl
    · show u.accepted = before ++ text (done ++ [s])
      rw [text_append, text_cons, text_nil, List.append_nil, haccepted, hnul, List.take_length]
  | fetch_byte s i calls u hbyte =>
    obtain ⟨hdlab, done, hsplit, hi, haccepted⟩ := h
    rw [ne_eq, get_eq_zero_iff s hi] at hbyte
    exact ⟨hdlab, done, hsplit, by omega, haccepted⟩
  | poll_again s i calls u other _ => exact h
  | poll_done s i calls u other hempty =>
    -- the transmitter is empty, and only the kernel fills it
    obtain ⟨hdlab, done, hsplit, hi, haccepted⟩ := h
    rw [ne_eq, transmit_fifo_empty_iff, Bool.not_eq_true] at hempty
    exact ⟨hdlab, hempty, done, hsplit, hi, haccepted⟩
  | send s i calls u =>
    obtain ⟨hdlab, hfull, done, hsplit, hi, haccepted⟩ := h
    -- the index does not overflow before the end of a short string
    have hmax : i ≠ INT_MAX := by
      have hlen := hshort s (by rw [hsplit]; simp)
      omega
    rw [outb_data hdlab hfull, increment, if_neg hmax]
    refine ⟨hdlab, done, hsplit, hi, ?_⟩
    show u.accepted ++ [s.get i] = before ++ (text done ++ s.bytes.take (i + 1))
    rw [take_succ_get s hi, haccepted, List.append_assoc, List.append_assoc]
  | undefined calls u c => exact h.2.elim
  | drain point calls u =>
    -- the device changes what the kernel relies on only to its benefit
    cases point with
    | send s i => exact ⟨h.1, rfl, h.2.2⟩
    | _ => exact h

/-- Behind `serial_initialize` nothing of the strings is sent, and DLAB is clear. -/
theorem start_progress (u : Uart) (strings : List CString) :
    Progress u.accepted strings (start u strings) := by
  obtain ⟨hdlab, haccepted⟩ := serial_initialize_uart u (by decide : ¬ SERIAL_COM1 < 1)
  refine ⟨hdlab, [], rfl, ?_⟩
  rw [text_nil, List.append_nil]
  exact haccepted

/-- What is under way is a prefix of the whole text. -/
theorem sent_prefix {strings done calls : List CString} {s : CString}
    (hsplit : strings = done ++ s :: calls) (i : ℕ) :
    text done ++ s.bytes.take i <+: text strings := by
  rw [hsplit, text_append, text_cons, List.prefix_append_right_inj]
  exact (List.take_prefix i s.bytes).trans (List.prefix_append _ _)

/-- The invariant says all that is asked. -/
theorem Progress.faithful {before : List UInt8} {strings : List CString} {c : Config}
    (h : Progress before strings c) : Faithful before strings c := by
  obtain ⟨point, calls, u⟩ := c
  cases point with
  | idle =>
    -- between two calls: the strings done so far, all of them at the end
    obtain ⟨hdlab, done, hsplit, haccepted⟩ := h
    refine ⟨fun s i hp => Point.noConfusion hp, ⟨text done, haccepted, ?_⟩, ?_⟩
    · rw [hsplit, text_append]
      exact List.prefix_append _ _
    · intro _ hcalls
      have hnil : calls = [] := hcalls
      rw [hsplit, hnil, List.append_nil]
      exact haccepted
  | fetch s i =>
    -- inside a call: the strings done, and the first `i` bytes of this one
    obtain ⟨hdlab, done, hsplit, -, haccepted⟩ := h
    exact ⟨fun s i hp => Point.noConfusion hp, ⟨_, haccepted, sent_prefix hsplit i⟩,
      fun hp => Point.noConfusion hp⟩
  | poll s i =>
    obtain ⟨hdlab, done, hsplit, -, haccepted⟩ := h
    exact ⟨fun s i hp => Point.noConfusion hp, ⟨_, haccepted, sent_prefix hsplit i⟩,
      fun hp => Point.noConfusion hp⟩
  | send s i =>
    obtain ⟨hdlab, hfull, done, hsplit, -, haccepted⟩ := h
    exact ⟨fun _ _ _ => ⟨hfull, hdlab⟩, ⟨_, haccepted, sent_prefix hsplit i⟩,
      fun hp => Point.noConfusion hp⟩
  | undefined => exact h.2.elim

/-! ## §6. A string that is too long. -/

/-- From a byte the kernel can always go on to send it: the device drains, and the polling loop
    ends. -/
theorem reach_send (s : CString) {i : ℕ} (hi : i < s.bytes.length) (calls : List CString)
    (u : Uart) : ∃ u', ReflTransGen Step ⟨.fetch s i, calls, u⟩ ⟨.send s i, calls, u'⟩ := by
  have hbyte : s.get i ≠ 0 := by
    rw [ne_eq, get_eq_zero_iff s (Nat.le_of_lt hi)]
    omega
  have hempty : serial_is_transmit_fifo_empty u.drain SERIAL_COM1 0 ≠ 0 := by
    rw [ne_eq, transmit_fifo_empty_iff]
    exact Bool.noConfusion
  exact ⟨u.drain, ((ReflTransGen.single (Step.fetch_byte s i calls u hbyte)).tail
    (Step.drain _ calls u)).tail (Step.poll_done s i calls u.drain 0 hempty)⟩

/-- The loop gets to every index it can represent. -/
theorem reach_fetch (s : CString) (calls : List CString) (u : Uart) (i : ℕ)
    (hi : i ≤ s.bytes.length) (hmax : i ≤ INT_MAX) :
    ∃ u', ReflTransGen Step ⟨.fetch s 0, calls, u⟩ ⟨.fetch s i, calls, u'⟩ := by
  induction i with
  | zero => exact ⟨u, .refl⟩
  | succ i ih =>
    obtain ⟨u₁, run₁⟩ := ih (by omega) (by omega)
    obtain ⟨u₂, run₂⟩ := reach_send s hi calls u₁
    have hsend := Step.send s i calls u₂
    rw [increment, if_neg (by omega)] at hsend
    exact ⟨_, (run₁.trans run₂).tail hsend⟩

/-- **A string longer than `INT_MAX` is reached, and overflows the index.**  By induction on the
    strings: those before it are sent, whatever the device does in the meantime, and of this one all
    characters up to the last value of an `int`. -/
theorem reach_undefined (strings : List CString) (h : ∃ s ∈ strings, INT_MAX < s.bytes.length) :
    ∀ u, ∃ c, ReflTransGen Step ⟨.idle, strings, u⟩ c ∧ c.point = .undefined := by
  induction strings with
  | nil =>
    obtain ⟨s, hs, -⟩ := h
    exact absurd hs List.not_mem_nil
  | cons s strings ih =>
    intro u
    have hcall := ReflTransGen.single (Step.call s strings u)
    by_cases hlong : INT_MAX < s.bytes.length
    · -- this one overflows
      obtain ⟨u₁, run₁⟩ := reach_fetch s strings u INT_MAX (Nat.le_of_lt hlong) (Nat.le_refl _)
      obtain ⟨u₂, run₂⟩ := reach_send s hlong strings u₁
      exact ⟨_, ((hcall.trans run₁).trans run₂).tail (Step.send s INT_MAX strings u₂),
        by rw [increment, if_pos rfl]⟩
    · -- this one is written to its end
      have hrest : ∃ x ∈ strings, INT_MAX < x.bytes.length := by
        obtain ⟨x, hx, hxl⟩ := h
        rcases List.mem_cons.mp hx with rfl | hx
        · exact absurd hxl hlong
        · exact ⟨x, hx, hxl⟩
      obtain ⟨u₁, run₁⟩ := reach_fetch s strings u s.bytes.length (Nat.le_refl _) (by omega)
      have hnul : s.get s.bytes.length = 0 := (get_eq_zero_iff s (Nat.le_refl _)).mpr rfl
      obtain ⟨c, run₂, hc⟩ := ih hrest u₁
      exact ⟨c, ((hcall.trans run₁).tail (Step.fetch_nul s _ strings u₁ hnul)).trans run₂, hc⟩

/-- Past the overflow nothing holds: here a byte too many is sent. -/
theorem unfaithful (strings : List CString) (h : ∃ s ∈ strings, INT_MAX < s.bytes.length)
    (u : Uart) :
    ∃ c, ReflTransGen Step (start u strings) c ∧ ¬ Faithful u.accepted strings c := by
  obtain ⟨⟨point, calls, u'⟩, run, hpoint⟩ :=
    reach_undefined strings h (Io.serial_initialize u SERIAL_COM1).2
  obtain rfl : point = .undefined := hpoint
  let sent : Uart := { u' with accepted := u.accepted ++ text strings ++ [0] }
  refine ⟨⟨.idle, [], sent⟩, run.tail (Step.undefined calls u' _), ?_⟩
  intro hfaithful
  have hlen := congrArg List.length (hfaithful.complete rfl rfl)
  simp only [sent, List.length_append, List.length_singleton] at hlen
  omega

/-- **Serial output is faithful in every interleaving exactly when no string is longer than
    `INT_MAX`.**  The UART is any before `serial_initialize`, and the strings are written one after
    the other. -/
theorem serial_faithful_iff (u : Uart) (strings : List CString) :
    (∀ c, ReflTransGen Step (start u strings) c → Faithful u.accepted strings c)
      ↔ ∀ s ∈ strings, s.bytes.length ≤ INT_MAX := by
  constructor
  · intro h
    by_contra hnot
    simp only [not_forall, Nat.not_le, exists_prop] at hnot
    obtain ⟨c, run, hc⟩ := unfaithful strings hnot u
    exact hc (h c run)
  · intro hshort c run
    exact (reach_invariant (step_progress hshort) (start_progress u strings) run).faithful

/-- `n` times the letter A. -/
def letters (n : ℕ) : CString where
  bytes := List.replicate n 0x41
  nonzero b hb := by
    rw [List.eq_of_mem_replicate hb]
    decide

/-- A UART after reset. -/
def reset_uart : Uart :=
  { lcr := 0, fcr := 0, mcr := 0, ier := 0, divisor_low := 0, divisor_high := 0, full := false,
    accepted := [] }

/-- Two gibibytes of text overflow the index. -/
theorem two_gib_overflow :
    ∃ c, ReflTransGen Step (start reset_uart [letters (2 ^ 31)]) c
      ∧ ¬ Faithful reset_uart.accepted [letters (2 ^ 31)] c := by
  have hlong : ∃ s ∈ [letters (2 ^ 31)], INT_MAX < s.bytes.length := by
    refine ⟨_, List.mem_singleton.mpr rfl, ?_⟩
    rw [letters, List.length_replicate, INT_MAX]
    omega
  exact unfaithful _ hlong reset_uart

/-! ## §7. The divisor latch. -/

/-- The 16-bit divisor latch. -/
def Uart.divisor_latch (u : Uart) : UInt16 :=
  u.divisor_high.toUInt16 <<< 8 ||| u.divisor_low.toUInt16

/-- Speed, FIFO and line format, in the order of `serial_initialize`. -/
def configure_speed (u : Uart) (com divisor : UInt16) : Uart :=
  serial_configure_line (serial_configure_fifo (serial_configure_baud_rate u com divisor) com) com

/-- **The line runs at 115200 / `divisor`**: the latch holds it, and the data port is back. -/
structure RunsAt (u : Uart) (divisor : UInt16) : Prop where
  latch : u.divisor_latch = divisor
  closed : u.dlab = false

/-- The latch as a number. -/
theorem divisor_latch_toNat (u : Uart) :
    u.divisor_latch.toNat = 2 ^ 8 * u.divisor_high.toNat + u.divisor_low.toNat := by
  rw [Uart.divisor_latch, join_bytes_toNat]

/-- What the configuration leaves: the low byte of the divisor, and the high byte there was. -/
theorem configure_speed_eq (u : Uart) (com divisor : UInt16) :
    configure_speed u com divisor
      = { u with
          lcr := SERIAL_DEFAULT_LINE_SETUP
          fcr := SERIAL_DEFAULT_FIFO_SETUP
          divisor_low := (divisor &&& 0x00FF).toUInt8 } := by
  unfold configure_speed
  rw [configure_baud_rate_eq, serial_configure_fifo, outb_fifo, serial_configure_line, outb_line]

/-- **The requested divisor is programmed exactly when the latch already had its high byte.**  Both
    bytes are written to the low half, so the second one stays. -/
theorem configure_speed_iff (u : Uart) (com divisor : UInt16) :
    RunsAt (configure_speed u com divisor) divisor
      ↔ u.divisor_high = (divisor >>> 8).toUInt8 := by
  have hlatch : (configure_speed u com divisor).divisor_latch = divisor
      ↔ u.divisor_high = (divisor >>> 8).toUInt8 := by
    rw [← UInt16.toNat_inj, divisor_latch_toNat, configure_speed_eq, ← UInt8.toNat_inj,
        high_byte_toNat]
    show 2 ^ 8 * u.divisor_high.toNat + (divisor &&& 0x00FF).toUInt8.toNat = _ ↔ _
    rw [masked_byte_toNat]
    omega
  have hclosed : (configure_speed u com divisor).dlab = false := by
    rw [configure_speed_eq]
    show (SERIAL_DEFAULT_LINE_SETUP &&& 0x80 != 0) = false
    decide
  constructor
  · intro h
    exact hlatch.mp h.latch
  · intro h
    exact ⟨hlatch.mpr h, hclosed⟩

/-- 300 bits/s on a UART after reset: the latch ends up with 128, which is 900 bits/s. -/
theorem divisor_384_becomes_128 :
    (configure_speed reset_uart SERIAL_COM1 384).divisor_latch = 128
      ∧ ¬ RunsAt (configure_speed reset_uart SERIAL_COM1 384) 384 := by
  have hlatch : (configure_speed reset_uart SERIAL_COM1 384).divisor_latch = 128 := by decide
  refine ⟨hlatch, ?_⟩
  intro h
  have h384 := h.latch
  rw [hlatch] at h384
  exact absurd h384 (by decide)

end Hippos.Io
