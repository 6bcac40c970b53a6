/-
  Hippos.Cpu.Detect — what the kernel prints about the processor, `cpu/cpudet.c`.

  `detect_cpu` asks `cpuid` and prints as it goes, through tables and switches of two vendors.  What
  it does is a list of calls of `printf`, one function of the answers: `cpuid` is a parameter, a
  table from the leaf to the four registers, and `junk` is what the array of `printregs` held
  before.

  Every list of calls that occurs here is `Printed`: its formats are sound, its arguments fit them,
  and it prints a text that does not depend on the subscribers, the port or the screen.  The text is
  put together from those of the parts, and with it goes whether its lines are ended, so that a line
  found in a part is a line of the whole.

  Main results:
    * `Printed.run` — such calls change the terminal and nothing else.
    * `put_registers_all` — no uninitialised character of `printregs` is printed.
    * `do_intel_printed`, `do_amd_printed` — the text of either vendor, and the lines in it.
    * `detect_cpu_run` — the run of `detect_cpu` for every answer of `cpuid`.
-/
import Hippos.Log.Klog

namespace Hippos.Cpu

open Hippos.Lib
open Hippos.Libc.Printf
open Hippos.Log
open Hippos.Framebuffer (Terminal terminal_write)

variable {V : Type}

/-! ## §1. The tables. -/

/-- "Intel Specific brand list", by the brand number. -/
def Intel : Vector String 24 :=
  #v["Brand ID Not Supported.", "Intel(R) Celeron(R) processor",
    "Intel(R) Pentium(R) III processor", "Intel(R) Pentium(R) III Xeon(R) processor",
    "Intel(R) Pentium(R) III processor", "Reserved",
    "Mobile Intel(R) Pentium(R) III processor-M", "Mobile Intel(R) Celeron(R) processor",
    "Intel(R) Pentium(R) 4 processor", "Intel(R) Pentium(R) 4 processor",
    "Intel(R) Celeron(R) processor", "Intel(R) Xeon(R) Processor",
    "Intel(R) Xeon(R) processor MP", "Reserved", "Mobile Intel(R) Pentium(R) 4 processor-M",
    "Mobile Intel(R) Pentium(R) Celeron(R) processor", "Reserved",
    "Mobile Genuine Intel(R) processor", "Intel(R) Celeron(R) M processor",
    "Mobile Intel(R) Celeron(R) processor", "Intel(R) Celeron(R) processor",
    "Mobile Geniune Intel(R) processor", "Intel(R) Pentium(R) M processor",
    "Mobile Intel(R) Celeron(R) processor"]

/-- The brands with two values, by the processor signature.  The table is to have as many entries as
    the one above, which the type says. -/
def Intel_Other : Vector String 24 :=
  #v["Reserved", "Reserved", "Reserved", "Intel(R) Celeron(R) processor", "Reserved", "Reserved",
    "Reserved", "Reserved", "Reserved", "Reserved", "Reserved", "Intel(R) Xeon(R) processor MP",
    "Reserved", "Reserved", "Intel(R) Xeon(R) processor", "Reserved", "Reserved", "Reserved",
    "Reserved", "Reserved", "Reserved", "Reserved", "Reserved", "Reserved"]

/-- `switch(type)`. -/
def intel_types : List (UInt32 × String) :=
  [(0, "Original OEM"), (1, "Overdrive"), (2, "Dual-capable"), (3, "Reserved")]

/-- `switch(family)`. -/
def intel_families : List (UInt32 × String) :=
  [(3, "i386"), (4, "i486"), (5, "Pentium"), (6, "Pentium Pro"), (15, "Pentium 4")]

/-- `switch(model)`, within the three families that have one. -/
def intel_models (family : UInt32) : List (UInt32 × String) :=
  if family = 4 then
    [(0, "DX"), (1, "DX"), (2, "SX"), (3, "487/DX2"), (4, "SL"), (5, "SX2"),
     (7, "Write-back enhanced DX2"), (8, "DX4")]
  else if family = 5 then
    [(1, "60/66"), (2, "75-200"), (3, "for 486 system"), (4, "MMX")]
  else if family = 6 then
    [(1, "Pentium Pro"), (3, "Pentium II Model 3"), (5, "Pentium II Model 5/Xeon/Celeron"),
     (6, "Celeron"), (7, "Pentium III/Pentium III Xeon - external L2 cache"),
     (8, "Pentium III/Pentium III Xeon - internal L2 cache")]
  else []

/-! ## §2. The calls. -/

/-- What `cpuid` leaves in the registers. -/
structure CpuidRegs where
  eax : UInt32
  ebx : UInt32
  ecx : UInt32
  edx : UInt32
  deriving Repr, DecidableEq

/-- `printf(format, …)`, as an event of the console. -/
def print (format : String) (va : List (VaArg V)) : Event V := .printf (literal format ++ [0]) va

/-- An `int` that is passed to `printf`: its 32 bits, which `%d` reads with their sign. -/
def int_arg (v : UInt32) : VaArg V := .word v.toUInt64

/-- A string of a table, with its NUL. -/
def string_arg (s : String) : VaArg V := .string (literal s ++ [0])

/-- A `switch` whose cases print, and that has no `default`. -/
def switch_print (l : List (UInt32 × String)) (v : UInt32) : List (Event V) :=
  match l.find? fun c => c.1 == v with
  | some c => [print c.2 []]
  | none => []

/-- Round `j` of the loop of `printregs`: byte `j` of each register, four characters apart. -/
def put_registers (r : CpuidRegs) (string : List UInt8) (j : ℕ) : List UInt8 :=
  let byte := fun e : UInt32 => (e >>> UInt32.ofNat (8 * j)).toUInt8
  (((string.set j (byte r.eax)).set (j + 4) (byte r.ebx)).set (j + 8) (byte r.ecx)).set (j + 12)
    (byte r.edx)

/-- `string[16]` is the NUL; the other characters are not initialised, and `junk`. -/
def printregs (r : CpuidRegs) (junk : UInt8) : Event V :=
  print "%s" [.string ((List.range 4).foldl (put_registers r) (List.replicate 16 junk ++ [0]))]

section Detect

variable (cpuid : UInt32 → CpuidRegs) (junk : UInt8)

/-- `do_intel` down to the model: the fields of the signature, each with the name its table has for
    it. -/
def intel_signature : List (Event V) :=
  let eax := (cpuid 1).eax
  -- the local variables, in the order in which the source assigns them
  let model := (eax >>> 4) &&& 0xf
  let family := (eax >>> 8) &&& 0xf
  let type := (eax >>> 12) &&& 0x3
  print "Intel Specific Features:\n" [] :: print "Type %d - " [int_arg type]
    :: switch_print intel_types type
    ++ print "\n" [] :: print "Family %d - " [int_arg family] :: switch_print intel_families family
    ++ print "\n" []
    :: (if family = 15 then [print "Extended family %d\n" [int_arg ((eax >>> 20) &&& 0xff)]]
      else [])
    ++ print "Model %d - " [int_arg model] :: switch_print (intel_models family) model
    ++ [print "\n" []]

/-- The brand string where there is one, else the tables. -/
def intel_brand : List (Event V) :=
  let max_eax := (cpuid 0x80000000).eax
  let brand := (cpuid 1).ebx &&& 0xff
  let signature := (cpuid 1).eax
  if max_eax ≥ 0x80000004 then
    print "Brand: " []
      -- the three tests inside hold whenever the outer one does, and are made all the same
      :: (if max_eax ≥ 0x80000002 then [printregs (cpuid 0x80000002) junk] else [])
      ++ (if max_eax ≥ 0x80000003 then [printregs (cpuid 0x80000003) junk] else [])
      ++ (if max_eax ≥ 0x80000004 then [printregs (cpuid 0x80000004) junk] else [])
      ++ [print "\n" []]
  else if brand > 0 then
    print "Brand %d - " [int_arg brand]
      :: if h : brand.toNat < 0x18 then
          if signature = 0x000006B1 ∨ signature = 0x00000F13 then
            [print "%s\n" [string_arg Intel_Other[brand.toNat]]]
          else [print "%s\n" [string_arg Intel[brand.toNat]]]
        else [print "Reserved\n" []]
  else []

/-- `do_intel`: the signature, the brand, and last the stepping with what the source calls the
    reserved bits, those from bit 14 on. -/
def do_intel : List (Event V) :=
  let stepping := (cpuid 1).eax &&& 0xf
  let reserved := (cpuid 1).eax >>> 14
  intel_signature cpuid ++ intel_brand cpuid junk
    ++ [print "Stepping: %d Reserved: %d\n" [int_arg stepping, int_arg reserved]]

/-- `switch(family)` of `do_amd`, with the `switch(model)` of each family.  Other families print
    nothing. -/
def amd_model (family model : UInt32) : List (Event V) :=
  if family = 4 then [print "486 Model %d" [int_arg model]]
  else if family = 5 then
    if model ∈ [0, 1, 2, 3, 6, 7] then [print "K6 Model %d" [int_arg model]]
    else if model = 8 then [print "K6-2 Model 8" []]
    else if model = 9 then [print "K6-III Model 9" []]
    else [print "K5/K6 Model %d" [int_arg model]]
  else if family = 6 then
    if model ∈ [1, 2, 4] then [print "Athlon Model %d" [int_arg model]]
    else if model = 3 then [print "Duron Model 3" []]
    else if model = 6 then [print "Athlon MP/Mobile Athlon Model 6" []]
    else if model = 7 then [print "Mobile Duron Model 7" []]
    else [print "Duron/Athlon Model %d" [int_arg model]]
  else []

/-- `do_amd` down to `"]\n"`, which is printed for every processor of the vendor. -/
def amd_signature : List (Event V) :=
  let eax := (cpuid 1).eax
  let model := (eax >>> 4) &&& 0xf
  let family := (eax >>> 8) &&& 0xf
  print "AMD Specific Features:\n" []
    :: print "Family: %d Model: %d [" [int_arg family, int_arg model]
    :: amd_model family model ++ [print "]\n" []]

/-- `for(j = 0x80000002; j <= 0x80000004; j++)`, and its line. -/
def amd_name : List (Event V) :=
  print "Detected Processor Name: " []
    :: [0x80000002, 0x80000003, 0x80000004].map (fun j => printregs (cpuid j) junk)
    ++ [print "\n" []]

/-- `do_amd`.  Behind the signature it returns at once when `cpuid` knows no extended leaf, so name,
    diode and also the stepping are printed only where `(cpuid 0x80000000).eax` is not 0.  Its
    reserved bits start at bit 12. -/
def do_amd : List (Event V) :=
  let extended := (cpuid 0x80000000).eax
  let stepping := (cpuid 1).eax &&& 0xf
  let reserved := (cpuid 1).eax >>> 12
  amd_signature cpuid ++
    -- `return 0`, before the last line
    if extended = 0 then []
    else
      (if extended ≥ 0x80000002 then amd_name cpuid junk else [])
        ++ (if extended ≥ 0x80000007 then
            if (cpuid 0x80000007).edx &&& 1 ≠ 0 then
              [print "Temperature Sensing Diode Detected!\n" []]
            else []
          else [])
        ++ [print "Stepping: %d Reserved: %d\n" [int_arg stepping, int_arg reserved]]

/-- The vendor is told by the first of the three registers with its name: "Genu" or "Auth". -/
def detect_cpu : List (Event V) :=
  let ebx := (cpuid 0).ebx
  if ebx = 0x756e6547 then do_intel cpuid junk
  else if ebx = 0x68747541 then do_amd cpuid junk
  else [print "Unknown x86 CPU Detected\n" []]

end Detect

/-! ## §3. Calls that print. -/

/-- **The calls print the text**: all formats are sound, and their texts make it up. -/
inductive Printed (fp : FloatFormat V) : List (Event V) → List UInt8 → Prop where
  | nil : Printed fp [] []
  | cons {format s text : List UInt8} {va : List (VaArg V)} {events : List (Event V)}
      (first : Prints fp format va s) (rest : Printed fp events text) :
      Printed fp (.printf (format ++ [0]) va :: events) (s ++ text)

namespace Printed

variable {fp : FloatFormat V} {events events' : List (Event V)} {text text' : List UInt8}

/-- Calls one after the other print their texts one after the other. -/
theorem append (h : Printed fp events text) (h' : Printed fp events' text') :
    Printed fp (events ++ events') (text ++ text') := by
  induction h with
  | nil => exact h'
  | cons first rest ih =>
    rw [List.cons_append, List.append_assoc]
    exact cons first ih

/-- A single call. -/
theorem one {format s : List UInt8} {va : List (VaArg V)} (h : Prints fp format va s) :
    Printed fp [.printf (format ++ [0]) va] s := by
  have hone := cons h nil
  rw [List.append_nil] at hone
  exact hone

/-- Such calls go through, and only the terminal changes: it has been given the text.  By induction
    on the calls, since `printf` hands every character on at once. -/
theorem run (ssfn_putc : Terminal → UInt32 → Terminal) (l : Layout) (h : Printed fp events text) :
    ∀ k : Subscribers Logger × World Console, ∃ errs,
      runs (Event.run ssfn_putc fp l) k events = .ok (errs, k.1, { k.2 with
        console := { k.2.console with
          terminal := terminal_write ssfn_putc k.2.console.terminal text } }) := by
  induction h with
  | nil => exact fun k => ⟨[], rfl⟩
  | @cons format s text va events first rest ih =>
    intro k
    -- the first call: what is handed to `putchar` is what the renderer makes of the format
    have hfirst : Event.run ssfn_putc fp l k (.printf (format ++ [0]) va)
        = .ok (.ULOG_ERR_NONE, k.1, { k.2 with console := { k.2.console with
            terminal := terminal_write ssfn_putc k.2.console.terminal s } }) := by
      unfold Event.run
      dsimp only
      rw [printf_eq _ _ _ _ _ l.local_there, first.render]
      show Except.ok (_, k.1, handed (putchar ssfn_putc) k.2 s) = _
      rw [handed_putchar, filter_nonzero first.nonzero]
    obtain ⟨errs, hrest⟩ := ih (k.1, { k.2 with console := { k.2.console with
      terminal := terminal_write ssfn_putc k.2.console.terminal s } })
    refine ⟨.ULOG_ERR_NONE :: errs, ?_⟩
    rw [runs, hfirst, ok_bind]
    dsimp only
    rw [hrest, ok_bind]
    dsimp only
    rw [show terminal_write ssfn_putc k.2.console.terminal (s ++ text) = _ from List.foldl_append]
    rfl

end Printed

/-! ## §4. The formats. -/

/-- A format with one `%d`, split there, with no other directive in it. -/
def splits (format front behind : String) : Bool :=
  literal format == literal front ++ ([0x25, 0x64] ++ literal behind) && is_plain front
    && is_plain behind

section Formats

variable {fp : FloatFormat V}

/-- So it prints the number between the two parts.  The `int` must not be negative. -/
theorem number_prints (format front behind : String) (h : splits format front behind = true)
    {v : UInt32} (hv : v.toNat < 2 ^ 31) :
    Prints fp (literal format) [int_arg v]
      (literal front ++ (decimal v.toNat ++ literal behind)) := by
  unfold splits at h
  rw [Bool.and_eq_true, Bool.and_eq_true, beq_iff_eq] at h
  obtain ⟨⟨hformat, hfront⟩, hbehind⟩ := h
  rw [hformat]
  exact .plain (is_plain_char hfront) (.int hv (.literal hbehind))

/-- What a mask leaves is no negative `int`. -/
theorem masked_small (v mask : UInt32) (hmask : mask.toNat < 2 ^ 31) :
    (v &&& mask).toNat < 2 ^ 31 := by
  rw [UInt32.toNat_and]
  exact lt_of_le_of_lt Nat.and_le_right hmask

/-- Nor is what is left of a shift by a bit or more. -/
theorem shifted_small (v shift : UInt32) (hshift : 0 < shift.toNat)
    (hlt : shift.toNat < 32) : (v >>> shift).toNat < 2 ^ 31 := by
  have hv := v.toNat_lt
  have hpow : 2 ^ 1 ≤ 2 ^ shift.toNat := Nat.pow_le_pow_right (by omega) hshift
  rw [UInt32.toNat_shiftRight, Nat.shiftRight_eq_div_pow, Nat.mod_eq_of_lt hlt]
  exact lt_of_le_of_lt (Nat.div_le_div_left hpow (by omega)) (by omega)

/-- A `switch` over plain texts prints one of them, or nothing. -/
theorem switch_printed (fp : FloatFormat V) {l : List (UInt32 × String)}
    (hl : (l.all fun c => is_plain c.2) = true) (v : UInt32) :
    ∃ text, Printed fp (switch_print l v) text := by
  unfold switch_print
  cases hfind : l.find? fun c => c.1 == v with
  | none => exact ⟨[], .nil⟩
  | some c =>
    have hplain := List.all_eq_true.mp hl c (List.mem_of_find?_eq_some hfind)
    exact ⟨_, .one (.literal hplain)⟩

/-! ## §5. The name. -/

/-- The four characters in a register, the lowest byte first. -/
def register_text (e : UInt32) : List UInt8 :=
  (List.range 4).map fun j => (e >>> UInt32.ofNat (8 * j)).toUInt8

/-- The sixteen characters in four registers. -/
def registers_text (r : CpuidRegs) : List UInt8 :=
  register_text r.eax ++ register_text r.ebx ++ register_text r.ecx ++ register_text r.edx

/-- The 48 characters of the processor brand string, each third up to its NUL. -/
def processor_name (cpuid : UInt32 → CpuidRegs) : List UInt8 :=
  before_nul (registers_text (cpuid 0x80000002)) ++ before_nul (registers_text (cpuid 0x80000003))
    ++ before_nul (registers_text (cpuid 0x80000004))

/-- Nothing is left of what was in the array: the four rounds write all sixteen characters, four
    from each register.  `junk` is what the stack held before; the theorem is why it does not
    matter. -/
theorem put_registers_all (r : CpuidRegs) (junk : UInt8) :
    (List.range 4).foldl (put_registers r) (List.replicate 16 junk ++ [0])
      = registers_text r ++ [0] := by
  have hrange : List.range 4 = [0, 1, 2, 3] := rfl
  unfold registers_text register_text
  rw [hrange]
  simp only [List.foldl_cons, List.foldl_nil, put_registers, List.replicate, List.cons_append,
    List.nil_append, List.set_cons_zero, List.set_cons_succ, List.map_cons, List.map_nil,
    Nat.zero_add, Nat.reduceAdd, Nat.reduceMul]

/-- So `printregs` prints the characters of the registers up to the first NUL among them. -/
theorem printregs_printed (r : CpuidRegs) (junk : UInt8) :
    Printed fp [printregs r junk] (before_nul (registers_text r)) := by
  unfold printregs
  rw [put_registers_all]
  have hprints : Prints fp (literal "%s") [.string (registers_text r ++ [0])]
      (before_nul (registers_text r ++ [0])) := by
    have h : Prints fp ([0x25, 0x73] ++ []) [.string (registers_text r ++ [0])]
        (before_nul (registers_text r ++ [0]) ++ []) :=
      .string (List.mem_append_right _ (List.mem_singleton.mpr rfl)) .nil
    rw [List.append_nil, List.append_nil] at h
    rw [show literal "%s" = [0x25, 0x73] from rfl]
    exact h
  rw [before_nul_append_nul] at hprints
  exact .one hprints

end Formats

/-! ## §6. The lines. -/

/-- Nothing, or lines that are all ended. -/
def Whole (text : List UInt8) : Prop := text = [] ∨ ∃ t, text = t ++ [0x0A]

/-- `s` is a line of the text: it begins the text or stands behind an ended line, and is ended
    itself. -/
def Line (s text : List UInt8) : Prop :=
  ∃ before after, Whole before ∧ text = before ++ (s ++ 0x0A :: after)

/-- Ended lines behind ended lines. -/
theorem Whole.append {a b : List UInt8} (ha : Whole a) (hb : Whole b) : Whole (a ++ b) := by
  rcases hb with rfl | ⟨t, rfl⟩
  · rw [List.append_nil]
    exact ha
  · exact .inr ⟨a ++ t, (List.append_assoc a t _).symm⟩

/-- The first line of a text. -/
theorem Line.head {s after : List UInt8} : Line s (s ++ 0x0A :: after) :=
  ⟨[], after, .inl rfl, rfl⟩

/-- A line stays one behind ended lines. -/
theorem Line.behind {s a text : List UInt8} (ha : Whole a) (h : Line s text) :
    Line s (a ++ text) := by
  obtain ⟨before, after, hbefore, rfl⟩ := h
  exact ⟨a ++ before, after, ha.append hbefore, (List.append_assoc a before _).symm⟩

/-- And in front of anything. -/
theorem Line.before {s text : List UInt8} (h : Line s text) (b : List UInt8) :
    Line s (text ++ b) := by
  obtain ⟨before, after, hbefore, rfl⟩ := h
  refine ⟨before, after ++ b, hbefore, ?_⟩
  rw [List.append_assoc, List.append_assoc]
  rfl

/-- The text of the format `"\n"`. -/
theorem newline_text : literal "\n" = [0x0A] := rfl

section Lines

variable (fp : FloatFormat V) (cpuid : UInt32 → CpuidRegs) (junk : UInt8)

/-- `printf("\n")` ends the line. -/
theorem newline_printed : Printed fp [print "\n" []] [0x0A] := by
  have h : Printed fp [print "\n" []] (literal "\n") := .one (.literal rfl)
  rw [newline_text] at h
  exact h

/-- Down to the model there are whole lines, whatever family and model are. -/
theorem intel_signature_printed :
    ∃ text, Printed fp (intel_signature cpuid) text ∧ Whole text := by
  unfold intel_signature
  dsimp only
  generalize (cpuid 1).eax = eax
  have hmodels : ∀ family, ((intel_models family).all fun c => is_plain c.2) = true := by
    intro family
    unfold intel_models
    split_ifs <;> rfl
  obtain ⟨type, htype⟩ := switch_printed fp (l := intel_types) rfl
    ((eax >>> 12) &&& 0x3)
  obtain ⟨family, hfamily⟩ := switch_printed fp (l := intel_families) rfl
    ((eax >>> 8) &&& 0xf)
  obtain ⟨model, hmodel⟩ := switch_printed fp (hmodels ((eax >>> 8) &&& 0xf))
    ((eax >>> 4) &&& 0xf)
  have hextended : ∃ text, Printed fp (if (eax >>> 8) &&& 0xf = 15 then
      [print "Extended family %d\n" [int_arg ((eax >>> 20) &&& 0xff)]] else []) text := by
    split_ifs
    · exact ⟨_, .one (number_prints "Extended family %d\n" "Extended family " "\n"
        rfl (masked_small _ _ (by decide)))⟩
    · exact ⟨_, .nil⟩
  obtain ⟨extended, hextended⟩ := hextended
  -- the calls one after the other
  have h₁ : Printed fp (print "Intel Specific Features:\n" []
      :: print "Type %d - " [int_arg ((eax >>> 12) &&& 0x3)]
      :: switch_print intel_types ((eax >>> 12) &&& 0x3)) _ :=
    .cons (.literal rfl) (.cons (number_prints "Type %d - " "Type " " - "
      rfl (masked_small _ _ (by decide))) htype)
  have h₂ : Printed fp (print "\n" [] :: print "Family %d - " [int_arg ((eax >>> 8) &&& 0xf)]
      :: switch_print intel_families ((eax >>> 8) &&& 0xf)) _ :=
    .cons (.literal rfl) (.cons (number_prints "Family %d - " "Family " " - "
      rfl (masked_small _ _ (by decide))) hfamily)
  have h₃ : Printed fp (print "\n" [] :: if (eax >>> 8) &&& 0xf = 15 then
      [print "Extended family %d\n" [int_arg ((eax >>> 20) &&& 0xff)]] else []) _ :=
    .cons (.literal rfl) hextended
  have h₄ : Printed fp (print "Model %d - " [int_arg ((eax >>> 4) &&& 0xf)]
      :: switch_print (intel_models ((eax >>> 8) &&& 0xf)) ((eax >>> 4) &&& 0xf)) _ :=
    .cons (number_prints "Model %d - " "Model " " - " rfl
      (masked_small _ _ (by decide))) hmodel
  exact ⟨_, (((h₁.append h₂).append h₃).append h₄).append (newline_printed fp), .inr ⟨_, rfl⟩⟩

/-- A text of a table on the rest of a line. -/
theorem entry_printed (s : String) :
    ∃ text, Printed fp [print "%s\n" [string_arg s]] (text ++ [0x0A]) := by
  have hformat : literal "%s\n" = [0x25, 0x73] ++ literal "\n" := rfl
  have hprints : Prints fp (literal "%s\n") [string_arg s]
      (before_nul (literal s ++ [0]) ++ literal "\n") := by
    rw [hformat]
    exact .string (List.mem_append_right _ (List.mem_singleton.mpr rfl))
      (.literal rfl)
  rw [newline_text] at hprints
  exact ⟨_, .one hprints⟩

/-- The brand is a line, with the name where there is one. -/
theorem intel_brand_printed :
    ∃ text, Printed fp (intel_brand cpuid junk) text ∧ Whole text
      ∧ ((cpuid 0x80000000).eax ≥ 0x80000004 →
          Line (literal "Brand: " ++ processor_name cpuid) text) := by
  unfold intel_brand
  dsimp only
  by_cases hmax : (cpuid 0x80000000).eax ≥ 0x80000004
  · have h₂ : (cpuid 0x80000000).eax ≥ 0x80000002 := UInt32.le_trans (by decide) hmax
    have h₃ : (cpuid 0x80000000).eax ≥ 0x80000003 := UInt32.le_trans (by decide) hmax
    rw [if_pos hmax, if_pos hmax, if_pos h₂, if_pos h₃]
    have hbrand : Printed fp [print "Brand: " []] (literal "Brand: ") :=
      .one (.literal rfl)
    have hall := ((((hbrand.append (printregs_printed (cpuid 0x80000002) junk)).append
      (printregs_printed (cpuid 0x80000003) junk)).append
      (printregs_printed (cpuid 0x80000004) junk)).append (newline_printed fp))
    refine ⟨_, hall, .inr ⟨_, rfl⟩, fun _ => ?_⟩
    unfold processor_name
    rw [List.append_assoc (literal "Brand: ") _ _, List.append_assoc (literal "Brand: ") _ _]
    exact Line.head
  -- the tables; a brand of 0 prints nothing
  · rw [if_neg hmax]
    by_cases hbrand : (cpuid 1).ebx &&& 0xff > 0
    · rw [if_pos hbrand]
      -- what stands behind the number
      have hentry : ∃ entry, Printed fp (if h : ((cpuid 1).ebx &&& 0xff).toNat < 0x18 then
          if (cpuid 1).eax = 0x000006B1 ∨ (cpuid 1).eax = 0x00000F13 then
            [print "%s\n" [string_arg Intel_Other[((cpuid 1).ebx &&& 0xff).toNat]]]
          else [print "%s\n" [string_arg Intel[((cpuid 1).ebx &&& 0xff).toNat]]]
          else [print "Reserved\n" []]) (entry ++ [0x0A]) := by
        split_ifs
        · exact entry_printed fp _
        · exact entry_printed fp _
        · have hreserved : literal "Reserved\n" = literal "Reserved" ++ [0x0A] := rfl
          have h : Printed fp [print "Reserved\n" []] (literal "Reserved\n") :=
            .one (.literal rfl)
          rw [hreserved] at h
          exact ⟨_, h⟩
      obtain ⟨entry, hentry⟩ := hentry
      have hnumber : Printed fp [print "Brand %d - " [int_arg ((cpuid 1).ebx &&& 0xff)]] _ :=
        .one (number_prints "Brand %d - " "Brand " " - " rfl
          (masked_small _ _ (by decide)))
      exact ⟨_, hnumber.append hentry, .inr ⟨_, (List.append_assoc _ _ _).symm⟩,
        fun h => absurd h hmax⟩
    · rw [if_neg hbrand]
      exact ⟨_, .nil, .inl rfl, fun h => absurd h hmax⟩

/-- `Stepping: %d Reserved: %d`. -/
def stepping_text (stepping reserved : UInt32) : List UInt8 :=
  literal "Stepping: " ++ (decimal stepping.toNat ++ (literal " Reserved: "
    ++ decimal reserved.toNat))

/-- The last line, for two numbers that are no negative `int`s. -/
theorem stepping_printed {stepping reserved : UInt32} (hs : stepping.toNat < 2 ^ 31)
    (hr : reserved.toNat < 2 ^ 31) :
    Printed fp [print "Stepping: %d Reserved: %d\n" [int_arg stepping, int_arg reserved]]
      (stepping_text stepping reserved ++ [0x0A]) := by
  have hformat : literal "Stepping: %d Reserved: %d\n" = literal "Stepping: "
      ++ ([0x25, 0x64] ++ (literal " Reserved: " ++ ([0x25, 0x64] ++ literal "\n"))) := rfl
  have htext : stepping_text stepping reserved ++ [0x0A] = literal "Stepping: "
      ++ (decimal stepping.toNat ++ (literal " Reserved: " ++ (decimal reserved.toNat
        ++ literal "\n"))) := by
    rw [newline_text, stepping_text]
    simp only [List.append_assoc]
  rw [htext]
  unfold print
  rw [hformat]
  exact .one (.plain (is_plain_char rfl) (.int hs
    (.plain (is_plain_char rfl) (.int hr (.literal rfl)))))

/-- **What `do_intel` prints**, for every answer of `cpuid`: there is a text at all, no line of it
    faults, the name stands on a line of its own where the extended leaves reach it, and the
    stepping is on the last line. -/
theorem do_intel_printed :
    ∃ text, Printed fp (do_intel cpuid junk) text
      ∧ ((cpuid 0x80000000).eax ≥ 0x80000004 →
          Line (literal "Brand: " ++ processor_name cpuid) text)
      ∧ Line (stepping_text ((cpuid 1).eax &&& 0xf) ((cpuid 1).eax >>> 14)) text := by
  obtain ⟨signature, hsignature, hwhole⟩ := intel_signature_printed fp cpuid
  obtain ⟨brand, hbrand, hwhole', hname⟩ := intel_brand_printed fp cpuid junk
  have hstepping := stepping_printed fp (masked_small (cpuid 1).eax 0xf (by decide))
    (shifted_small (cpuid 1).eax 14 (by decide) (by decide))
  refine ⟨_, (hsignature.append hbrand).append hstepping, fun hmax => ?_, ?_⟩
  · exact ((hname hmax).behind hwhole).before _
  · exact Line.head.behind (hwhole.append hwhole')

/-- Every branch of the two switches is a sound call, or none. -/
theorem amd_model_printed (family : UInt32) {model : UInt32} (hmodel : model.toNat < 2 ^ 31) :
    ∃ text, Printed fp (amd_model family model) text := by
  have hnumber : ∀ format front, splits format front "" = true →
      ∃ text, Printed fp [print format [int_arg model]] text :=
    fun format front h => ⟨_, .one (number_prints format front "" h hmodel)⟩
  have htext : ∀ s, is_plain s = true → ∃ text, Printed fp [print s []] text :=
    fun s h => ⟨_, .one (.literal h)⟩
  unfold amd_model
  split_ifs
  · exact hnumber "486 Model %d" "486 Model " rfl
  · exact hnumber "K6 Model %d" "K6 Model " rfl
  · exact htext "K6-2 Model 8" rfl
  · exact htext "K6-III Model 9" rfl
  · exact hnumber "K5/K6 Model %d" "K5/K6 Model " rfl
  · exact hnumber "Athlon Model %d" "Athlon Model " rfl
  · exact htext "Duron Model 3" rfl
  · exact htext "Athlon MP/Mobile Athlon Model 6" rfl
  · exact htext "Mobile Duron Model 7" rfl
  · exact hnumber "Duron/Athlon Model %d" "Duron/Athlon Model " rfl
  · exact ⟨_, .nil⟩

/-- Down to `"]\n"` there are whole lines. -/
theorem amd_signature_printed :
    ∃ text, Printed fp (amd_signature cpuid) text ∧ Whole text := by
  unfold amd_signature
  dsimp only
  generalize (cpuid 1).eax = eax
  obtain ⟨model, hmodel⟩ := amd_model_printed fp ((eax >>> 8) &&& 0xf)
    (masked_small (eax >>> 4) 0xf (by decide))
  have hformat : literal "Family: %d Model: %d [" = literal "Family: "
      ++ ([0x25, 0x64] ++ (literal " Model: " ++ ([0x25, 0x64] ++ literal " ["))) := rfl
  have hend : literal "]\n" = [0x5D] ++ [0x0A] := rfl
  have hfirst : Printed fp (print "AMD Specific Features:\n" [] :: print "Family: %d Model: %d ["
      [int_arg ((eax >>> 8) &&& 0xf), int_arg ((eax >>> 4) &&& 0xf)]
      :: amd_model ((eax >>> 8) &&& 0xf) ((eax >>> 4) &&& 0xf)) (literal "AMD Specific Features:\n"
        ++ ((literal "Family: " ++ (decimal ((eax >>> 8) &&& 0xf).toNat ++ (literal " Model: "
          ++ (decimal ((eax >>> 4) &&& 0xf).toNat ++ literal " [")))) ++ model)) := by
    refine .cons (.literal rfl) ?_
    unfold print
    rw [hformat]
    exact .cons (.plain (is_plain_char rfl) (.int (masked_small _ _ (by decide))
      (.plain (is_plain_char rfl) (.int (masked_small _ _ (by decide))
        (.literal rfl))))) hmodel
  have hlast : Printed fp [print "]\n" []] (literal "]\n") := .one (.literal rfl)
  rw [hend] at hlast
  exact ⟨_, hfirst.append hlast, .inr ⟨_, (List.append_assoc _ [0x5D] _).symm⟩⟩

/-- The name of the processor is on a line of its own. -/
theorem amd_name_printed :
    Printed fp (amd_name cpuid junk)
      (literal "Detected Processor Name: " ++ processor_name cpuid ++ [0x0A]) := by
  have hname : Printed fp [print "Detected Processor Name: " []]
      (literal "Detected Processor Name: ") := .one (.literal rfl)
  have hall := (((hname.append (printregs_printed (cpuid 0x80000002) junk)).append
    (printregs_printed (cpuid 0x80000003) junk)).append
    (printregs_printed (cpuid 0x80000004) junk)).append (newline_printed fp)
  rw [List.append_assoc (literal "Detected Processor Name: ") _ _,
      List.append_assoc (literal "Detected Processor Name: ") _ _] at hall
  exact hall

/-- **What `do_amd` prints**, for every answer of `cpuid`: a text in any case, the name where the
    extended leaves reach it, and the stepping unless the source has returned before that line,
    which it does when there are no extended leaves. -/
theorem do_amd_printed :
    ∃ text, Printed fp (do_amd cpuid junk) text
      ∧ ((cpuid 0x80000000).eax ≥ 0x80000002 →
          Line (literal "Detected Processor Name: " ++ processor_name cpuid) text)
      ∧ ((cpuid 0x80000000).eax ≠ 0 →
          Line (stepping_text ((cpuid 1).eax &&& 0xf) ((cpuid 1).eax >>> 12)) text) := by
  obtain ⟨signature, hsignature, hwhole⟩ := amd_signature_printed fp cpuid
  unfold do_amd
  dsimp only
  by_cases hzero : (cpuid 0x80000000).eax = 0
  -- the source returns here, and neither line is printed
  · rw [if_pos hzero]
    refine ⟨_, hsignature.append .nil, fun h => ?_, fun h => absurd hzero h⟩
    rw [hzero] at h
    exact absurd h (by decide)
  · rw [if_neg hzero]
    have hname : ∃ name, Printed fp (if (cpuid 0x80000000).eax ≥ 0x80000002 then
          amd_name cpuid junk else []) name ∧ Whole name
        ∧ ((cpuid 0x80000000).eax ≥ 0x80000002 →
            Line (literal "Detected Processor Name: " ++ processor_name cpuid) name) := by
      split_ifs with h
      · exact ⟨_, amd_name_printed fp cpuid junk, .inr ⟨_, rfl⟩, fun _ => Line.head⟩
      · exact ⟨_, .nil, .inl rfl, fun h' => absurd h' h⟩
    have hdiode : ∃ diode, Printed fp (if (cpuid 0x80000000).eax ≥ 0x80000007 then
          if (cpuid 0x80000007).edx &&& 1 ≠ 0 then
            [print "Temperature Sensing Diode Detected!\n" []]
          else []
        else []) diode ∧ Whole diode := by
      have htext : literal "Temperature Sensing Diode Detected!\n"
          = literal "Temperature Sensing Diode Detected!" ++ [0x0A] := rfl
      split_ifs
      · exact ⟨_, .one (.literal rfl), .inr ⟨_, htext⟩⟩
      · exact ⟨_, .nil, .inl rfl⟩
      · exact ⟨_, .nil, .inl rfl⟩
    obtain ⟨name, hname, hwhole', hline⟩ := hname
    obtain ⟨diode, hdiode, hwhole''⟩ := hdiode
    have hstepping := stepping_printed fp (masked_small (cpuid 1).eax 0xf (by decide))
      (shifted_small (cpuid 1).eax 12 (by decide) (by decide))
    refine ⟨_, hsignature.append ((hname.append hdiode).append hstepping), fun h => ?_, fun _ => ?_⟩
    · exact (((hline h).before _).before _).behind hwhole
    · exact (Line.head.behind (hwhole'.append hwhole'')).behind hwhole

/-- **Detection prints whatever the processor is.**  For every answer of `cpuid`, no call of
    `printf` faults and no table is left; the subscribers and the serial port stay as they are.  The
    text that the terminal is given has, for either vendor, the processor's name on a line of its
    own if `cpuid` has it.  It has a line with stepping and reserved bits for every Intel processor,
    and for an AMD processor unless `(cpuid 0x80000000).eax` is 0, where `do_amd` returns before
    that line.  Anything else is unknown. -/
theorem detect_cpu_run (ssfn_putc : Terminal → UInt32 → Terminal) (l : Layout)
    (k : Subscribers Logger × World Console) :
    ∃ errs text,
      runs (Event.run ssfn_putc fp l) k (detect_cpu cpuid junk) = .ok (errs, k.1, { k.2 with
          console := { k.2.console with
            terminal := terminal_write ssfn_putc k.2.console.terminal text } })
        ∧ ((cpuid 0).ebx = 0x756e6547 →
            ((cpuid 0x80000000).eax ≥ 0x80000004 →
              Line (literal "Brand: " ++ processor_name cpuid) text)
            ∧ Line (stepping_text ((cpuid 1).eax &&& 0xf) ((cpuid 1).eax >>> 14)) text)
        ∧ ((cpuid 0).ebx = 0x68747541 →
            ((cpuid 0x80000000).eax ≥ 0x80000002 →
              Line (literal "Detected Processor Name: " ++ processor_name cpuid) text)
            ∧ ((cpuid 0x80000000).eax ≠ 0 →
              Line (stepping_text ((cpuid 1).eax &&& 0xf) ((cpuid 1).eax >>> 12)) text))
        ∧ ((cpuid 0).ebx ≠ 0x756e6547 → (cpuid 0).ebx ≠ 0x68747541 →
            text = literal "Unknown x86 CPU Detected\n") := by
  unfold detect_cpu
  dsimp only
  by_cases hintel : (cpuid 0).ebx = 0x756e6547
  · rw [if_pos hintel]
    obtain ⟨text, hprinted, hlines⟩ := do_intel_printed fp cpuid junk
    obtain ⟨errs, hrun⟩ := hprinted.run ssfn_putc l k
    refine ⟨errs, text, hrun, fun _ => hlines, fun hamd => ?_, fun h => absurd hintel h⟩
    rw [hintel] at hamd
    exact absurd hamd (by decide)
  · rw [if_neg hintel]
    by_cases hamd : (cpuid 0).ebx = 0x68747541
    · rw [if_pos hamd]
      obtain ⟨text, hprinted, hlines⟩ := do_amd_printed fp cpuid junk
      obtain ⟨errs, hrun⟩ := hprinted.run ssfn_putc l k
      exact ⟨errs, text, hrun, fun h => absurd h hintel, fun _ => hlines,
        fun _ h => absurd hamd h⟩
    · rw [if_neg hamd]
      have hprinted : Printed fp [print "Unknown x86 CPU Detected\n" []]
          (literal "Unknown x86 CPU Detected\n") := .one (.literal rfl)
      obtain ⟨errs, hrun⟩ := hprinted.run ssfn_putc l k
      exact ⟨errs, _, hrun, fun h => absurd h hintel, fun h => absurd h hamd, fun _ _ => rfl⟩

end Lines

end Hippos.Cpu
