/-
  Hippos.Log.Ulog — the logger, `arch/x86_64/log/ulog.c`.

  A table of six subscribers, each with a threshold, and one static buffer for the message.  A
  message is formatted once and handed to every subscriber it is severe enough for.  Over any run of
  calls the table is a set of subscribers with their thresholds, and each subscriber hears exactly
  the messages that its threshold lets through while it is subscribed.

  The audience is the specification: a finite set of listeners and a level for each.  A table
  `Represents` an audience when no function has two slots, the functions in slots are the listeners,
  and each slot has its listener's level.  The search of `ulog_subscribe` keeps the last free slot
  it has seen while it looks for the function, so its loop is described by where it ends
  (`subscribe_loop_spec`), and the operations are then cases of that.  `NULL` is a value a caller
  can pass: it finds a free slot like any other and changes nothing the audience can see.

  Main results:
    * `subscribe_represents`, `unsubscribe_represents` — the table follows the set of listeners.
    * `mem_receivers`, `receivers_nodup` — a message is handed once to each who is subscribed to it.
    * `call_hears` — one call of the logger refines its meaning.
    * `ulog_run` — over any run each subscriber hears exactly its messages.
-/
import Hippos.Lib.Machine
import Hippos.Lib.Slots
import Hippos.Libc.Render

namespace Hippos.Log

open Hippos.Lib
open Hippos.Libc.Printf

variable {F V τ : Type}

/-! ## §1. The table. -/

def ULOG_TRACE_LEVEL : UInt32 := 100
def ULOG_DEBUG_LEVEL : UInt32 := 101
def ULOG_INFO_LEVEL : UInt32 := 102
def ULOG_WARNING_LEVEL : UInt32 := 103
def ULOG_ERROR_LEVEL : UInt32 := 104
def ULOG_CRITICAL_LEVEL : UInt32 := 105
def ULOG_ALWAYS_LEVEL : UInt32 := 106

/-- `ulog_err_t`. -/
inductive UlogErr where
  | ULOG_ERR_NONE
  | ULOG_ERR_SUBSCRIBERS_EXCEEDED
  | ULOG_ERR_NOT_SUBSCRIBED
  deriving Repr, DecidableEq

def ULOG_MAX_SUBSCRIBERS : ℕ := 6
def ULOG_MAX_MESSAGE_LENGTH : ℕ := 120

/-- `subscriber_t`: a function, or `NULL`, and its threshold. -/
structure Subscriber (F : Type) where
  fn : Option F
  threshold : UInt32
  deriving Repr, DecidableEq

/-- `s_subscribers`: six slots, however many of them are in use. -/
structure Subscribers (F : Type) where
  slots : List (Subscriber F)
  size : slots.length = ULOG_MAX_SUBSCRIBERS

/-- Assignments to the fields of `s_subscribers[i]`. -/
def Subscribers.modify (t : Subscribers F) (i : ℕ) (f : Subscriber F → Subscriber F) :
    Subscribers F := ⟨t.slots.modify i f, by rw [List.length_modify, t.size]⟩

/-- `memset(s_subscribers, 0, sizeof(s_subscribers))`. -/
def ulog_init : Subscribers F :=
  ⟨List.replicate ULOG_MAX_SUBSCRIBERS ⟨none, 0⟩, List.length_replicate⟩

/-- Where the loop of `ulog_subscribe` ends: at the slot of `fn`, or with the last free slot. -/
inductive Search where
  | subscribed (i : ℕ)
  | available (i : ℕ)
  | exceeded
  deriving Repr, DecidableEq

section Subscribing

variable [DecidableEq F]

/-- The slots from `i` on; an `available_slot` of -1 is none. -/
def subscribe_loop (fn : Option F) :
    List (Subscriber F) → (i : ℕ) → (available_slot : Option ℕ) → Search
  | [], _, none => .exceeded
  | [], _, some slot => .available slot
  | s :: slots, i, available_slot =>
    if s.fn = fn then .subscribed i
    else if s.fn = none then subscribe_loop fn slots (i + 1) (some i)
    else subscribe_loop fn slots (i + 1) available_slot

/-- A function that is subscribed gets another threshold; one that is not gets the last free
    slot. -/
def ulog_subscribe (t : Subscribers F) (fn : Option F) (threshold : UInt32) :
    UlogErr × Subscribers F :=
  match subscribe_loop fn t.slots 0 none with
  | .subscribed i => (.ULOG_ERR_NONE, t.modify i fun s => { s with threshold := threshold })
  | .available i => (.ULOG_ERR_NONE, t.modify i fun _ => ⟨fn, threshold⟩)
  | .exceeded => (.ULOG_ERR_SUBSCRIBERS_EXCEEDED, t)

/-- The first slot of `fn`. -/
def unsubscribe_loop (fn : Option F) : List (Subscriber F) → (i : ℕ) → Option ℕ
  | [], _ => none
  | s :: slots, i => if s.fn = fn then some i else unsubscribe_loop fn slots (i + 1)

/-- Only `fn` is cleared, so the slot is free and its threshold is left over. -/
def ulog_unsubscribe (t : Subscribers F) (fn : Option F) : UlogErr × Subscribers F :=
  match unsubscribe_loop fn t.slots 0 with
  | some i => (.ULOG_ERR_NONE, t.modify i fun s => { s with fn := none })
  | none => (.ULOG_ERR_NOT_SUBSCRIBED, t)

end Subscribing

/-! ## §2. Messages. -/

section Messages

variable (fp : FloatFormat V) (fct : τ → UInt8 → τ) (s_message : ℕ)
  (call : F → UInt32 → List UInt8 → World τ → Except Fault (World τ))

/-- The loop of `ulog_message`.  A subscriber is handed `s_message` as it is when it is called. -/
def notify_loop (severity : UInt32) : List (Subscriber F) → World τ → Except Fault (World τ)
  | [], w => .ok w
  | s :: slots, w =>
    match s.fn with
    | some fn =>
      if severity ≥ s.threshold then do
        let w ← call fn severity (w.memory.bytes s_message ULOG_MAX_MESSAGE_LENGTH) w
        notify_loop severity slots w
      else notify_loop severity slots w
    | none => notify_loop severity slots w

/-- The message is formatted once, into `s_message`, and then handed round. -/
def ulog_message (t : Subscribers F) (severity : UInt32) (fmt : List UInt8) (ap : List (VaArg V))
    (w : World τ) : Except Fault (World τ) := do
  let (_, w) ← snprintf_ fp fct s_message ULOG_MAX_MESSAGE_LENGTH fmt ap w
  notify_loop s_message call severity t.slots w

end Messages

/-- A call of the logger's interface. -/
inductive Call (F V : Type) where
  | init
  | subscribe (fn : Option F) (threshold : UInt32)
  | unsubscribe (fn : Option F)
  | message (severity : UInt32) (fmt : List UInt8) (ap : List (VaArg V))

section Calls

variable [DecidableEq F] (fp : FloatFormat V) (fct : τ → UInt8 → τ) (s_message : ℕ)
  (call : F → UInt32 → List UInt8 → World τ → Except Fault (World τ))

/-- One call; where the function returns nothing, the answer is `ULOG_ERR_NONE`. -/
def Call.run (k : Subscribers F × World τ) :
    Call F V → Except Fault (UlogErr × Subscribers F × World τ)
  | .init => .ok (.ULOG_ERR_NONE, ulog_init, k.2)
  | .subscribe fn threshold =>
    let (err, t) := ulog_subscribe k.1 fn threshold
    .ok (err, t, k.2)
  | .unsubscribe fn =>
    let (err, t) := ulog_unsubscribe k.1 fn
    .ok (err, t, k.2)
  | .message severity fmt ap => do
    let w ← ulog_message fp fct s_message call k.1 severity fmt ap k.2
    .ok (.ULOG_ERR_NONE, k.1, w)

end Calls

/-! ## §3. What it is for. -/

/-- The functions that are subscribed, and from which severity on.  The level of one that is not
    does not matter. -/
structure Audience (F : Type) where
  listeners : Finset F
  level : F → UInt32

/-- Nobody listens. -/
def Audience.nobody : Audience F := ⟨∅, fun _ => 0⟩

namespace Audience

variable [DecidableEq F]

/-- A function joins while there is room, or changes its threshold.  `NULL` joins nothing, but is
    told that it did while there is room. -/
def subscribe (a : Audience F) (fn : Option F) (threshold : UInt32) : UlogErr × Audience F :=
  match fn with
  | some f =>
    if f ∈ a.listeners ∨ a.listeners.card < ULOG_MAX_SUBSCRIBERS then
      (.ULOG_ERR_NONE, ⟨insert f a.listeners, Function.update a.level f threshold⟩)
    else (.ULOG_ERR_SUBSCRIBERS_EXCEEDED, a)
  | none =>
    (if a.listeners.card < ULOG_MAX_SUBSCRIBERS then .ULOG_ERR_NONE
      else .ULOG_ERR_SUBSCRIBERS_EXCEEDED, a)

/-- A function leaves. -/
def unsubscribe (a : Audience F) (fn : Option F) : UlogErr × Audience F :=
  match fn with
  | some f =>
    if f ∈ a.listeners then (.ULOG_ERR_NONE, { a with listeners := a.listeners.erase f })
    else (.ULOG_ERR_NOT_SUBSCRIBED, a)
  | none =>
    (if a.listeners.card < ULOG_MAX_SUBSCRIBERS then .ULOG_ERR_NONE
      else .ULOG_ERR_NOT_SUBSCRIBED, a)

end Audience

/-- Who hears a message of some severity. -/
def Audience.hears (a : Audience F) (severity : UInt32) (f : F) : Prop :=
  f ∈ a.listeners ∧ a.level f ≤ severity

instance [DecidableEq F] (a : Audience F) (severity : UInt32) (f : F) :
    Decidable (a.hears severity f) := inferInstanceAs (Decidable (_ ∧ _))

/-- The string a text leaves in `s_message`. -/
def message_of (text : List UInt8) : List UInt8 :=
  before_nul (text.take (ULOG_MAX_MESSAGE_LENGTH - 1))

/-- **The table shows the audience**: `Shows` for the key and the value of a slot. -/
def Represents (t : Subscribers F) (a : Audience F) : Prop :=
  Shows Subscriber.fn Subscriber.threshold t.slots a.listeners a.level

/-! ## §4. The table shows its audience. -/

/-- An empty table shows nobody. -/
theorem init_represents : Represents (ulog_init : Subscribers F) Audience.nobody where
  distinct := by
    show (keys Subscriber.fn (List.replicate _ _)).Nodup
    exact List.nodup_nil
  held f := by
    show f ∈ (∅ : Finset F) ↔ f ∈ ([] : List F)
    exact ⟨fun h => absurd h (Finset.notMem_empty f), fun h => absurd h List.not_mem_nil⟩
  tells s hs f hf := by
    rw [List.eq_of_mem_replicate hs] at hf
    exact absurd hf (Option.some_ne_none f).symm

section Table

variable {t : Subscribers F} {a : Audience F}

/-- Assignments to a slot that was found: the slots before it and behind it stay. -/
theorem modify_slots {p : Subscriber F → Prop} {j : ℕ} (h : SlotAt p t.slots 0 j)
    (f : Subscriber F → Subscriber F) :
    ∃ l s r, t.slots = l ++ s :: r ∧ (t.modify j f).slots = l ++ f s :: r ∧ p s := by
  obtain ⟨l, s, r, hsplit, hj, hs⟩ := h
  refine ⟨l, s, r, hsplit, ?_, hs⟩
  show t.slots.modify j f = _
  rw [hsplit, hj, Nat.zero_add, modify_append_cons]

/-- A function is subscribed if it has a slot. -/
theorem listener_iff (h : Represents t a) (f : F) :
    f ∈ a.listeners ↔ ∃ s ∈ t.slots, s.fn = some f := by
  rw [h.held, mem_keys]

variable [DecidableEq F]

/-- **What the loop of `ulog_subscribe` finds.**  By induction on the slots that are left.  The free
    slot it reports is either one of these or the one it was given, and which of them it is does not
    matter to the audience. -/
theorem subscribe_loop_spec (fn : Option F) (slots : List (Subscriber F)) :
    ∀ (i : ℕ) (available_slot : Option ℕ),
      match subscribe_loop fn slots i available_slot with
      | .subscribed j => SlotAt (fun s => s.fn = fn) slots i j
      | .available j => (∀ s ∈ slots, s.fn ≠ fn)
          ∧ (SlotAt (fun s => s.fn = none) slots i j ∨ available_slot = some j)
      | .exceeded => (∀ s ∈ slots, s.fn ≠ fn ∧ s.fn ≠ none) ∧ available_slot = none := by
  induction slots with
  | nil =>
    intro i available_slot
    cases available_slot with
    | none => exact ⟨fun s hs => absurd hs List.not_mem_nil, rfl⟩
    | some slot => exact ⟨fun s hs => absurd hs List.not_mem_nil, .inr rfl⟩
  | cons s slots ih =>
    intro i available_slot
    unfold subscribe_loop
    by_cases hfn : s.fn = fn
    · rw [if_pos hfn]
      exact SlotAt.here (fun s => s.fn = fn) hfn slots i
    · rw [if_neg hfn]
      by_cases hfree : s.fn = none
      · -- a free slot, until a later one is found
        rw [if_pos hfree]
        specialize ih (i + 1) (some i)
        cases hsearch : subscribe_loop fn slots (i + 1) (some i) with
        | subscribed j =>
          rw [hsearch] at ih
          exact SlotAt.later ih s
        | available j =>
          rw [hsearch] at ih
          obtain ⟨hnot, hplace | hj⟩ := ih
          · exact ⟨List.forall_mem_cons.mpr ⟨hfn, hnot⟩, .inl (hplace.later s)⟩
          · obtain rfl := Option.some.inj hj
            exact ⟨List.forall_mem_cons.mpr ⟨hfn, hnot⟩,
              .inl (SlotAt.here (fun s => s.fn = none) hfree slots i)⟩
        | exceeded =>
          rw [hsearch] at ih
          exact absurd ih.2 (Option.some_ne_none i)
      · rw [if_neg hfree]
        -- another function's slot: nothing is learnt from it
        specialize ih (i + 1) available_slot
        cases hsearch : subscribe_loop fn slots (i + 1) available_slot with
        | subscribed j =>
          rw [hsearch] at ih
          exact SlotAt.later ih s
        | available j =>
          rw [hsearch] at ih
          obtain ⟨hnot, hplace⟩ := ih
          exact ⟨List.forall_mem_cons.mpr ⟨hfn, hnot⟩, hplace.imp_left fun h => h.later s⟩
        | exceeded =>
          rw [hsearch] at ih
          exact ⟨List.forall_mem_cons.mpr ⟨⟨hfn, hfree⟩, ih.1⟩, ih.2⟩

/-- What the loop of `ulog_unsubscribe` finds: the slot of `fn`, or that there is none. -/
theorem unsubscribe_loop_spec (fn : Option F) (slots : List (Subscriber F)) :
    ∀ i : ℕ,
      match unsubscribe_loop fn slots i with
      | some j => SlotAt (fun s => s.fn = fn) slots i j
      | none => ∀ s ∈ slots, s.fn ≠ fn := by
  induction slots with
  | nil => exact fun i s hs => absurd hs List.not_mem_nil
  | cons s slots ih =>
    intro i
    unfold unsubscribe_loop
    by_cases hfn : s.fn = fn
    · rw [if_pos hfn]
      exact SlotAt.here (fun s => s.fn = fn) hfn slots i
    · rw [if_neg hfn]
      specialize ih (i + 1)
      cases hsearch : unsubscribe_loop fn slots (i + 1) with
      | some j =>
        rw [hsearch] at ih
        exact SlotAt.later ih s
      | none =>
        rw [hsearch] at ih
        exact List.forall_mem_cons.mpr ⟨hfn, ih⟩

/-- There is a free slot while there is room: six slots are taken by six different functions, so the
    listeners can be counted by the slots. -/
theorem room_iff (h : Represents t a) :
    a.listeners.card < ULOG_MAX_SUBSCRIBERS ↔ ∃ s ∈ t.slots, s.fn = none := by
  have hle := keys_length_le Subscriber.fn t.slots
  have hfull := keys_length_eq_iff Subscriber.fn t.slots
  rw [t.size] at hle hfull
  rw [h.card, lt_iff_le_and_ne, ne_eq, hfull]
  simp only [hle, true_and, not_forall, ne_eq, not_not, exists_prop]

/-- **`ulog_subscribe` adds a listener or changes its level**, and answers what the set of listeners
    answers.  The cases are those of the search: its own slot, a free one, or none; `NULL` finds a
    free slot in the first of them. -/
theorem subscribe_represents (h : Represents t a) (fn : Option F) (threshold : UInt32) :
    (ulog_subscribe t fn threshold).1 = (a.subscribe fn threshold).1
      ∧ Represents (ulog_subscribe t fn threshold).2 (a.subscribe fn threshold).2 := by
  have hspec := subscribe_loop_spec fn t.slots 0 none
  have hroom := room_iff h
  unfold ulog_subscribe
  cases hsearch : subscribe_loop fn t.slots 0 none with
  | subscribed j =>
    rw [hsearch] at hspec
    obtain ⟨l, s, r, hsplit, hmodify, hs⟩ :=
      modify_slots hspec fun s => { s with threshold := threshold }
    have hmem : s ∈ t.slots := by
      rw [hsplit]
      exact List.mem_append_right l List.mem_cons_self
    unfold Represents at h ⊢
    cases fn with
    | some f =>
      have hin : f ∈ a.listeners := (listener_iff h f).mpr ⟨s, hmem, hs⟩
      rw [Audience.subscribe, if_pos (.inl hin)]
      rw [hsplit] at h
      dsimp only
      rw [hmodify]
      exact ⟨rfl, h.rewrite hs hs⟩
    | none =>
      -- `NULL` is found in a free slot, which stays free
      rw [Audience.subscribe, if_pos (hroom.mpr ⟨s, hmem, hs⟩)]
      rw [hsplit] at h
      dsimp only
      rw [hmodify]
      exact ⟨rfl, h.blank hs hs⟩
  | available j =>
    rw [hsearch] at hspec
    obtain ⟨hnot, hplace | hj⟩ := hspec
    · obtain ⟨l, s, r, hsplit, hmodify, hs⟩ :=
        modify_slots hplace fun _ => ⟨fn, threshold⟩
      have hmem : s ∈ t.slots := by
        rw [hsplit]
        exact List.mem_append_right l List.mem_cons_self
      unfold Represents at h ⊢
      cases fn with
      | some f =>
        have hout : f ∉ a.listeners := by
          rw [listener_iff h f]
          rintro ⟨s', hs', hf⟩
          exact hnot s' hs' hf
        rw [Audience.subscribe, if_pos (.inr (hroom.mpr ⟨s, hmem, hs⟩))]
        rw [hsplit] at h
        dsimp only
        rw [hmodify]
        exact ⟨rfl, h.fill hs hout rfl⟩
      | none => exact absurd hs (hnot s hmem)
    · exact absurd hj (Option.some_ne_none j).symm
  | exceeded =>
    rw [hsearch] at hspec
    obtain ⟨hnot, -⟩ := hspec
    -- no slot is free, so there is no room
    have hfull : ¬ a.listeners.card < ULOG_MAX_SUBSCRIBERS := by
      rw [hroom]
      rintro ⟨s, hs, hfree⟩
      exact (hnot s hs).2 hfree
    cases fn with
    | some f =>
      have hout : f ∉ a.listeners := by
        rw [listener_iff h f]
        rintro ⟨s, hs, hf⟩
        exact (hnot s hs).1 hf
      rw [Audience.subscribe, if_neg (not_or.mpr ⟨hout, hfull⟩)]
      exact ⟨rfl, h⟩
    | none =>
      rw [Audience.subscribe, if_neg hfull]
      exact ⟨rfl, h⟩

/-- **`ulog_unsubscribe` removes one**, and answers what the set of listeners answers.  For `NULL`
    it finds a free slot, if there is one, and frees it again. -/
theorem unsubscribe_represents (h : Represents t a) (fn : Option F) :
    (ulog_unsubscribe t fn).1 = (a.unsubscribe fn).1
      ∧ Represents (ulog_unsubscribe t fn).2 (a.unsubscribe fn).2 := by
  have hspec := unsubscribe_loop_spec fn t.slots 0
  have hroom := room_iff h
  unfold ulog_unsubscribe
  cases hsearch : unsubscribe_loop fn t.slots 0 with
  | some j =>
    rw [hsearch] at hspec
    obtain ⟨l, s, r, hsplit, hmodify, hs⟩ := modify_slots hspec fun s => { s with fn := none }
    have hmem : s ∈ t.slots := by
      rw [hsplit]
      exact List.mem_append_right l List.mem_cons_self
    unfold Represents at h ⊢
    cases fn with
    | some f =>
      rw [Audience.unsubscribe, if_pos ((listener_iff h f).mpr ⟨s, hmem, hs⟩)]
      rw [hsplit] at h
      dsimp only
      rw [hmodify]
      exact ⟨rfl, h.free hs rfl⟩
    | none =>
      rw [Audience.unsubscribe, if_pos (hroom.mpr ⟨s, hmem, hs⟩)]
      rw [hsplit] at h
      dsimp only
      rw [hmodify]
      exact ⟨rfl, h.blank hs rfl⟩
  | none =>
    rw [hsearch] at hspec
    have hnot : ∀ s ∈ t.slots, s.fn ≠ fn := hspec
    cases fn with
    | some f =>
      have hout : f ∉ a.listeners := by
        rw [listener_iff h f]
        rintro ⟨s, hs, hf⟩
        exact hnot s hs hf
      rw [Audience.unsubscribe, if_neg hout]
      exact ⟨rfl, h⟩
    | none =>
      have hfull : ¬ a.listeners.card < ULOG_MAX_SUBSCRIBERS := by
        rw [hroom]
        rintro ⟨s, hs, hfree⟩
        exact hnot s hs hfree
      rw [Audience.unsubscribe, if_neg hfull]
      exact ⟨rfl, h⟩

end Table

/-! ## §5. Who hears what. -/

/-- The functions a message is handed to, in the order of their slots. -/
def receivers (t : Subscribers F) (severity : UInt32) : List F :=
  t.slots.filterMap fun s => if severity ≥ s.threshold then s.fn else none

/-- The loop of `ulog_message` calls the receivers one after the other, and each is handed the
    buffer as it then is. -/
theorem notify_loop_eq (s_message : ℕ)
    (call : F → UInt32 → List UInt8 → World τ → Except Fault (World τ)) (severity : UInt32)
    (slots : List (Subscriber F)) :
    ∀ w, notify_loop s_message call severity slots w
      = (slots.filterMap fun s => if severity ≥ s.threshold then s.fn else none).foldlM
          (fun w fn => call fn severity (w.memory.bytes s_message ULOG_MAX_MESSAGE_LENGTH) w)
          w := by
  induction slots with
  | nil => intro w; rfl
  | cons s slots ih =>
    intro w
    unfold notify_loop
    rw [List.filterMap_cons]
    cases s.fn with
    | none =>
      rw [ite_self]
      exact ih w
    | some fn =>
      dsimp only
      split_ifs
      · rw [List.foldlM_cons]
        congr 1
        funext w
        exact ih w
      · exact ih w

/-- **A message is handed to those who are subscribed to it**: a slot's function is called when the
    slot's threshold lets the message through, and the table tells the audience's levels. -/
theorem mem_receivers {t : Subscribers F} {a : Audience F} (h : Represents t a)
    (severity : UInt32) (f : F) : f ∈ receivers t severity ↔ a.hears severity f := by
  rw [receivers, List.mem_filterMap, Audience.hears, listener_iff h]
  constructor
  · rintro ⟨s, hs, hf⟩
    split_ifs at hf with hlevel
    exact ⟨⟨s, hs, hf⟩, (h.tells s hs f hf) ▸ hlevel⟩
  · rintro ⟨⟨s, hs, hf⟩, hlevel⟩
    refine ⟨s, hs, ?_⟩
    rw [← h.tells s hs f hf] at hlevel
    rw [if_pos hlevel, hf]

/-- To each of them once: the receivers are a part of the functions in slots, which are all
    different.  Without it a function could hear a message twice. -/
theorem receivers_nodup {t : Subscribers F} {a : Audience F} (h : Represents t a)
    (severity : UInt32) : (receivers t severity).Nodup := by
  refine List.Nodup.sublist ?_ h.distinct
  unfold receivers keys
  generalize t.slots = slots
  induction slots with
  | nil => exact List.Sublist.slnil
  | cons s slots ih =>
    rw [List.filterMap_cons, List.filterMap_cons]
    cases s.fn with
    | none =>
      rw [ite_self]
      exact ih
    | some fn =>
      dsimp only
      split_ifs
      · exact ih.cons_cons fn
      · exact ih.cons fn

/-- What was handed to whom, the oldest first. -/
abbrev Record (F : Type) := List (F × UInt32 × List UInt8)

/-- A subscriber that writes down what it is handed. -/
def record (fn : F) (severity : UInt32) (msg : List UInt8) (w : World (Record F)) :
    Except Fault (World (Record F)) :=
  .ok { w with console := w.console ++ [(fn, severity, before_nul msg)] }

/-- An audience, and what each function has heard. -/
structure Hearing (F : Type) where
  audience : Audience F
  heard : F → List (UInt32 × List UInt8)

/-- Those who are subscribed to it hear the message, and the others hear nothing. -/
def Hearing.hear [DecidableEq F] (m : Hearing F) (severity : UInt32) (text : List UInt8) :
    Hearing F :=
  { m with heard := fun f =>
      if m.audience.hears severity f then m.heard f ++ [(severity, message_of text)]
      else m.heard f }

/-- What a call means: the audience changes, or the text of a message is heard. -/
def Call.meaning [DecidableEq F] (fp : FloatFormat V) (m : Hearing F) :
    Call F V → Except Fault (UlogErr × Hearing F)
  | .init => .ok (.ULOG_ERR_NONE, { m with audience := .nobody })
  | .subscribe fn threshold =>
    let (err, a) := m.audience.subscribe fn threshold
    .ok (err, { m with audience := a })
  | .unsubscribe fn =>
    let (err, a) := m.audience.unsubscribe fn
    .ok (err, { m with audience := a })
  | .message severity fmt ap => do
    let text ← render fp fmt ap
    .ok (.ULOG_ERR_NONE, m.hear severity text)

/-- The same message is recorded for each of them: recording leaves memory as it is. -/
theorem record_all (s_message : ℕ) (severity : UInt32) (fs : List F) :
    ∀ w : World (Record F),
      fs.foldlM (fun w fn =>
          record fn severity (w.memory.bytes s_message ULOG_MAX_MESSAGE_LENGTH) w) w
        = (.ok { w with console := w.console ++ fs.map fun f => (f, severity,
            before_nul (w.memory.bytes s_message ULOG_MAX_MESSAGE_LENGTH)) } : Except Fault _) := by
  induction fs with
  | nil =>
    intro w
    rw [List.map_nil, List.append_nil]
    rfl
  | cons f fs ih =>
    intro w
    rw [List.foldlM_cons, record, ok_bind, ih]
    dsimp only
    rw [List.map_cons, List.append_assoc]
    rfl

section Hearing

variable [DecidableEq F]

/-- What one function was handed. -/
def handed_to (f : F) (r : Record F) : List (UInt32 × List UInt8) :=
  (r.filter fun x => x.1 = f).map fun x => x.2

/-- **The table shows the audience, and the record what it heard.** -/
def Hears (k : Subscribers F × World (Record F)) (m : Hearing F) : Prop :=
  Represents k.1 m.audience ∧ ∀ f, m.heard f = handed_to f k.2.console

/-- What one function was handed, part by part. -/
theorem handed_to_append (f : F) (r r' : Record F) :
    handed_to f (r ++ r') = handed_to f r ++ handed_to f r' := by
  rw [handed_to, List.filter_append, List.map_append]
  rfl

/-- The same for all, once for each: a function that is among them was handed it, and no more. -/
theorem handed_to_all {fs : List F} (hnodup : fs.Nodup) (x : UInt32 × List UInt8) (f : F) :
    handed_to f (fs.map fun g => (g, x)) = if f ∈ fs then [x] else [] := by
  induction fs with
  | nil => rfl
  | cons g fs ih =>
    obtain ⟨hnot, hnodup⟩ := List.nodup_cons.mp hnodup
    have hcons : (g :: fs).map (fun g => (g, x)) = [(g, x)] ++ fs.map fun g => (g, x) := rfl
    rw [hcons, handed_to_append, ih hnodup]
    by_cases hg : g = f
    · subst hg
      rw [if_neg hnot, if_pos List.mem_cons_self, List.append_nil]
      simp [handed_to]
    · have hmem : f ∈ g :: fs ↔ f ∈ fs := by
        rw [List.mem_cons]
        exact or_iff_right fun h => hg h.symm
      rw [if_congr hmem rfl rfl]
      simp [handed_to, hg]

/-- **One call of the logger.**  Answers and faults agree, and so does what everybody has heard.
    Only a message does something to the record, and every receiver finds the same text in the
    buffer. -/
theorem call_hears (fp : FloatFormat V) (fct : Record F → UInt8 → Record F) {s_message : ℕ}
    (hmessage : s_message ≠ 0) (k : Subscribers F × World (Record F)) (m : Hearing F)
    (c : Call F V) (h : Hears k m) :
    Matches (Answers Hears) (c.run fp fct s_message record k) (c.meaning fp m) := by
  obtain ⟨hrep, hheard⟩ := h
  cases c with
  | init => exact ⟨rfl, init_represents, hheard⟩
  | subscribe fn threshold =>
    obtain ⟨herr, htable⟩ := subscribe_represents hrep fn threshold
    exact ⟨herr, htable, hheard⟩
  | unsubscribe fn =>
    obtain ⟨herr, htable⟩ := unsubscribe_represents hrep fn
    exact ⟨herr, htable, hheard⟩
  | message severity fmt ap =>
    unfold Call.run Call.meaning ulog_message
    dsimp only
    rw [snprintf_eq fp fct fmt ap k.2 hmessage (by decide : 0 < ULOG_MAX_MESSAGE_LENGTH)
        (by decide)]
    cases render fp fmt ap with
    | error e => exact rfl
    | ok text =>
      -- every receiver finds the text in the buffer
      obtain ⟨rest, hbytes⟩ := bytes_filled k.2.memory s_message
        (by decide : 0 < ULOG_MAX_MESSAGE_LENGTH) text
      show Matches _ (notify_loop s_message record severity k.1.slots _ >>= _) _
      rw [notify_loop_eq, record_all]
      refine ⟨rfl, hrep, ?_⟩
      intro f
      dsimp only
      rw [hbytes, before_nul_append_nul, handed_to_append]
      show (m.hear severity text).heard f = _ ++ handed_to f ((receivers k.1 severity).map _)
      rw [handed_to_all (receivers_nodup hrep severity), ← hheard f]
      unfold Hearing.hear
      dsimp only
      rw [if_congr (mem_receivers hrep severity f) rfl rfl]
      split_ifs
      · rfl
      · rw [List.append_nil]

/-- **Every subscriber hears exactly its messages.**  Whatever is called, in whatever order: the
    answers are those of a set of at most six listeners, and each function has been handed, once
    and in order, the messages that were as severe as its threshold while it was subscribed. -/
theorem ulog_run (fp : FloatFormat V) (fct : Record F → UInt8 → Record F) {s_message : ℕ}
    (hmessage : s_message ≠ 0) (m : Memory) (calls : List (Call F V)) :
    Matches (Answers Hears)
      (runs (Call.run fp fct s_message record) (ulog_init, ⟨m, []⟩) calls)
      (runs (Call.meaning fp) ⟨.nobody, fun _ => []⟩ calls) :=
  runs_refine (call_hears fp fct hmessage) calls _ _ ⟨init_represents, fun _ => rfl⟩

/-- A subscriber from `INFO` on hears an error and no debug message. -/
theorem ulog_run_error :
    ∃ k, runs (Call.run (⟨fun _ _ _ _ => [], fun _ _ _ _ => []⟩ : FloatFormat Unit)
        (fun r _ => r) 0x1000 record) (ulog_init, ⟨⟨fun _ => 0, []⟩, []⟩)
        [.subscribe (some true) ULOG_INFO_LEVEL, .message ULOG_ERROR_LEVEL [0x68, 0x69, 0] [],
          .message ULOG_DEBUG_LEVEL [0x68, 0] []]
        = .ok ([.ULOG_ERR_NONE, .ULOG_ERR_NONE, .ULOG_ERR_NONE], k)
      ∧ handed_to true k.2.console = [(ULOG_ERROR_LEVEL, [0x68, 0x69])] := by
  have h := ulog_run (⟨fun _ _ _ _ => [], fun _ _ _ _ => []⟩ : FloatFormat Unit)
    (fun r _ => r) (by decide : 0x1000 ≠ 0) ⟨fun _ => 0, []⟩
    [.subscribe (some true) ULOG_INFO_LEVEL, .message ULOG_ERROR_LEVEL [0x68, 0x69, 0] [],
      .message ULOG_DEBUG_LEVEL [0x68, 0] []]
  obtain ⟨⟨codes, k⟩, hrun, hcodes, -, hheard⟩ := Matches.value h
  refine ⟨k, ?_, (hheard true).symm⟩
  rw [hrun, show codes = [.ULOG_ERR_NONE, .ULOG_ERR_NONE, .ULOG_ERR_NONE] from hcodes]

end Hearing

end Hippos.Log
