/-
  Hippos.Lib.SlotStack — a stack of 64-bit slots that grows down in memory.

  The stack pointer may be anything and addresses wrap.  Counted from the pointer, the slots of a
  stack that a list of values was pushed on are that list backwards, so a layout question about
  memory becomes one about a list.  A stack of less than 2^60 slots does not come round to itself.

  Main results:
    * `slot_push_zero`, `slot_push_succ` — the slots after one push.
    * `pushAll_sp` — how far the pointer has moved.
    * `slot_pushAll` — the slots of a pushed list.
-/
import Mathlib.Data.List.Induction
import Mathlib.Algebra.GroupWithZero.Nat

namespace Hippos.Lib

/-- Memory by slot address, and the stack pointer. -/
structure SlotStack where
  mem : UInt64 → UInt64
  sp : UInt64

namespace SlotStack

/-- The `k`-th slot above the stack pointer. -/
def slot (s : SlotStack) (k : ℕ) : UInt64 := s.mem (s.sp + 8 * UInt64.ofNat k)

/-- Decrement the pointer and store. -/
def push (s : SlotStack) (v : UInt64) : SlotStack where
  mem := fun a => if a = s.sp - 8 then v else s.mem a
  sp := s.sp - 8

/-- Push a list, its head first. -/
def pushAll (s : SlotStack) (vs : List UInt64) : SlotStack := vs.foldl push s

@[simp] theorem push_sp (s : SlotStack) (v : UInt64) : (s.push v).sp = s.sp - 8 := rfl

@[simp] theorem pushAll_nil (s : SlotStack) : s.pushAll [] = s := rfl

@[simp] theorem pushAll_cons (s : SlotStack) (v : UInt64) (vs : List UInt64) :
    s.pushAll (v :: vs) = (s.push v).pushAll vs := rfl

/-- Two lists are pushed one after the other. -/
theorem pushAll_append (s : SlotStack) (vs ws : List UInt64) :
    s.pushAll (vs ++ ws) = (s.pushAll vs).pushAll ws := List.foldl_append

/-- The value pushed is slot 0. -/
theorem slot_push_zero (s : SlotStack) (v : UInt64) : (s.push v).slot 0 = v := by
  have haddr : s.sp - 8 + 8 * UInt64.ofNat 0 = s.sp - 8 := by
    rw [show (8 : UInt64) * UInt64.ofNat 0 = 0 from rfl, UInt64.add_zero]
  rw [slot, push_sp, haddr]
  exact if_pos rfl

/-- Pushing moves every older slot up by one, and overwrites none that counts: the slots that do are
    fewer than the address space has room for, so the new one is not among them. -/
theorem slot_push_succ (s : SlotStack) (v : UInt64) {k : ℕ} (hk : k < 2 ^ 60) :
    (s.push v).slot (k + 1) = s.slot k := by
  have hsp := s.sp.toNat_lt
  have haddr : s.sp - 8 + 8 * UInt64.ofNat (k + 1) = s.sp + 8 * UInt64.ofNat k := by
    rw [← UInt64.toNat_inj, UInt64.toNat_add, UInt64.toNat_add, UInt64.toNat_sub,
        UInt64.toNat_mul, UInt64.toNat_mul, UInt64.toNat_ofNat', UInt64.toNat_ofNat']
    simp only [UInt64.reduceToNat]
    omega
  -- the address that is stored to is not the slot's
  have hne : s.sp + 8 * UInt64.ofNat k ≠ s.sp - 8 := by
    rw [ne_eq, ← UInt64.toNat_inj, UInt64.toNat_add, UInt64.toNat_sub, UInt64.toNat_mul,
        UInt64.toNat_ofNat']
    simp only [UInt64.reduceToNat]
    omega
  rw [slot, push_sp, haddr]
  exact if_neg hne

/-- Each push costs eight bytes. -/
theorem pushAll_sp (vs : List UInt64) :
    ∀ s : SlotStack, (s.pushAll vs).sp = s.sp - 8 * UInt64.ofNat vs.length := by
  induction vs with
  | nil =>
    intro s
    rw [pushAll_nil, List.length_nil, show (8 : UInt64) * UInt64.ofNat 0 = 0 from rfl,
        UInt64.sub_zero]
  | cons v vs ih =>
    intro s
    rw [pushAll_cons, ih, push_sp, List.length_cons, UInt64.ofNat_add, UInt64.mul_add,
        show (8 : UInt64) * UInt64.ofNat 1 = 8 from rfl]
    grind

/-- **The slots of a pushed list are the list backwards.**  By induction on the list: what is pushed
    later lies below, and what was there has moved up by as many slots. -/
theorem slot_pushAll (s : SlotStack) (vs : List UInt64) :
    ∀ (k : ℕ) (v : UInt64), k < 2 ^ 60 → vs.reverse[k]? = some v → (s.pushAll vs).slot k = v := by
  induction vs using List.reverseRecOn with
  | nil => intro k v _ h; simp at h
  | append_singleton vs w ih =>
    intro k v hk h
    rw [pushAll_append, pushAll_cons, pushAll_nil]
    rw [List.reverse_append, List.reverse_singleton, List.singleton_append] at h
    -- the last value pushed is slot 0
    cases k with
    | zero =>
      rw [slot_push_zero]
      exact Option.some.inj h
    | succ k =>
      rw [slot_push_succ _ _ (by omega)]
      exact ih k v (by omega) h

end SlotStack

end Hippos.Lib
