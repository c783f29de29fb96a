import FrameworkXC32.Lib.Word
import Mathlib.Logic.Function.Basic

/-!
# Interrupt controller

The functions of `hal_irq.h` on the enable, flag and priority registers, each of which is an array
of 32-bit registers.
-/

namespace FrameworkXC32
open Machine

structure Irq where
  iec : ℕ → Word
  ifs : ℕ → Word
  ipc : ℕ → Word

namespace Irq

/-- `1 << (source & 0x1f)` -/
def bit (source : ℕ) : Word := (1 : Word) <<< (source % 32)

def enable (source : ℕ) (r : Irq) : Irq :=
  { r with iec := Function.update r.iec (source / 32) (regSet (r.iec (source / 32)) (bit source)) }

def disable (source : ℕ) (r : Irq) : Irq :=
  { r with iec := Function.update r.iec (source / 32) (regClr (r.iec (source / 32)) (bit source)) }

def isEnabled (source : ℕ) (r : Irq) : Bool := (r.iec (source / 32) >>> (source % 32)) &&& 1 != 0

/-- `IRQ_Get` -/
def get (source : ℕ) (r : Irq) : Bool := (r.ifs (source / 32) >>> (source % 32)) &&& 1 != 0

def clear (source : ℕ) (r : Irq) : Irq :=
  { r with ifs := Function.update r.ifs (source / 32) (regClr (r.ifs (source / 32)) (bit source)) }

/-- The hardware raises a flag. -/
def raise (source : ℕ) (r : Irq) : Irq :=
  { r with ifs := Function.update r.ifs (source / 32) (regSet (r.ifs (source / 32)) (bit source)) }

/-- `__irq_set` -/
def setField (lsb msb : ℕ) (value reg : Word) : Word :=
  let mask : Word := ((1 : Word) <<< (msb - lsb + 1)) - 1
  (reg &&& ~~~(mask <<< lsb)) ||| ((value &&& mask) <<< lsb)

def priority (source : ℕ) (pri sub : Byte) (r : Irq) : Irq :=
  let reg := r.ipc (source / 4)
  let reg := setField (source * 8 % 32 + 2) (source * 8 % 32 + 4) ((pri &&& 7).setWidth 32) reg
  let reg := setField (source * 8 % 32 + 0) (source * 8 % 32 + 1) ((sub &&& 7).setWidth 32) reg
  { r with ipc := Function.update r.ipc (source / 4) reg }

lemma getLsbD_bit (source i : ℕ) : (bit source).getLsbD i = decide (i = source % 32) :=
  getLsbD_one_shift (Nat.mod_lt source (by decide)) i

lemma getLsbD_update (regs : ℕ → Word) (source i : ℕ) (value : Bool) (f : Word → Word)
    (hf : ∀ r j, (f r).getLsbD j = if j = source % 32 then value else r.getLsbD j) :
    (Function.update regs (source / 32) (f (regs (source / 32))) (i / 32)).getLsbD (i % 32) =
      if i = source then value else (regs (i / 32)).getLsbD (i % 32) := by
  by_cases hword : i / 32 = source / 32
  · rw [hword, Function.update_self, hf]
    by_cases hbit : i % 32 = source % 32
    · have hi : i = source := by omega
      rw [if_pos hbit, if_pos hi]
    · have hi : i ≠ source := fun h => hbit (by rw [h])
      rw [if_neg hbit, if_neg hi]
  · have hi : i ≠ source := fun h => hword (by rw [h])
    rw [Function.update_of_ne hword, if_neg hi]

lemma regSet_bit (source : ℕ) (r : Word) (j : ℕ) :
    (regSet r (bit source)).getLsbD j = if j = source % 32 then true else r.getLsbD j := by
  rw [getLsbD_regSet, getLsbD_bit]
  by_cases h : j = source % 32 <;> simp [h]

lemma regClr_bit (source : ℕ) (r : Word) (j : ℕ) :
    (regClr r (bit source)).getLsbD j = if j = source % 32 then false else r.getLsbD j := by
  rw [getLsbD_regClr, getLsbD_bit]
  by_cases h : j = source % 32 <;> simp [h]

variable (source i : ℕ) (r : Irq)

lemma isEnabled_eq : r.isEnabled i = (r.iec (i / 32)).getLsbD (i % 32) := shift_and_one _ _

lemma get_eq : r.get i = (r.ifs (i / 32)).getLsbD (i % 32) := shift_and_one _ _

@[simp] lemma isEnabled_enable :
    (r.enable source).isEnabled i = if i = source then true else r.isEnabled i := by
  rw [isEnabled_eq, isEnabled_eq]
  exact getLsbD_update r.iec source i true (regSet · (bit source)) (regSet_bit source)

@[simp] lemma isEnabled_disable :
    (r.disable source).isEnabled i = if i = source then false else r.isEnabled i := by
  rw [isEnabled_eq, isEnabled_eq]
  exact getLsbD_update r.iec source i false (regClr · (bit source)) (regClr_bit source)

@[simp] lemma get_clear : (r.clear source).get i = if i = source then false else r.get i := by
  rw [get_eq, get_eq]
  exact getLsbD_update r.ifs source i false (regClr · (bit source)) (regClr_bit source)

@[simp] lemma get_raise : (r.raise source).get i = if i = source then true else r.get i := by
  rw [get_eq, get_eq]
  exact getLsbD_update r.ifs source i true (regSet · (bit source)) (regSet_bit source)

@[simp] lemma isEnabled_clear : (r.clear source).isEnabled i = r.isEnabled i := rfl

@[simp] lemma isEnabled_raise : (r.raise source).isEnabled i = r.isEnabled i := rfl

@[simp] lemma isEnabled_priority (pri sub : Byte) :
    (r.priority source pri sub).isEnabled i = r.isEnabled i := rfl

@[simp] lemma get_enable : (r.enable source).get i = r.get i := rfl

@[simp] lemma get_disable : (r.disable source).get i = r.get i := rfl

@[simp] lemma get_priority (pri sub : Byte) : (r.priority source pri sub).get i = r.get i := rfl

end Irq

end FrameworkXC32
