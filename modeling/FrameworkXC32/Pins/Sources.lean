import FrameworkXC32.Lib.Cells
import FrameworkXC32.Pins.Irq

/-!
# One record for each interrupt source

The functions of `hal_irq.h` by the words that they address, and what they do to the record of a
source: its enable bit, its flag and its priority. The enable bits and flags of 32 sources share a
register, the priorities of four.
-/

namespace FrameworkXC32
open Machine

/-- A write at a word of a block of registers. They are 4 words apart, and behind each one are its
aliases CLR, SET and INV. -/
def storeWord (o : ℕ) (val : Word) (block : ℕ → Word) : ℕ → Word :=
  Function.update block (o / 4) (match o % 4 with
    | 0 => val
    | 1 => regClr (block (o / 4)) val
    | 2 => regSet (block (o / 4)) val
    | _ => regInv (block (o / 4)) val)

def loadWord (o : ℕ) (block : ℕ → Word) : Word := block (o / 4)

/-- The offset of IECx from IEC0 and of IFSx from IFS0, in words. -/
def irqOffset (source : ℕ) : ℕ := 0x10 * (source / 32) / 4

def irqEnable (source : ℕ) (r : Irq) : Irq :=
  { r with iec := storeWord (irqOffset source + 2) (Irq.bit source) r.iec }

def irqDisable (source : ℕ) (r : Irq) : Irq :=
  { r with iec := storeWord (irqOffset source + 1) (Irq.bit source) r.iec }

def irqIsEnabled (source : ℕ) (r : Irq) : Bool :=
  (loadWord (irqOffset source) r.iec >>> (source % 32)) &&& 1 != 0

def irqGet (source : ℕ) (r : Irq) : Bool :=
  (loadWord (irqOffset source) r.ifs >>> (source % 32)) &&& 1 != 0

def irqSet (source : ℕ) (value : Bool) (r : Irq) : Irq :=
  { r with ifs := storeWord (irqOffset source + 1 + value.toNat) (Irq.bit source) r.ifs }

def irqClear (source : ℕ) (r : Irq) : Irq :=
  { r with ifs := storeWord (irqOffset source + 1 + 0) (Irq.bit source) r.ifs }

/-- `__irq_set(reg, lsb, msb, value)` on the word `reg` of the block of the priorities. -/
def irqSetField (reg lsb msb : ℕ) (value : Word) (r : Irq) : Irq :=
  { r with ipc := storeWord reg (Irq.setField lsb msb value (loadWord reg r.ipc)) r.ipc }

def irqPriority (source : ℕ) (pri sub : Byte) (r : Irq) : Irq :=
  let reg := 4 * (source / 4)
  let r := irqSetField reg (source * 8 % 32 + 2) (source * 8 % 32 + 4) ((pri &&& 7).setWidth 32) r
  irqSetField reg (source * 8 % 32 + 0) (source * 8 % 32 + 1) ((sub &&& 7).setWidth 32) r

inductive IrqCall
  | enable (source : ℕ)
  | disable (source : ℕ)
  | set (source : ℕ) (value : Bool)
  | clear (source : ℕ)
  | priority (source : ℕ) (pri sub : Byte)
deriving DecidableEq, Repr

/-- What the registers hold about one source; the lower two bits of its priority are the
subpriority. -/
structure IrqRecord where
  enabled : Bool
  flag : Bool
  priority : BitVec 5
deriving DecidableEq, Repr

/-- The priority field of a source, as its bits of IPCx. -/
def irqField (source : ℕ) (r : Irq) : BitVec 5 :=
  (loadWord (4 * (source / 4)) r.ipc).extractLsb' (source * 8 % 32) 5

def irqRecord (source : ℕ) (r : Irq) : IrqRecord where
  enabled := irqIsEnabled source r
  flag := irqGet source r
  priority := irqField source r

namespace IrqCall

def exec (r : Irq) : IrqCall → Irq
  | enable source => irqEnable source r
  | disable source => irqDisable source r
  | set source value => irqSet source value r
  | clear source => irqClear source r
  | priority source pri sub => irqPriority source pri sub r

def source : IrqCall → ℕ
  | enable source | disable source | set source _ | clear source | priority source _ _ => source

/-- The call on the record of its source. -/
def apply (x : IrqRecord) : IrqCall → IrqRecord
  | enable _ => { x with enabled := true }
  | disable _ => { x with enabled := false }
  | set _ value => { x with flag := value }
  | clear _ => { x with flag := false }
  | priority _ pri sub => { x with priority := pri.setWidth 3 ++ sub.setWidth 2 }

/-- The enable bit that the call sets. -/
def enables : IrqCall → ℕ → Option Bool
  | enable s, i => if s = i then some true else none
  | disable s, i => if s = i then some false else none
  | _, _ => none

/-- The flag that the call sets. -/
def flags : IrqCall → ℕ → Option Bool
  | set s value, i => if s = i then some value else none
  | clear s, i => if s = i then some false else none
  | _, _ => none

/-- The priority that the call sets: `pri mod 8` over `sub mod 4`. -/
def priorities : IrqCall → ℕ → Option (BitVec 5)
  | priority s pri sub, i => if s = i then some (pri.setWidth 3 ++ sub.setWidth 2) else none
  | _, _ => none

end IrqCall

lemma irqOffset_eq (source : ℕ) : irqOffset source = 4 * (source / 32) := by
  unfold irqOffset
  omega

section Words

variable (k : ℕ) (val : Word) (block : ℕ → Word)

lemma storeWord_reg : storeWord (4 * k) val block = Function.update block k val := by
  have hdiv : 4 * k / 4 = k := by omega
  have hmod : 4 * k % 4 = 0 := by omega
  simp only [storeWord, hdiv, hmod]

lemma storeWord_clr :
    storeWord (4 * k + 1) val block = Function.update block k (regClr (block k) val) := by
  have hdiv : (4 * k + 1) / 4 = k := by omega
  have hmod : (4 * k + 1) % 4 = 1 := by omega
  simp only [storeWord, hdiv, hmod]

lemma storeWord_set :
    storeWord (4 * k + 2) val block = Function.update block k (regSet (block k) val) := by
  have hdiv : (4 * k + 2) / 4 = k := by omega
  have hmod : (4 * k + 2) % 4 = 2 := by omega
  simp only [storeWord, hdiv, hmod]

lemma loadWord_reg : loadWord (4 * k) block = block k := by
  have hdiv : 4 * k / 4 = k := by omega
  rw [loadWord, hdiv]

end Words

section Refinement

variable (source : ℕ) (r : Irq)

/-! The words addressed are those of the registers that `Irq` names. -/

lemma irqEnable_eq : irqEnable source r = r.enable source := by
  rw [irqEnable, irqOffset_eq, storeWord_set]
  rfl

lemma irqDisable_eq : irqDisable source r = r.disable source := by
  rw [irqDisable, irqOffset_eq, storeWord_clr]
  rfl

lemma irqClear_eq : irqClear source r = r.clear source := by
  rw [irqClear, irqOffset_eq, Nat.add_zero, storeWord_clr]
  rfl

lemma irqSet_eq (value : Bool) :
    irqSet source value r = if value then r.raise source else r.clear source := by
  cases value with
  | false => exact irqClear_eq source r
  | true =>
    rw [irqSet, irqOffset_eq, Bool.toNat_true, Nat.add_assoc, storeWord_set]
    rfl

lemma irqIsEnabled_eq : irqIsEnabled source r = r.isEnabled source := by
  rw [irqIsEnabled, irqOffset_eq, loadWord_reg]
  rfl

lemma irqGet_eq : irqGet source r = r.get source := by
  rw [irqGet, irqOffset_eq, loadWord_reg]
  rfl

lemma irqPriority_eq (pri sub : Byte) :
    irqPriority source pri sub r = r.priority source pri sub := by
  unfold irqPriority irqSetField Irq.priority
  simp only [loadWord_reg, storeWord_reg, Function.update_self, Function.update_idem]

lemma irqField_eq : irqField source r = (r.ipc (source / 4)).extractLsb' (source * 8 % 32) 5 := by
  rw [irqField, loadWord_reg]

end Refinement

section Field

lemma Irq.getLsbD_setField (lsb len : ℕ) (h : lsb + len < 31) (value reg : Word) (i : ℕ) :
    (Irq.setField lsb (lsb + len) value reg).getLsbD i =
      if lsb ≤ i ∧ i ≤ lsb + len then value.getLsbD (i - lsb) else reg.getLsbD i := by
  have hmask := getLsbD_low (show lsb + len - lsb + 1 < 32 by omega)
  unfold Irq.setField
  generalize (1 : Word) <<< (lsb + len - lsb + 1) - 1 = mask at hmask
  by_cases h32 : i < 32
  · simp only [BitVec.getLsbD_or, BitVec.getLsbD_and, BitVec.getLsbD_not, BitVec.getLsbD_shiftLeft,
      hmask, h32, decide_true, Bool.true_and]
    by_cases hlow : i < lsb
    · have hout : ¬lsb ≤ i := by omega
      simp [hlow, hout]
    · have hin : i - lsb < lsb + len - lsb + 1 ↔ i ≤ lsb + len := by omega
      have hle : lsb ≤ i := by omega
      by_cases hhigh : i ≤ lsb + len <;>
        simp only [hlow, hin, hle, hhigh, decide_false, decide_true, Bool.not_false, Bool.not_true,
          Bool.true_and, Bool.and_false, Bool.and_true, Bool.false_or, Bool.or_false, and_self,
          and_false, if_true, if_false]
  · have hout : ¬(lsb ≤ i ∧ i ≤ lsb + len) := by omega
    rw [if_neg hout, BitVec.getLsbD_of_ge _ i (by omega), BitVec.getLsbD_of_ge _ i (by omega)]

lemma getLsbD_and_seven (value : Byte) {j : ℕ} (hj : j < 3) :
    ((value &&& 7).setWidth 32 : Word).getLsbD j = value.getLsbD j := by
  have hseven : ∀ j < 3, (7 : Byte).getLsbD j = true := by decide
  rw [BitVec.getLsbD_setWidth, BitVec.getLsbD_and, hseven j hj, Bool.and_true,
    decide_eq_true (show j < 32 by omega), Bool.true_and]

variable (source i : ℕ) (r : Irq)

/-- The two writes of `IRQ_Priority` together put the five bits of the source. -/
lemma getLsbD_ipc_priority (pri sub : Byte) (j : ℕ) :
    ((r.priority source pri sub).ipc (source / 4)).getLsbD j =
      if source * 8 % 32 ≤ j ∧ j ≤ source * 8 % 32 + 4 then
        (pri.setWidth 3 ++ sub.setWidth 2).getLsbD (j - source * 8 % 32)
      else (r.ipc (source / 4)).getLsbD j := by
  have hpri := Irq.getLsbD_setField (source * 8 % 32 + 2) 2 (by omega)
  have hsub := Irq.getLsbD_setField (source * 8 % 32 + 0) 1 (by omega)
  unfold Irq.priority
  dsimp only
  rw [Function.update_self, hsub, hpri, Nat.add_zero, BitVec.getLsbD_append]
  by_cases hsubj : source * 8 % 32 ≤ j ∧ j ≤ source * 8 % 32 + 1
  · have hin : source * 8 % 32 ≤ j ∧ j ≤ source * 8 % 32 + 4 := by omega
    have hlow : j - source * 8 % 32 < 2 := by omega
    rw [if_pos hsubj, if_pos hin, getLsbD_and_seven sub (by omega), if_pos hlow,
      BitVec.getLsbD_setWidth, decide_eq_true hlow, Bool.true_and]
  · by_cases hprij : source * 8 % 32 + 2 ≤ j ∧ j ≤ source * 8 % 32 + 2 + 2
    · have hin : source * 8 % 32 ≤ j ∧ j ≤ source * 8 % 32 + 4 := by omega
      have hhigh : ¬j - source * 8 % 32 < 2 := by omega
      have hsub2 : j - (source * 8 % 32 + 2) = j - source * 8 % 32 - 2 := by omega
      rw [if_neg hsubj, if_pos hprij, if_pos hin, if_neg hhigh, hsub2,
        getLsbD_and_seven pri (by omega), BitVec.getLsbD_setWidth, decide_eq_true (by omega),
        Bool.true_and]
    · have hout : ¬(source * 8 % 32 ≤ j ∧ j ≤ source * 8 % 32 + 4) := by omega
      rw [if_neg hsubj, if_neg hprij, if_neg hout]

lemma irqField_priority (pri sub : Byte) : irqField i (r.priority source pri sub) =
    if source = i then pri.setWidth 3 ++ sub.setWidth 2 else irqField i r := by
  rw [irqField_eq, irqField_eq]
  apply BitVec.eq_of_getLsbD_eq
  intro j hj
  rw [BitVec.getLsbD_extractLsb', decide_eq_true hj, Bool.true_and]
  by_cases hword : i / 4 = source / 4
  · rw [hword, getLsbD_ipc_priority]
    by_cases hsource : source = i
    · subst hsource
      rw [if_pos (by omega), if_pos rfl, Nat.add_sub_cancel_left]
    · rw [if_neg (by omega), if_neg hsource, BitVec.getLsbD_extractLsb', decide_eq_true hj,
        Bool.true_and]
  · have hsource : source ≠ i := fun h => hword (by rw [h])
    have hkept : (r.priority source pri sub).ipc (i / 4) = r.ipc (i / 4) :=
      Function.update_of_ne hword _ _
    rw [hkept, if_neg hsource, BitVec.getLsbD_extractLsb', decide_eq_true hj, Bool.true_and]

@[simp] lemma irqField_enable : irqField i (r.enable source) = irqField i r := rfl

@[simp] lemma irqField_disable : irqField i (r.disable source) = irqField i r := rfl

@[simp] lemma irqField_raise : irqField i (r.raise source) = irqField i r := rfl

@[simp] lemma irqField_clear : irqField i (r.clear source) = irqField i r := rfl

end Field

namespace IrqCall

variable (r : Irq) (c : IrqCall) (i : ℕ)

/-- A call changes the record of its source, as it is asked to, and no other. -/
theorem record_exec : irqRecord i (c.exec r) =
    if c.source = i then c.apply (irqRecord i r) else irqRecord i r := by
  unfold irqRecord
  simp only [irqIsEnabled_eq, irqGet_eq]
  cases c with
  | enable s =>
    simp only [exec, source, irqEnable_eq, Irq.isEnabled_enable, Irq.get_enable, irqField_enable]
    rcases eq_or_ne s i with rfl | h <;> simp [apply, Ne.symm, *]
  | disable s =>
    simp only [exec, source, irqDisable_eq, Irq.isEnabled_disable, Irq.get_disable,
      irqField_disable]
    rcases eq_or_ne s i with rfl | h <;> simp [apply, Ne.symm, *]
  | set s value =>
    cases value with
    | false =>
      simp only [exec, source, irqSet_eq, Bool.false_eq_true, if_false, Irq.isEnabled_clear,
        Irq.get_clear, irqField_clear]
      rcases eq_or_ne s i with rfl | h <;> simp [apply, Ne.symm, *]
    | true =>
      simp only [exec, source, irqSet_eq, if_true, Irq.isEnabled_raise, Irq.get_raise,
        irqField_raise]
      rcases eq_or_ne s i with rfl | h <;> simp [apply, Ne.symm, *]
  | clear s =>
    simp only [exec, source, irqClear_eq, Irq.isEnabled_clear, Irq.get_clear, irqField_clear]
    rcases eq_or_ne s i with rfl | h <;> simp [apply, Ne.symm, *]
  | priority s pri sub =>
    simp only [exec, source, irqPriority_eq, Irq.isEnabled_priority, Irq.get_priority,
      irqField_priority]
    rcases eq_or_ne s i with rfl | h <;> simp [apply, *]

lemma enabled_exec :
    irqIsEnabled i (c.exec r) = (c.enables i).getD (irqIsEnabled i r) := by
  have hrecord := congrArg IrqRecord.enabled (record_exec r c i)
  rw [show irqIsEnabled i (c.exec r) = (irqRecord i (c.exec r)).enabled from rfl, hrecord]
  by_cases h : c.source = i
  · rw [if_pos h]
    cases c <;> simp_all [source, apply, enables, irqRecord]
  · rw [if_neg h]
    cases c <;> simp_all [source, enables, irqRecord]

lemma flag_exec : irqGet i (c.exec r) = (c.flags i).getD (irqGet i r) := by
  have hrecord := congrArg IrqRecord.flag (record_exec r c i)
  rw [show irqGet i (c.exec r) = (irqRecord i (c.exec r)).flag from rfl, hrecord]
  by_cases h : c.source = i
  · rw [if_pos h]
    cases c <;> simp_all [source, apply, flags, irqRecord]
  · rw [if_neg h]
    cases c <;> simp_all [source, flags, irqRecord]

lemma priority_exec : irqField i (c.exec r) = (c.priorities i).getD (irqField i r) := by
  have hrecord := congrArg IrqRecord.priority (record_exec r c i)
  rw [show irqField i (c.exec r) = (irqRecord i (c.exec r)).priority from rfl, hrecord]
  by_cases h : c.source = i
  · rw [if_pos h]
    cases c <;> simp_all [source, apply, priorities, irqRecord]
  · rw [if_neg h]
    cases c <;> simp_all [source, priorities, irqRecord]

end IrqCall

/-- The controller after a list of calls. -/
def irqAfter (calls : List IrqCall) (r : Irq) : Irq := calls.foldl IrqCall.exec r

lemma irqRecord_irqAfter (i : ℕ) (calls : List IrqCall) (r : Irq) : irqRecord i (irqAfter calls r) =
    (calls.filter fun c => c.source = i).foldl IrqCall.apply (irqRecord i r) := by
  unfold irqAfter
  induction calls generalizing r with
  | nil => rfl
  | cons c calls ih =>
    rw [List.foldl_cons, ih, IrqCall.record_exec, List.filter_cons]
    by_cases h : c.source = i <;> simp [h]

/-- The interrupt controller keeps one record for each source. After any calls, from any contents of
the registers, a source has the enable bit, the flag and the priority that were last set for it, or
the ones it had; and the calls for other sources do nothing to its record. -/
theorem irq_sources_independent (r : Irq) (calls : List IrqCall) (i : ℕ) :
    irqIsEnabled i (irqAfter calls r) =
        (Cells.last IrqCall.enables calls i).getD (irqIsEnabled i r) ∧
      irqGet i (irqAfter calls r) = (Cells.last IrqCall.flags calls i).getD (irqGet i r) ∧
      irqField i (irqAfter calls r) = (Cells.last IrqCall.priorities calls i).getD (irqField i r) ∧
      irqRecord i (irqAfter calls r) =
        (calls.filter fun c => c.source = i).foldl IrqCall.apply (irqRecord i r) := by
  refine ⟨?_, ?_, ?_, irqRecord_irqAfter i calls r⟩
  · exact @Cells.observe_foldl _ _ _ _ IrqCall.enables (fun r i => irqIsEnabled i r) IrqCall.exec
      IrqCall.enabled_exec r calls i
  · exact @Cells.observe_foldl _ _ _ _ IrqCall.flags (fun r i => irqGet i r) IrqCall.exec
      IrqCall.flag_exec r calls i
  · exact @Cells.observe_foldl _ _ _ _ IrqCall.priorities (fun r i => irqField i r) IrqCall.exec
      IrqCall.priority_exec r calls i

example : (irqRecord 9 (irqAfter [.priority 9 13 7, .enable 9, .priority 8 1 1, .set 9 true]
    ⟨fun _ => 0, fun _ => 0, fun _ => 0⟩)) = ⟨true, true, 5 * 4 + 3⟩ := by decide

end FrameworkXC32
