import FrameworkXC32.Api.Stream
import FrameworkXC32.Lib.Circular
import FrameworkXC32.Serial.SoftwareSerial
import Mathlib.Order.MinMax

/-!
# The buffer of `SoftwareSerial`

In every state that an object reaches its positions lie in its buffer, and the stream functions
work on the bytes between them.
-/

namespace FrameworkXC32
open Machine Circular

namespace SoftwareSerial

def stream : Stream SoftwareSerial where
  available := fun s => (s.available, s)
  read := read
  peek := fun s => (s.peek, s)

/-- The object that the constructor leaves in raw memory. -/
def constructed (board : Board) (this : ℕ) (raw : SoftwareSerial) (transmitPin receivePin : Word)
    (inverseLogic : Bool) (buffSize : Word) (malloc : Bool) (w : SerialBoard) : SoftwareSerial :=
  let (s, w) := SerialBoard.constructTx board transmitPin inverseLogic raw w
  (SerialBoard.constructRx board this receivePin buffSize malloc s w).1

/-- The states that an object reaches, whatever the board around it does. -/
inductive Reachable (board : Board) (fcpu : Word) : SoftwareSerial → Prop
  | constructed (this : ℕ) (raw : SoftwareSerial) (transmitPin receivePin : Word)
      (inverseLogic : Bool) (buffSize : Word) (malloc : Bool) (w : SerialBoard) :
      Reachable board fcpu (constructed board this raw transmitPin receivePin inverseLogic buffSize
        malloc w)
  | begin {s : SoftwareSerial} (speed : Word) (w : SerialBoard) : speed ≠ 0 →
      Reachable board fcpu s → Reachable board fcpu (SerialBoard.enableRx board true
        { s with bitTime := sysClkBusPeripheral1 fcpu / speed } w).1
  | enableRx {s : SoftwareSerial} (on : Bool) (w : SerialBoard) : Reachable board fcpu s →
      Reachable board fcpu (SerialBoard.enableRx board on s w).1
  | setTransmitEnablePin {s : SoftwareSerial} (enabled : Bool) (pin : Word) :
      Reachable board fcpu s →
      Reachable board fcpu { s with txEnabled := enabled, txEnablePin := pin }
  | read {s : SoftwareSerial} : Reachable board fcpu s → Reachable board fcpu s.read.2
  | flush {s : SoftwareSerial} : Reachable board fcpu s → Reachable board fcpu s.flush
  | rxRead {s t : SoftwareSerial} (start : Bool) (bits : List Bool) (stop : Bool) :
      Reachable board fcpu s → s.rxRead start bits stop = some t → Reachable board fcpu t

/-- The positions of a receiver lie in its buffer, or at the start of an empty one. -/
def InBuffer (s : SoftwareSerial) : Prop :=
  s.rxValid = true → s.buffSize.toNat < 2 ^ 31 ∧ s.inPos.toNat < max 1 s.buffSize.toNat ∧
    s.outPos.toNat < max 1 s.buffSize.toNat

lemma InBuffer.of_eq {s t : SoftwareSerial} (h : s.InBuffer) (hvalid : t.rxValid = s.rxValid)
    (hsize : t.buffSize = s.buffSize) (hin : t.inPos = s.inPos) (hout : t.outPos = s.outPos) :
    t.InBuffer := by
  unfold InBuffer
  rw [hvalid, hsize, hin, hout]
  exact h

lemma inBuffer_enableRx {board : Board} {s : SoftwareSerial} (h : s.InBuffer) (on : Bool)
    (w : SerialBoard) : (SerialBoard.enableRx board on s w).1.InBuffer := by
  unfold SerialBoard.enableRx
  split <;> exact h.of_eq rfl rfl rfl rfl

lemma inBuffer_constructed (board : Board) (this : ℕ) (raw : SoftwareSerial)
    (transmitPin receivePin : Word) (inverseLogic : Bool) (buffSize : Word) (malloc : Bool)
    (w : SerialBoard) : (constructed board this raw transmitPin receivePin inverseLogic buffSize
      malloc w).InBuffer := by
  have hinvalid : (SerialBoard.constructTx board transmitPin inverseLogic raw w).1.rxValid =
      false := by
    unfold SerialBoard.constructTx
    dsimp only
    split <;> rfl
  unfold constructed
  generalize SerialBoard.constructTx board transmitPin inverseLogic raw w = tx at hinvalid ⊢
  unfold SerialBoard.constructRx
  dsimp only
  split
  · rename_i hclaim
    simp only [Bool.and_eq_true, decide_eq_true_eq] at hclaim
    intro _
    refine ⟨hclaim.2.2, ?_, ?_⟩ <;> exact lt_max_of_lt_left Nat.zero_lt_one
  · intro hvalid
    rw [hinvalid] at hvalid
    cases hvalid

lemma toNat_advance {pos size : Word} (hpos : pos.toNat < size.toNat) :
    ((pos + 1) % size).toNat = (pos.toNat + 1) % size.toNat := by
  have hsize := size.isLt
  rw [BitVec.toNat_umod, BitVec.toNat_add]
  congr 1
  exact Nat.mod_eq_of_lt (by change pos.toNat + 1 < _; omega)

lemma InBuffer.store {s t : SoftwareSerial} (h : s.InBuffer) {received : Byte}
    (hstore : s.store received = some t) : t.InBuffer := by
  unfold SoftwareSerial.store at hstore
  split at hstore
  · cases hstore
  · rename_i hne
    have hpos : 0 < s.buffSize.toNat := Nat.pos_of_ne_zero fun h0 =>
      hne (BitVec.eq_of_toNat_eq h0)
    dsimp only at hstore
    split at hstore
    · cases hstore
      intro hvalid
      obtain ⟨hsize, hin, hout⟩ := h hvalid
      refine ⟨hsize, ?_, hout⟩
      change ((s.inPos + 1) % s.buffSize).toNat < max 1 s.buffSize.toNat
      rw [BitVec.toNat_umod]
      exact lt_max_of_lt_right (Nat.mod_lt _ hpos)
    · cases hstore
      exact h.of_eq rfl rfl rfl rfl

lemma InBuffer.read {s : SoftwareSerial} (h : s.InBuffer) : s.read.2.InBuffer := by
  unfold SoftwareSerial.read
  split
  · exact h
  · rename_i hsome
    intro hvalid
    obtain ⟨hsize, hin, hout⟩ := h hvalid
    refine ⟨hsize, hin, ?_⟩
    change ((s.outPos + 1) % s.buffSize).toNat < max 1 s.buffSize.toNat
    by_cases hzero : s.buffSize.toNat = 0
    · -- the positions of an empty buffer are both 0, so that nothing is read
      exfalso
      apply hsome
      have heq : s.inPos = s.outPos := BitVec.eq_of_toNat_eq (by omega)
      simp [heq]
    · rw [BitVec.toNat_umod]
      exact lt_max_of_lt_right (Nat.mod_lt _ (Nat.pos_of_ne_zero hzero))

lemma Reachable.inBuffer {board : Board} {fcpu : Word} {s : SoftwareSerial}
    (h : Reachable board fcpu s) : s.InBuffer := by
  induction h with
  | constructed => exact inBuffer_constructed _ _ _ _ _ _ _ _ _
  | @begin s speed w _ _ ih =>
    have hspeed : SoftwareSerial.InBuffer
        { s with bitTime := sysClkBusPeripheral1 fcpu / speed } := ih.of_eq rfl rfl rfl rfl
    exact inBuffer_enableRx hspeed true w
  | enableRx on w _ ih => exact inBuffer_enableRx ih on w
  | setTransmitEnablePin enabled pin _ ih => exact ih.of_eq rfl rfl rfl rfl
  | read _ ih => exact ih.read
  | @flush s _ ih =>
    intro hvalid
    have hone : 0 < max 1 s.buffSize.toNat := lt_max_of_lt_left Nat.zero_lt_one
    exact ⟨(ih hvalid).1, hone, hone⟩
  | rxRead start bits stop _ hread ih =>
    unfold SoftwareSerial.rxRead at hread
    split at hread
    · cases hread
      exact ih
    · dsimp only at hread
      split at hread
      · exact ih.store hread
      · cases hread
        exact ih

/-- The number of bytes from the out position to the in position. -/
def unreadCount (s : SoftwareSerial) : ℕ :=
  if s.outPos.toNat ≤ s.inPos.toNat then s.inPos.toNat - s.outPos.toNat
  else s.buffSize.toNat - s.outPos.toNat + s.inPos.toNat

/-- The unread bytes, oldest first. -/
def unread (s : SoftwareSerial) : List Byte :=
  if s.rxValid then span s.buffer s.buffSize.toNat s.outPos.toNat s.unreadCount else []

lemma available_eq {s : SoftwareSerial} (h : s.InBuffer) : s.available = s.unread.length := by
  unfold available unread
  cases hvalid : s.rxValid with
  | false => rfl
  | true =>
    obtain ⟨hsize, hin, hout⟩ := h hvalid
    have hint : s.buffSize.toInt = s.buffSize.toNat := BitVec.toInt_eq_toNat_of_lt (by omega)
    have hdiff : (s.inPos - s.outPos).toInt = (s.inPos.toNat : ℤ) - s.outPos.toNat := by
      rw [BitVec.toInt_sub, BitVec.toInt_eq_toNat_of_lt (by omega),
        BitVec.toInt_eq_toNat_of_lt (by omega)]
      exact Int.bmod_eq_of_le (by omega) (by omega)
    simp only [if_true, length_span]
    rw [hdiff, hint]
    unfold unreadCount
    split <;> split <;> omega

lemma unreadCount_eq_zero {s : SoftwareSerial} (h : s.InBuffer) (hvalid : s.rxValid = true) :
    s.unreadCount = 0 ↔ s.inPos = s.outPos := by
  obtain ⟨hsize, hin, hout⟩ := h hvalid
  unfold unreadCount
  constructor
  · intro hzero
    apply BitVec.eq_of_toNat_eq
    split at hzero <;> omega
  · intro heq
    rw [heq, if_pos (Nat.le_refl _), Nat.sub_self]

lemma read_cons {s : SoftwareSerial} (h : s.InBuffer) (hvalid : s.rxValid = true)
    (hne : s.inPos ≠ s.outPos) :
    s.unread = s.buffer s.outPos.toNat :: s.read.2.unread := by
  obtain ⟨hsize, hin, hout⟩ := h hvalid
  have hpos : 0 < s.buffSize.toNat := by
    by_contra hzero
    exact hne (BitVec.eq_of_toNat_eq (by omega))
  have hdiff : s.inPos.toNat ≠ s.outPos.toNat := fun heq => hne (BitVec.eq_of_toNat_eq heq)
  have hread : s.read.2 = { s with outPos := (s.outPos + 1) % s.buffSize } := by
    unfold SoftwareSerial.read
    simp [hvalid, hne]
  have hcount : s.unreadCount = s.read.2.unreadCount + 1 := by
    rw [hread]
    unfold unreadCount
    dsimp only
    rw [toNat_advance (by omega)]
    by_cases hwrap : s.outPos.toNat + 1 = s.buffSize.toNat
    · rw [hwrap, Nat.mod_self]
      split <;> split <;> omega
    · rw [Nat.mod_eq_of_lt (by omega)]
      split <;> split <;> omega
  unfold unread
  rw [if_pos hvalid, if_pos (by rw [hread]; exact hvalid), hcount, span_succ,
    Nat.mod_eq_of_lt (by omega), hread]
  dsimp only
  rw [toNat_advance (by omega), span_mod]

/-- The object with one more byte in its buffer. -/
def push (c : Byte) (s : SoftwareSerial) : SoftwareSerial :=
  { s with
    buffer := Function.update s.buffer s.inPos.toNat c
    inPos := (s.inPos + 1) % s.buffSize }

lemma length_unread {s : SoftwareSerial} (hvalid : s.rxValid = true) :
    s.unread.length = s.unreadCount := by
  unfold unread
  rw [if_pos hvalid, length_span]

lemma unreadCount_push {s : SoftwareSerial} (h : s.InBuffer) (hvalid : s.rxValid = true)
    (hroom : s.unreadCount + 1 < s.buffSize.toNat) (c : Byte) :
    (s.inPos + 1) % s.buffSize ≠ s.outPos ∧ (s.push c).unreadCount = s.unreadCount + 1 := by
  obtain ⟨hsize, hin, hout⟩ := h hvalid
  have hadvance : ((s.inPos + 1) % s.buffSize).toNat = (s.inPos.toNat + 1) % s.buffSize.toNat :=
    toNat_advance (by omega)
  rw [← BitVec.toNat_ne_iff_ne, hadvance]
  unfold unreadCount push at *
  dsimp only
  rw [hadvance]
  by_cases hwrap : s.inPos.toNat + 1 = s.buffSize.toNat
  · rw [hwrap, Nat.mod_self]
    split_ifs at hroom ⊢ <;> omega
  · rw [Nat.mod_eq_of_lt (by omega)]
    split_ifs at hroom ⊢ <;> omega

lemma unread_push {s : SoftwareSerial} (h : s.InBuffer) (hvalid : s.rxValid = true)
    (hroom : s.unreadCount + 1 < s.buffSize.toNat) (c : Byte) :
    (s.push c).unread = s.unread ++ [c] := by
  have hcount := (unreadCount_push h hvalid hroom c).2
  obtain ⟨hsize, hin, hout⟩ := h hvalid
  have hend : (s.outPos.toNat + s.unreadCount) % s.buffSize.toNat = s.inPos.toNat := by
    unfold unreadCount at hroom ⊢
    split at hroom
    · rename_i hle
      rw [if_pos hle, Nat.add_sub_cancel' hle, Nat.mod_eq_of_lt (by omega)]
    · rename_i hgt
      rw [if_neg hgt]
      have hsum : s.outPos.toNat + (s.buffSize.toNat - s.outPos.toNat + s.inPos.toNat) =
          s.inPos.toNat + s.buffSize.toNat := by omega
      rw [hsum, Nat.add_mod_right, Nat.mod_eq_of_lt (by omega)]
  have hspan := span_update_end s.buffer s.outPos.toNat
    (by omega : s.unreadCount < s.buffSize.toNat) c
  rw [hend] at hspan
  unfold unread
  rw [if_pos hvalid, hcount, ← hspan]
  exact if_pos hvalid

lemma store_eq_push {s : SoftwareSerial} (h : s.InBuffer) (hvalid : s.rxValid = true)
    (hroom : s.unreadCount + 1 < s.buffSize.toNat) (received : Byte) :
    s.store received = some (s.push (if s.invert then ~~~received else received)) := by
  have hne : s.buffSize ≠ 0 := by
    intro hzero
    rw [hzero] at hroom
    simp at hroom
  have hnext := (unreadCount_push h hvalid hroom received).1
  unfold SoftwareSerial.store
  rw [if_neg hne]
  dsimp only
  rw [if_pos hnext]
  rfl

lemma delivers : stream.Delivers fun s l => s.InBuffer ∧ s.unread = l := by
  rintro s l ⟨h, rfl⟩ call
  have hoffered : s.peek = RingOp.offered s.unread.head? ∧
      s.read.1 = RingOp.offered s.unread.head? ∧ s.read.2.unread = s.unread.tail := by
    cases hvalid : s.rxValid with
    | false => simp [SoftwareSerial.peek, SoftwareSerial.read, unread, hvalid, RingOp.offered]
    | true =>
      by_cases heq : s.inPos = s.outPos
      · have hnil : s.unread = [] := by
          unfold unread
          rw [if_pos hvalid, (unreadCount_eq_zero h hvalid).mpr heq, span_zero]
        simp [SoftwareSerial.peek, SoftwareSerial.read, heq, hnil, RingOp.offered]
      · rw [read_cons h hvalid heq]
        simp [SoftwareSerial.peek, SoftwareSerial.read, hvalid, heq, RingOp.offered]
  cases call with
  | available => exact ⟨available_eq h, h, rfl⟩
  | peek => exact ⟨hoffered.1, h, rfl⟩
  | read => exact ⟨hoffered.2.1, h.read, hoffered.2.2⟩

end SoftwareSerial

end FrameworkXC32
