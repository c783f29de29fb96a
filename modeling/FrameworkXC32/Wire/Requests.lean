import FrameworkXC32.Api.RingFifo
import FrameworkXC32.Wire.Reads

/-!
# What a read leaves in the buffer

`requestFrom` stores the bytes as they arrive and takes none of them back. A read can only be
refused at its address byte, before there are any: what the functions of the class return
afterwards.
-/

namespace FrameworkXC32
open Machine

namespace TwoWire

/-- The results of calls of `read()`. -/
def reads {β : Type} : ℕ → Wire β → List ℤ
  | 0, _ => []
  | n + 1, w => (read w).1 :: reads n (read w).2

/-- A read of `size` bytes has left what its result says: nothing, or the bytes received. -/
structure LeavesExactly {β : Type} (size : Word) (received : List Byte) (res : Byte)
    (w : Wire β) : Prop where
  failed : res = 0 → available w = 0 ∧ (read w).1 = -1 ∧ peek w = -1
  complete : res ≠ 0 → res.toNat = size.toNat ∧ available w = size.toNat ∧
    reads size.toNat w = received.map fun c => (c.toNat : ℤ)

section Buffer

variable {β : Type} {w : Wire β}

lemma reads_eq {l : List Byte} (h : w.dev.rx.contents = l) :
    reads l.length w = l.map fun c => (c.toNat : ℤ) := by
  induction l generalizing w with
  | nil => rfl
  | cons c l ih =>
    obtain ⟨hc, hl⟩ := RingBufferN.readChar_cons h
    have hread : (read w).1 = (c.toNat : ℤ) := hc
    rw [List.length_cons, reads, hread, ih hl, List.map_cons]

lemma empty_iff : (available w = 0 ∧ (read w).1 = -1 ∧ peek w = -1) ↔
    w.dev.rx.contents = [] := by
  have havailable : available w = w.dev.rx.contents.length := RingBufferN.available_eq _
  have hread : (read w).1 = RingOp.offered w.dev.rx.contents.head? :=
    (RingBufferN.readChar_eq _).1
  have hpeek : peek w = RingOp.offered w.dev.rx.contents.head? := RingBufferN.peek_eq _
  rw [havailable, hread, hpeek, RingBufferN.offered_eq_neg_one_iff, Int.natCast_eq_zero,
    List.length_eq_zero_iff, and_self, and_self]

lemma leavesExactly_of_empty {size : Word} {l : List Byte} (h : w.dev.rx.contents = []) :
    LeavesExactly size l 0 w :=
  ⟨fun _ => empty_iff.mpr h, fun hne => absurd rfl hne⟩

lemma toNat_of_pos {size : Word} (h : 0 < size.toInt.toNat) : size.toInt.toNat = size.toNat := by
  rw [BitVec.toInt_eq_toNat_cond] at h ⊢
  split at h
  · rw [if_pos ‹_›, Int.toNat_natCast]
  · have hlt := size.isLt
    omega

lemma leavesExactly_of_all {size : Word} (bytes : ℕ → List Byte)
    (hlen : ∀ n, (bytes n).length = n) (hcontents : w.dev.rx.contents = bytes size.toInt.toNat)
    (hroom : size.toInt ≤ 255) :
    LeavesExactly size (bytes size.toNat) (BitVec.ofNat 8 size.toInt.toNat) w := by
  by_cases hpos : 0 < size.toInt.toNat
  · have hsize := toNat_of_pos hpos
    rw [hsize] at hcontents ⊢
    have hres : (BitVec.ofNat 8 size.toNat).toNat = size.toNat := by
      rw [BitVec.toNat_ofNat]
      omega
    have havailable : available w = (bytes size.toNat).length := by
      rw [← hcontents]
      exact RingBufferN.available_eq _
    have hreads := reads_eq hcontents
    rw [hlen] at havailable hreads
    constructor
    · intro hzero
      rw [hzero] at hres
      have hnone : (0 : ℕ) = size.toNat := hres
      omega
    · intro _
      exact ⟨hres, havailable, hreads⟩
  · have hzero : size.toInt.toNat = 0 := Nat.eq_zero_of_not_pos hpos
    rw [hzero] at hcontents ⊢
    exact leavesExactly_of_empty (hcontents.trans (List.length_eq_zero_iff.mp (hlen 0)))

lemma requestFrom_refused {P : I2cPort β} {fuel : ℕ} {address : Byte} {size : Word}
    (hlong : 255 < size.toInt) (w : Wire β) : requestFrom P fuel address size true w =
      some (0, ⟨{ w.dev with slaveAddress := address, rx := w.dev.rx.clear }, w.bus⟩) := by
  have hpos : size ≠ 0 := by
    rintro rfl
    exact absurd hlong (by decide)
  have hfull : w.dev.rx.clear.availableForStore < size.toInt := by
    rw [RingBufferN.availableForStore_eq, RingBufferN.contents_clear, List.length_nil]
    omega
  unfold requestFrom
  dsimp only
  rw [if_neg hpos, Bool.not_true, if_neg Bool.false_ne_true, if_pos hfull]

end Buffer

end TwoWire

/-- A read whose address byte is refused receives nothing, and one whose address byte is taken
receives all: `ACKSTAT` stays clear, so that no `_recv()` of it fails. -/
lemma LineState.request_bytes (timeout : Word) (s : LineState) (a : Byte) (n : ℕ) :
    ((s.request timeout a n).1 = 0 ∧ (s.request timeout a n).2.1 = []) ∨
    ((s.request timeout a n).1 = BitVec.ofNat 8 n ∧
      (s.request timeout a n).2.1 = s.answers.bytes n) := by
  by_cases hres : (s.i2cStart timeout a true).1 = 0
  · obtain ⟨hidle, htaken⟩ := (i2cStart_eq_zero_iff a true).mp hres
    have hread := request_of_idle hidle htaken a n
    exact Or.inr ⟨hread.1, hread.2.1⟩
  · left
    rw [request]
    dsimp only
    rw [if_pos hres]
    exact ⟨rfl, rfl⟩

/-- From every driver state and for all answers of the slave: a read that returns 0 has left nothing
in the buffer, and any other has left the bytes received, `size` of them. -/
theorem TwoWire.requestFrom_leaves_exactly {fuel : ℕ} {w : Wire I2cBus} (hcalm : Calm fuel w.bus)
    (address : Byte) {size : Word} (hpos : size ≠ 0) :
    ∃ res w', requestFrom i2cBus fuel address size true w = some (res, w') ∧
      LeavesExactly size (w.bus.answers.bytes size.toNat) res w' := by
  by_cases hroom : size.toInt ≤ 255
  · obtain ⟨w', hrequest, hcontents, -⟩ := requestFrom_shows ⟨hcalm, rfl⟩ address hpos hroom
    refine ⟨_, w', hrequest, ?_⟩
    rcases LineState.request_bytes w.dev.timeout w.bus.line address size.toInt.toNat with
      ⟨hres, hbytes⟩ | ⟨hres, hbytes⟩
    · rw [hres]
      exact leavesExactly_of_empty (hcontents.trans hbytes)
    · rw [hres]
      exact leavesExactly_of_all _ (w.bus.answers.length_bytes ·) (hcontents.trans hbytes) hroom
  · exact ⟨0, _, requestFrom_refused (not_le.mp hroom) w,
      leavesExactly_of_empty (RingBufferN.contents_clear _)⟩

/-- A driver with one byte of an earlier read in its buffer, and a slave that sends 7, 8 and so on.
-/
def oneByteReceived : Wire I2cBus :=
  let w := idleWire.facing { slaveAnswering true with received := fun n => BitVec.ofNat 8 (n + 7) }
  { w with dev := { w.dev with rx := w.dev.rx.storeChar 0x33 } }

theorem requestFrom_leaves_exactly_two : ∃ w',
    TwoWire.requestFrom i2cBus 1 0x21 2 true oneByteReceived = some (2, w') ∧
      TwoWire.available w' = 2 ∧ TwoWire.reads 2 w' = [7, 8] := by
  have hcalm : Calm 1 oneByteReceived.bus := ⟨rfl, rfl, rfl, fun _ => Nat.one_pos⟩
  obtain ⟨res, w', hrequest, hleaves⟩ :=
    TwoWire.requestFrom_leaves_exactly hcalm 0x21 (by decide : (2 : Word) ≠ 0)
  have hresult : (TwoWire.requestFrom i2cBus 1 0x21 2 true oneByteReceived).map (·.1) =
      some 2 := by decide +kernel
  rw [hrequest] at hresult
  obtain rfl : res = 2 := Option.some.inj hresult
  obtain ⟨-, havailable, hreads⟩ := hleaves.complete (by decide)
  exact ⟨w', hrequest, havailable, hreads⟩

end FrameworkXC32
