import FrameworkXC32.Wire.History

/-!
# Acknowledges of a read

What `requestFrom` puts on the bus when nothing goes wrong. `_ack` takes the alias of `I2CxCON` by
adding its argument to the address of the clear alias, so that `_ack(1)` sets `ACKDT`; the plib
routine `I2CAcknowledgeByte` clears it to acknowledge.
-/

namespace FrameworkXC32
open Machine

/-- `I2CAcknowledgeByte` -/
def i2cAcknowledgeByte {β : Type} (P : I2cPort β) (ack : Bool) (b : β) : β :=
  let b := P.write .con (if ack then .clr else .set) conAckdt b
  P.write .con .set conAcken b

/-- `_ack` writes what `I2CAcknowledgeByte` writes for the opposite acknowledge, and waits. -/
lemma TwoWire.ack_eq {β : Type} (P : I2cPort β) (fuel : ℕ) (a : Bool) (b : β) :
    ack P fuel a b = waitCon P conAcken fuel (i2cAcknowledgeByte P (!a) b) := by
  cases a <;> rfl

/-- The bytes of a read with the acknowledges behind them: `more` behind every byte but the last,
`last` behind that one. -/
def readEvents (more last : Bool) : List Byte → List WireEvent
  | [] => []
  | c :: l => .received c :: .ack (if l = [] then last else more) :: readEvents more last l

/-- A read from its START to its STOP. -/
def readTrace (slaveAddress : Byte) (more last : Bool) (l : List Byte) : List WireEvent :=
  .start :: .byte (TwoWire.addressByte slaveAddress true) :: readEvents more last l ++ [.stop]

/-- The `n` bytes that the slave sends. -/
def SlaveAnswers.bytes (a : SlaveAnswers) (n : ℕ) : List Byte := (List.range n).map a.received

lemma SlaveAnswers.bytes_succ (a : SlaveAnswers) (n : ℕ) :
    a.bytes (n + 1) = a.received 0 :: a.dropReceived.bytes n := by
  unfold bytes
  rw [List.range_succ_eq_map, List.map_cons, List.map_map]
  rfl

@[simp] lemma SlaveAnswers.length_bytes (a : SlaveAnswers) (n : ℕ) : (a.bytes n).length = n := by
  rw [bytes, List.length_map, List.length_range]

/-- Reads that acknowledge their last bytes differently are told apart on the bus. -/
lemma last_eq_of_readEvents {more more' last last' : Bool} {l : List Byte} (hl : l ≠ [])
    (h : readEvents more last l = readEvents more' last' l) : last = last' := by
  induction l with
  | nil => exact absurd rfl hl
  | cons c l ih =>
    simp only [readEvents, List.cons.injEq, WireEvent.ack.injEq, true_and] at h
    by_cases hnil : l = []
    · simpa [hnil] using h.1
    · exact ih hnil h.2

namespace LineState

variable {timeout : Word} {s : LineState}

lemma recvAll_of_idle (h : s.idle timeout = 0) (n : ℕ) :
    (s.recvAll timeout n).1 = true ∧ (s.recvAll timeout n).2.1 = s.answers.bytes n ∧
    (s.recvAll timeout n).2.2.wire = s.wire ++ readEvents false true (s.answers.bytes n) := by
  induction n generalizing s with
  | zero => exact ⟨rfl, rfl, (List.append_nil _).symm⟩
  | succ n ih =>
    obtain ⟨hok, hbytes, hwire⟩ := @ih ((({ s with answers := s.answers.dropReceived } :
      LineState).put (.received (s.answers.received 0))).put (.ack (n = 0))) h
    rw [SlaveAnswers.bytes_succ]
    simp only [recvAll, recv, h, ne_eq, not_true, if_false]
    rw [if_neg (by omega)]
    refine ⟨hok, ?_, ?_⟩
    · rw [hbytes, TwoWire.ofInt_toNat]
      rfl
    · rw [hwire]
      simp only [put, List.append_assoc]
      have hlast : (s.answers.dropReceived.bytes n = []) ↔ n = 0 := by
        rw [← List.length_eq_zero_iff, SlaveAnswers.length_bytes]
      simp only [readEvents, hlast]
      by_cases hn : n = 0 <;> simp [hn]

lemma request_of_idle (h : s.idle timeout = 0)
    (haddress : (s.answers.sent 0).result timeout.toNat = 0) (a : Byte) (n : ℕ) :
    (s.request timeout a n).1 = BitVec.ofNat 8 n ∧
    (s.request timeout a n).2.1 = s.answers.bytes n ∧
    (s.request timeout a n).2.2.wire =
      s.wire ++ readTrace a false true (s.answers.bytes n) := by
  have hput : (s.put .start).idle timeout = 0 := h
  have hidle := idle_transmit hput haddress (TwoWire.addressByte a true)
  have hstart := i2cStart_taken h haddress a true
  obtain ⟨hok, hbytes, hwire⟩ := recvAll_of_idle hidle n
  have hwire₀ : ((s.put .start).transmit (TwoWire.addressByte a true)).wire =
      s.wire ++ [.start, .byte (TwoWire.addressByte a true)] := by
    have hsent := i2cStart_sent h a true (ByteAnswer.taken haddress).1
    rw [hstart] at hsent
    exact hsent
  have hanswers : ((s.put .start).transmit (TwoWire.addressByte a true)).answers.bytes n =
      s.answers.bytes n := by
    rw [answers_transmit]
    rfl
  simp only [request, hstart, ne_eq, not_true, if_false, hok, hbytes, hanswers, if_true]
  refine ⟨by rw [SlaveAnswers.length_bytes], trivial, ?_⟩
  rw [put, hwire, hwire₀, hanswers, readTrace]
  simp

end LineState

section Reads

variable {fuel : ℕ} {w : Wire I2cBus}

/-- A read of `n` bytes that nothing disturbs returns `n`, but every byte except the last is
refused and the last one is acknowledged: never the trace that the protocol asks for. -/
theorem read_acknowledges_inverted (hcalm : Calm fuel w.bus) (hackstat : w.bus.ackstat = false)
    (htimeout : w.dev.timeout ≠ 1)
    (haddress : (w.bus.answers.sent 0).result w.dev.timeout.toNat = 0) (address : Byte) {n : ℕ}
    (hpos : 1 ≤ n) (hroom : n ≤ 255) :
    ∃ w', TwoWire.requestFrom i2cBus fuel address (BitVec.ofNat 32 n) true w =
        some (BitVec.ofNat 8 n, w') ∧
      w'.bus.wire = w.bus.wire ++ readTrace address false true (w.bus.answers.bytes n) ∧
      w'.bus.wire ≠ w.bus.wire ++ readTrace address true false (w.bus.answers.bytes n) := by
  have hsize : (BitVec.ofNat 32 n).toInt = n := by
    rw [BitVec.toInt_eq_toNat_of_lt] <;> rw [BitVec.toNat_ofNat] <;> omega
  have hne : BitVec.ofNat 32 n ≠ 0 := by
    intro hzero
    rw [hzero] at hsize
    simp at hsize
    omega
  have hidle : w.bus.line.idle w.dev.timeout = 0 :=
    LineState.idle_eq_zero_iff.mpr ⟨htimeout, hackstat⟩
  obtain ⟨w', hrequest, -, hshows⟩ :=
    requestFrom_shows ⟨hcalm, rfl⟩ address hne (by rw [hsize]; omega)
  rw [hsize, Int.toNat_natCast] at hrequest hshows
  obtain ⟨hres, -, hwire⟩ := LineState.request_of_idle hidle haddress address n
  have htrace : w'.bus.wire =
      w.bus.wire ++ readTrace address false true (w.bus.answers.bytes n) :=
    (congrArg LineState.wire hshows.line).trans hwire
  refine ⟨w', by rw [hrequest, hres], htrace, ?_⟩
  rw [htrace]
  intro hsame
  have hevents := List.append_cancel_right
    (List.cons.inj (List.cons.inj (List.append_cancel_left hsame)).2).2
  have hbytes : w.bus.answers.bytes n ≠ [] := by
    rw [ne_eq, ← List.length_eq_zero_iff, SlaveAnswers.length_bytes]
    omega
  exact absurd (last_eq_of_readEvents hbytes hevents) (by decide)

end Reads

/-- Of two bytes read on the idle bus the first is refused and the second acknowledged. -/
theorem read_acknowledges_inverted_two :
    ∃ w', TwoWire.requestFrom i2cBus 1 0x21 2 true idleWire = some (2, w') ∧
      w'.bus.wire =
        [.start, .byte 0x43, .received 0, .ack false, .received 0, .ack true, .stop] ∧
      w'.bus.wire ≠
        [.start, .byte 0x43, .received 0, .ack true, .received 0, .ack false, .stop] :=
  read_acknowledges_inverted calm_idleWire rfl (by decide) (by decide) 0x21 (Nat.le_succ 1)
    (by decide)

/-- Not every undisturbed read acknowledges its bytes but the last. -/
theorem reads_not_acknowledged : ¬ ∀ (fuel : ℕ) (w w' : Wire I2cBus) (address res : Byte) (n : ℕ),
    Calm fuel w.bus → w.bus.ackstat = false → w.dev.timeout ≠ 1 →
    (w.bus.answers.sent 0).result w.dev.timeout.toNat = 0 → 1 ≤ n → n ≤ 255 →
    TwoWire.requestFrom i2cBus fuel address (BitVec.ofNat 32 n) true w = some (res, w') →
    res = BitVec.ofNat 8 n ∧
      w'.bus.wire = w.bus.wire ++ readTrace address true false (w.bus.answers.bytes n) := by
  intro h
  have hread : (TwoWire.requestFrom i2cBus 1 0x21 (BitVec.ofNat 32 1) true idleWire).map
      (fun r => r.2.bus.wire) = some [.start, .byte 0x43, .received 0, .ack true, .stop] := by
    decide +kernel
  obtain ⟨⟨res, w'⟩, hrequest, hwire⟩ := Option.map_eq_some_iff.mp hread
  have hproper := (h 1 idleWire w' 0x21 res 1 calm_idleWire rfl (by decide) (by decide)
    (Nat.le_refl 1) (by decide) hrequest).2
  rw [hwire] at hproper
  exact absurd hproper (by decide +kernel)

end FrameworkXC32
