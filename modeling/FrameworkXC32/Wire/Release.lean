import FrameworkXC32.Wire.History

/-!
# Release of the I2C bus

The START and STOP conditions that a call of the driver puts on the bus, for every answer of the
slave to every byte.
-/

namespace FrameworkXC32
open Machine

/-- The byte goes out without a collision, `TBF` and `TRSTAT` clear within the polls that the two
waits have together, and the slave acknowledges. -/
structure ByteAnswer.Taken (timeout : ℕ) (a : ByteAnswer) : Prop where
  collision : a.collision = false
  tbf : a.tbf ≤ timeout + 1
  trstat : a.trstat ≤ timeout + 2
  ack : a.ack = true

lemma ByteAnswer.result_eq_zero_iff {timeout : ℕ} {a : ByteAnswer} :
    a.result timeout = 0 ↔ a.Taken timeout := by
  constructor
  · intro h
    obtain ⟨hcollision, hack⟩ := ByteAnswer.taken h
    unfold result at h
    split_ifs at h with _ htbf htrstat
    refine ⟨hcollision, ?_, ?_, hack⟩
    · omega
    · omega
  · intro h
    obtain ⟨hcollision, htbf, htrstat, hack⟩ := h
    have hsent : ¬timeout < a.tbf - 1 := by omega
    have hdone : ¬timeout - (a.tbf - 1) < a.trstat - 1 - (a.tbf - 1 + 1) := by omega
    unfold result
    rw [hcollision, hack, if_neg Bool.false_ne_true, if_neg hsent, if_neg hdone, if_pos rfl]

namespace LineState

variable {timeout : Word} {s : LineState}

/-- The START and the STOP conditions on the bus so far. -/
def conditions (s : LineState) : ℕ × ℕ := (s.wire.count .start, s.wire.count .stop)

lemma conditions_put {e : WireEvent} (hstart : e ≠ .start) (hstop : e ≠ .stop) (s : LineState) :
    (s.put e).conditions = s.conditions := by
  simp [conditions, put, List.count_append, hstart, hstop]

lemma conditions_start (s : LineState) :
    (s.put .start).conditions = (s.conditions.1 + 1, s.conditions.2) := by
  simp [conditions, put, List.count_append]

lemma conditions_stop (s : LineState) :
    (s.put .stop).conditions = (s.conditions.1, s.conditions.2 + 1) := by
  simp [conditions, put, List.count_append]

lemma conditions_send (timeout : Word) (c : Byte) (s : LineState) :
    (s.send timeout c).2.conditions = s.conditions := by
  unfold send
  split
  · rfl
  · unfold transmit
    dsimp only
    split
    · rfl
    · exact conditions_put (by simp) (by simp) _

lemma conditions_sendAll (timeout : Word) (l : List Byte) (s : LineState) :
    (s.sendAll timeout l).2.conditions = s.conditions := by
  induction l generalizing s with
  | nil => rfl
  | cons c l ih =>
    rw [sendAll]
    dsimp only
    split
    · exact conditions_send timeout c s
    · rw [ih, conditions_send]

lemma conditions_recvAll (timeout : Word) (n : ℕ) (s : LineState) :
    (s.recvAll timeout n).2.2.conditions = s.conditions := by
  induction n generalizing s with
  | zero => rfl
  | succ n ih =>
    have hrecv : (s.recv timeout).2.conditions = s.conditions := by
      unfold recv
      split
      · rfl
      · exact conditions_put (by simp) (by simp) _
    rw [recvAll]
    dsimp only
    split
    · exact hrecv
    · rw [ih, conditions_put (by simp) (by simp), hrecv]

lemma conditions_i2cStart (timeout : Word) (a : Byte) (op : Bool) (s : LineState) :
    (s.i2cStart timeout a op).2.conditions = (s.conditions.1 + 1, s.conditions.2) := by
  unfold i2cStart
  dsimp only
  split <;> rw [conditions_send, conditions_start]

lemma conditions_request (timeout : Word) (a : Byte) (n : ℕ) (s : LineState) :
    (s.request timeout a n).2.2.conditions = (s.conditions.1 + 1, s.conditions.2 + 1) := by
  unfold request
  dsimp only
  split
  · rw [conditions_stop, conditions_i2cStart]
  · rw [conditions_stop, conditions_recvAll, conditions_i2cStart]

lemma sendAll_iff (hidle : s.idle timeout = 0) (l : List Byte) :
    (s.sendAll timeout l).1 = true ↔
      ∀ k < l.length, (s.answers.sent k).result timeout.toNat = 0 := by
  induction l generalizing s with
  | nil => exact iff_of_true rfl fun k hk => absurd hk (Nat.not_lt_zero k)
  | cons c l ih =>
    rw [sendAll, send_of_idle hidle]
    dsimp only
    split
    · rename_i hres
      refine iff_of_false Bool.false_ne_true fun hall => ?_
      exact hres (hall 0 (Nat.succ_pos _))
    · rename_i hres
      rw [ih (idle_transmit hidle (not_not.mp hres) c), answers_transmit]
      constructor
      · intro hall k hk
        cases k with
        | zero => exact not_not.mp hres
        | succ k => exact hall k (Nat.lt_of_succ_lt_succ hk)
      · intro hall k hk
        exact hall (k + 1) (Nat.succ_lt_succ hk)

/-- A write that sends something stops the bus when the slave takes all of it, and only then. -/
lemma conditions_write (timeout : Word) {data : List Byte} (hdata : data ≠ []) (a : Byte)
    (s : LineState) :
    ((s.idle timeout = 0 ∧ ∀ k ≤ data.length, (s.answers.sent k).result timeout.toNat = 0) →
      (s.write timeout a data).2.conditions = (s.conditions.1 + 1, s.conditions.2 + 1)) ∧
    (¬(s.idle timeout = 0 ∧ ∀ k ≤ data.length, (s.answers.sent k).result timeout.toNat = 0) →
      (s.write timeout a data).2.conditions = (s.conditions.1 + 1, s.conditions.2)) := by
  rw [write, if_neg hdata]
  dsimp only
  split
  · rename_i hres
    refine ⟨fun htaken => ?_, fun _ => conditions_i2cStart timeout a false s⟩
    exact absurd ((i2cStart_eq_zero_iff a false).mpr ⟨htaken.1, htaken.2 0 (Nat.zero_le _)⟩) hres
  · rename_i hres
    obtain ⟨hidle, htaken⟩ := (i2cStart_eq_zero_iff a false).mp (not_not.mp hres)
    have hall := sendAll_iff (idle_transmit (s := s.put .start) hidle htaken
      (TwoWire.addressByte a false)) data
    have hquiet := conditions_sendAll timeout data (s.i2cStart timeout a false).2
    rw [conditions_i2cStart] at hquiet
    rw [i2cStart_taken hidle htaken] at hquiet ⊢
    rw [answers_transmit] at hall
    split
    · rename_i hok
      have hstop := conditions_stop
        (((s.put .start).transmit (TwoWire.addressByte a false)).sendAll timeout data).2
      rw [hquiet] at hstop
      refine ⟨fun _ => hstop, fun hno => absurd ⟨hidle, fun k hk => ?_⟩ hno⟩
      cases k with
      | zero => exact htaken
      | succ k => exact hall.mp hok k hk
    · rename_i hok
      refine ⟨fun hyes => absurd (hall.mpr fun k hk => ?_) hok, fun _ => hquiet⟩
      exact hyes.2 (k + 1) hk

end LineState

/-! ### Calls -/

/-- The call is a read, sends nothing, or finds `ACKSTAT` clear and a slave that takes its address
byte and all of its data in time. -/
def WireCall.Undisturbed (dev : TwoWire) (ackstat : Bool) (answers : SlaveAnswers) :
    WireCall → Prop
  | .requestFrom _ _ _ => True
  | .endTransmission stopBit => stopBit = true → dev.tx.contents ≠ [] →
    dev.timeout ≠ 1 ∧ ackstat = false ∧
      ∀ k ≤ dev.tx.contents.length, (answers.sent k).Taken dev.timeout.toNat

lemma WireCall.released_iff (dev : TwoWire) (ackstat : Bool) (answers : SlaveAnswers)
    (call : WireCall) :
    (0 < (call.transaction dev ⟨ackstat, answers, []⟩).2.conditions.1 →
      (call.transaction dev ⟨ackstat, answers, []⟩).2.conditions.2 = 1) ↔
      call.Undisturbed dev ackstat answers := by
  by_cases hstarts : call.Starts dev
  · cases call with
    | requestFrom address size stopBit =>
      simp only [Starts] at hstarts
      simp only [transaction, if_pos hstarts, LineState.conditions_request]
      exact iff_of_true (fun _ => rfl) trivial
    | endTransmission stopBit =>
      obtain ⟨rfl, hdata⟩ := hstarts
      obtain ⟨hall, hsome⟩ := LineState.conditions_write dev.timeout hdata
        dev.slaveAddress ⟨ackstat, answers, []⟩
      simp only [LineState.idle_eq_zero_iff, ByteAnswer.result_eq_zero_iff, and_assoc]
        at hall hsome
      simp only [transaction, if_true, Undisturbed, forall_true_left]
      constructor
      · intro hreleased _
        by_contra hrefused
        rw [hsome hrefused] at hreleased
        exact absurd (hreleased Nat.one_pos) Nat.zero_ne_one
      · intro htaken _
        rw [hall (htaken hdata)]
        rfl
  · obtain ⟨res, hsilent⟩ := transaction_silent hstarts
    rw [hsilent]
    refine iff_of_true (fun hstart => absurd hstart (Nat.lt_irrefl 0)) ?_
    cases call with
    | requestFrom address size stopBit => trivial
    | endTransmission stopBit =>
      intro hstop hdata
      exact absurd ⟨hstop, hdata⟩ hstarts

/-- A call that issues a START issues exactly one STOP exactly when it is a read, sends nothing, or
finds `ACKSTAT` clear and every byte taken: `endTransmission` returns from a refused byte without
`_stop()`. -/
theorem bus_released_iff {fuel : ℕ} {w : Wire I2cBus} (hcalm : Calm fuel w.bus)
    (answers : SlaveAnswers) (call : WireCall) :
    ∃ res wire, call.outcome fuel answers w = some (res, wire) ∧
      ((0 < wire.count .start → wire.count .stop = 1) ↔
        call.Undisturbed w.dev w.bus.ackstat answers) := by
  have hsettled : Settled fuel w.dev.timeout w := ⟨hcalm, rfl⟩
  exact ⟨_, _, hsettled.outcome answers call, call.released_iff w.dev w.bus.ackstat answers⟩

/-- A driver with one byte in its buffer. -/
def oneByteBuffered : Wire I2cBus :=
  { idleWire with dev := { idleWire.dev with tx := idleWire.dev.tx.storeChar 0x55 } }

theorem bus_released_when_acknowledged : ∃ res wire,
    (WireCall.endTransmission true).outcome 1 (slaveAnswering true) oneByteBuffered =
      some (res, wire) ∧ (0 < wire.count .start → wire.count .stop = 1) := by
  obtain ⟨res, wire, houtcome, hiff⟩ := bus_released_iff (w := oneByteBuffered) calm_idleWire
    (slaveAnswering true) (.endTransmission true)
  have htaken : (⟨false, 1, 2, true⟩ : ByteAnswer).Taken 5 := ⟨rfl, by decide, by decide, rfl⟩
  refine ⟨res, wire, houtcome, hiff.mpr ?_⟩
  intro _ _
  exact ⟨by decide, rfl, fun _ _ => htaken⟩

/-- The slave does not acknowledge its address: START, the address byte, and no STOP. -/
theorem bus_held_after_nack : ¬ ∀ (fuel : ℕ) (w : Wire I2cBus) (answers : SlaveAnswers)
    (call : WireCall) (res : Byte) (wire : List WireEvent), Calm fuel w.bus →
    call.outcome fuel answers w = some (res, wire) →
    0 < wire.count .start → wire.count .stop = 1 := by
  intro hall
  have hrun : (WireCall.endTransmission true).outcome 1 (slaveAnswering false) oneByteBuffered =
      some (4, [.start, .byte 0x78]) := by decide +kernel
  have hstop := hall 1 oneByteBuffered _ _ _ _ calm_idleWire hrun (by decide)
  exact absurd hstop (by decide)

end FrameworkXC32
