import FrameworkXC32.Wire.Bus

/-!
# Transactions

What a call of the driver amounts to on the bus of `Wire.Bus`: its result and the events on the
lines, as functions of the data, the answers of the slave and the acknowledge that `ACKSTAT` still
shows from before. The driver, with its polling loops and ring buffers, refines them.
-/

namespace FrameworkXC32
open Machine

/-- The part of the bus that transactions depend on. -/
structure LineState where
  ackstat : Bool
  answers : SlaveAnswers
  wire : List WireEvent

namespace LineState

def put (e : WireEvent) (s : LineState) : LineState := { s with wire := s.wire ++ [e] }

/-- The timeout of `_idle` is met at its first poll when it is its last one. -/
def idle (timeout : Word) (s : LineState) : ℤ :=
  if timeout = 1 then -1 else if s.ackstat then -2 else 0

end LineState

/-- The result of `_send` behind a byte that was written to `I2CxTRN`. -/
def ByteAnswer.result (timeout : ℕ) (a : ByteAnswer) : ℤ :=
  if a.collision then -2
  else if timeout < a.tbf - 1 then -3
  else if timeout - (a.tbf - 1) < a.trstat - 1 - (a.tbf - 1 + 1) then -4
  else if a.ack then 0 else -5

namespace LineState

def transmit (c : Byte) (s : LineState) : LineState :=
  let s' := { s with answers := s.answers.dropSent }
  if (s.answers.sent 0).collision then s'
  else { s' with ackstat := !(s.answers.sent 0).ack }.put (.byte c)

def send (timeout : Word) (data : Byte) (s : LineState) : ℤ × LineState :=
  if s.idle timeout ≠ 0 then (-1, s)
  else ((s.answers.sent 0).result timeout.toNat, s.transmit data)

/-- A byte received, or -1. -/
def recv (timeout : Word) (s : LineState) : ℤ × LineState :=
  if s.idle timeout ≠ 0 then (-1, s)
  else
    let c := s.answers.received 0
    (c.toNat, { s with answers := s.answers.dropReceived }.put (.received c))

def i2cStart (timeout : Word) (slaveAddress : Byte) (operation : Bool) (s : LineState) :
    ℤ × LineState :=
  let (res, s) := (s.put .start).send timeout (TwoWire.addressByte slaveAddress operation)
  if res ≠ 0 then (res, s) else (s.idle timeout, s)

def sendAll (timeout : Word) : List Byte → LineState → Bool × LineState
  | [], s => (true, s)
  | c :: l, s =>
    let (res, s) := s.send timeout c
    if res ≠ 0 then (false, s) else sendAll timeout l s

def recvAll (timeout : Word) : ℕ → LineState → Bool × List Byte × LineState
  | 0, s => (true, [], s)
  | n + 1, s =>
    let (data, s) := s.recv timeout
    if data < 0 then (false, [], s)
    else
      let (ok, l, s) := recvAll timeout n (s.put (.ack (n = 0)))
      (ok, BitVec.ofInt 8 data :: l, s)

/-- `endTransmission(true)` of some data. -/
def write (timeout : Word) (slaveAddress : Byte) (data : List Byte) (s : LineState) :
    Byte × LineState :=
  if data = [] then (2, s)
  else
    let (res, s) := s.i2cStart timeout slaveAddress false
    if res ≠ 0 then (4, s)
    else
      let (ok, s) := s.sendAll timeout data
      if ok then (0, s.put .stop) else (3, s)

/-- `requestFrom` of `n` bytes, with the bytes it leaves in the receive buffer. -/
def request (timeout : Word) (slaveAddress : Byte) (n : ℕ) (s : LineState) :
    Byte × List Byte × LineState :=
  let (res, s) := s.i2cStart timeout slaveAddress true
  if res ≠ 0 then (0, [], s.put .stop)
  else
    let (ok, l, s) := s.recvAll timeout n
    (if ok then BitVec.ofNat 8 l.length else 0, l, s.put .stop)

end LineState

/-! ### The bus that stands for a line state -/

/-- The bus between two operations of the driver: no command is in progress, and the hardware
completes commands within `fuel` polls. -/
structure Calm (fuel : ℕ) (b : I2cBus) : Prop where
  polls : b.polls = 0
  con : b.con &&& 0b11111 = 0
  iwcol : b.iwcol = false
  delays : ∀ n, b.delays n < fuel

def I2cBus.line (b : I2cBus) : LineState := ⟨b.ackstat, b.answers, b.wire⟩

/-- The bus is calm and stands for the line state. -/
structure Shows (fuel : ℕ) (s : LineState) (b : I2cBus) : Prop where
  calm : Calm fuel b
  line : b.line = s

namespace I2cBus

lemma sta_tbf (b : I2cBus) : b.sta &&& staTbf ≠ 0 ↔ b.tbf ≠ 0 := by
  have hbit : ∀ t i r a, statusWord t i r a &&& staTbf ≠ 0 ↔ t = true := by decide
  exact (hbit _ _ _ _).trans decide_eq_true_iff

lemma sta_iwcol (b : I2cBus) : b.sta &&& staIwcol ≠ 0 ↔ b.iwcol = true := by
  have hbit : ∀ t i r a, statusWord t i r a &&& staIwcol ≠ 0 ↔ i = true := by decide
  exact hbit _ _ _ _

lemma sta_trstat (b : I2cBus) : b.sta &&& staTrstat ≠ 0 ↔ b.trstat ≠ 0 := by
  have hbit : ∀ t i r a, statusWord t i r a &&& staTrstat ≠ 0 ↔ r = true := by decide
  exact (hbit _ _ _ _).trans decide_eq_true_iff

lemma sta_ackstat (b : I2cBus) : b.sta &&& staAckstat ≠ 0 ↔ b.ackstat = true := by
  have hbit : ∀ t i r a, statusWord t i r a &&& staAckstat ≠ 0 ↔ a = true := by decide
  exact hbit _ _ _ _

lemma writeSta_iwcol (b : I2cBus) :
    b.writeSta (regClr b.sta staIwcol) = { b with iwcol := false } := by
  have hbits : ∀ t i r a, (regClr (statusWord t i r a) staIwcol &&& staIwcol = 0) ∧
      (regClr (statusWord t i r a) staIwcol &&& staAckstat ≠ 0 ↔ a = true) := by decide
  obtain ⟨hiwcol, hackstat⟩ := hbits (b.tbf ≠ 0) b.iwcol (b.trstat ≠ 0) b.ackstat
  unfold writeSta sta
  simp only [hiwcol, hackstat]
  simp

@[simp] lemma tick_tick (m n : ℕ) (b : I2cBus) : (b.tick m).tick n = b.tick (m + n) := by
  simp [tick, Nat.sub_sub]

end I2cBus

/-! ### Waits -/

section Waits

variable {fuel : ℕ}

lemma Shows.tick {s : LineState} {b : I2cBus} (h : Shows fuel s b) (n : ℕ) :
    Shows fuel s (b.tick n) :=
  ⟨⟨h.calm.polls, h.calm.con, h.calm.iwcol, h.calm.delays⟩, h.line⟩

lemma waitSta_eq {mask : Word} {left : I2cBus → ℕ}
    (hset : ∀ b, b.sta &&& mask ≠ 0 ↔ left b ≠ 0) (htick : ∀ b, left (b.tick 1) = left b - 1)
    (T : ℕ) (b : I2cBus) : TwoWire.waitSta i2cBus mask T b =
      if T < left b then (none, b.tick (T + 1)) else (some (T - left b), b.tick (left b + 1)) := by
  induction T generalizing b with
  | zero =>
    unfold TwoWire.waitSta
    simp only [i2cBus_read_sta, hset]
    by_cases h : left b = 0
    · simp [h]
    · simp [h, Nat.pos_of_ne_zero h]
  | succ T ih =>
    unfold TwoWire.waitSta
    simp only [i2cBus_read_sta, hset]
    by_cases h : left b = 0
    · simp [h]
    · have hih := ih (b.tick 1)
      simp only [htick, I2cBus.tick_tick] at hih
      rw [if_pos h, hih]
      by_cases hlt : T + 1 < left b
      · rw [if_pos (by omega), if_pos hlt]
        rw [Nat.add_comm 1]
      · rw [if_neg (by omega), if_neg hlt]
        have hleft : T - (left b - 1) = T + 1 - left b := by omega
        have hpolls : 1 + (left b - 1 + 1) = left b + 1 := by omega
        rw [hleft, hpolls]

lemma waitCon_eq (command : Word) (hcommand : command &&& 0b11111 = command) (hset : command ≠ 0)
    {b : I2cBus} (hb : b.command = command) (hcon : b.con &&& 0b11111 = 0)
    (hpolls : b.polls < fuel) :
    TwoWire.waitCon i2cBus command fuel b = some { b with polls := 0 } := by
  have hclear : b.con &&& command = 0 := by
    rw [← hcommand, BitVec.and_comm command, ← BitVec.and_assoc, hcon]
    exact BitVec.zero_and
  have hbusy : (b.con ||| command) &&& command = command := by
    apply BitVec.eq_of_getLsbD_eq
    intro i hi
    rw [BitVec.getLsbD_and, BitVec.getLsbD_or]
    cases b.con.getLsbD i <;> cases command.getLsbD i <;> rfl
  induction fuel generalizing b with
  | zero => omega
  | succ fuel ih =>
    unfold TwoWire.waitCon
    by_cases h : b.polls = 0
    · simp [h, hclear]
    · have hih := ih (b := { b with polls := b.polls - 1 }) hb hcon (by dsimp only; omega)
        hclear hbusy
      have hread : (b.con ||| if b.polls ≠ 0 then b.command else 0) &&& command ≠ 0 := by
        rw [if_pos h, hb, hbusy]
        exact hset
      rw [i2cBus_read_con]
      dsimp only
      rw [if_pos hread]
      exact hih

end Waits

/-! ### Refinement of the private functions -/

section Private

variable {fuel : ℕ} {s : LineState} {b : I2cBus}

lemma Shows.command {command : Word} {e : WireEvent} (h : Shows fuel s b)
    (hcommand : command &&& 0b11111 = command) (hset : command ≠ 0)
    (hissue : b.setCon command = (b.issue command).emit e) :
    ∃ b', TwoWire.waitCon i2cBus command fuel (i2cBus.write .con .set command b) = some b' ∧
      Shows fuel (s.put e) b' := by
  have hwait : TwoWire.waitCon i2cBus command fuel ((b.issue command).emit e) =
      some { (b.issue command).emit e with polls := 0 } :=
    waitCon_eq command hcommand hset rfl h.calm.con (h.calm.delays 0)
  refine ⟨{ (b.issue command).emit e with polls := 0 }, ?_,
    ⟨rfl, h.calm.con, h.calm.iwcol, fun n => h.calm.delays (n + 1)⟩, ?_⟩
  · rw [i2cBus_write_con_set, hissue]
    exact hwait
  · rw [← h.line]
    rfl

lemma start_shows (h : Shows fuel s b) :
    ∃ b', TwoWire.start i2cBus fuel b = some b' ∧ Shows fuel (s.put .start) b' :=
  h.command (by decide) (by decide) rfl

lemma stop_shows (h : Shows fuel s b) :
    ∃ b', TwoWire.stop i2cBus fuel b = some b' ∧ Shows fuel (s.put .stop) b' :=
  h.command (by decide) (by decide) rfl

lemma Calm.read_con (h : Calm fuel b) : i2cBus.read .con b = (b.con, b) := by
  have hpolls := h.polls
  cases b
  simp only at hpolls
  simp [hpolls]

lemma idleLoop_calm (h : Calm fuel b) (T : ℕ) : TwoWire.idleLoop i2cBus T b =
    (if T = 0 then 0xFFFFFFFF else BitVec.ofNat 32 (T - 1), b) := by
  cases T with
  | zero => rfl
  | succ T =>
    unfold TwoWire.idleLoop
    simp only [h.read_con, h.con]
    simp

lemma idle_shows (h : Shows fuel s b) (timeout : Word) :
    (TwoWire.idle i2cBus timeout b).1 = s.idle timeout ∧
      Shows fuel s (TwoWire.idle i2cBus timeout b).2 := by
  have hlast : (if timeout.toNat = 0 then 0xFFFFFFFF else BitVec.ofNat 32 (timeout.toNat - 1)) =
      (0 : Word) ↔ timeout = 1 := by
    have hlt := timeout.isLt
    rw [← BitVec.toNat_inj, ← BitVec.toNat_inj (y := (1 : Word))]
    split
    · rename_i hzero
      simp [hzero]
    · rename_i hpos
      rw [BitVec.toNat_ofNat, Nat.mod_eq_of_lt (by omega)]
      simp
      omega
  have hackstat : b.ackstat = s.ackstat := by rw [← h.line]; rfl
  simp only [TwoWire.idle, LineState.idle, idleLoop_calm h.calm, hlast]
  split
  · exact ⟨rfl, h⟩
  · simp only [i2cBus_read_sta, I2cBus.sta_ackstat, hackstat]
    exact ⟨trivial, h.tick 1⟩

lemma transmit_collided (h : Shows fuel s b) (data : Byte)
    (hcollision : (s.answers.sent 0).collision = true) :
    (b.transmit data).iwcol = true ∧
      Shows fuel (s.transmit data) { (b.transmit data).tick 1 with iwcol := false } := by
  obtain ⟨hcalm, rfl⟩ := h
  have hcollision' : (b.answers.sent 0).collision = true := hcollision
  simp only [I2cBus.transmit, LineState.transmit, hcollision, hcollision', if_true]
  exact ⟨trivial, ⟨hcalm.polls, hcalm.con, rfl, hcalm.delays⟩, rfl⟩

lemma transmit_sent (h : Shows fuel s b) (data : Byte)
    (hcollision : (s.answers.sent 0).collision = false) :
    (b.transmit data).tbf = (s.answers.sent 0).tbf ∧
      (b.transmit data).trstat = (s.answers.sent 0).trstat ∧
      (b.transmit data).ackstat = !(s.answers.sent 0).ack ∧
      Shows fuel (s.transmit data) (b.transmit data) := by
  obtain ⟨hcalm, rfl⟩ := h
  have hcollision' : (b.answers.sent 0).collision = false := hcollision
  simp only [I2cBus.transmit, LineState.transmit, hcollision, hcollision', Bool.false_eq_true,
    if_false]
  exact ⟨rfl, rfl, rfl, ⟨hcalm.polls, hcalm.con, hcalm.iwcol, hcalm.delays⟩, rfl⟩

lemma send_shows (h : Shows fuel s b) (timeout : Word) (data : Byte) :
    (TwoWire.send i2cBus timeout data b).1 = (s.send timeout data).1 ∧
      Shows fuel (s.send timeout data).2 (TwoWire.send i2cBus timeout data b).2 := by
  obtain ⟨hidle, hshows⟩ := idle_shows h timeout
  have hdata : (data.setWidth 32).setWidth 8 = data := by
    simp
  simp only [TwoWire.send, LineState.send, hidle]
  split
  · exact ⟨rfl, hshows⟩
  · simp only [i2cBus_write_trn, hdata, i2cBus_read_sta, I2cBus.sta_iwcol]
    cases hcollision : (s.answers.sent 0).collision with
    | true =>
      obtain ⟨hiwcol, hafter⟩ := transmit_collided hshows data hcollision
      rw [if_pos hiwcol, i2cBus_write_sta_clr, I2cBus.writeSta_iwcol]
      refine ⟨?_, hafter⟩
      simp [ByteAnswer.result, hcollision]
    | false =>
      obtain ⟨htbf, htrstat, hackstat, hafter⟩ := transmit_sent hshows data hcollision
      have hiwcol := hafter.calm.iwcol
      generalize (TwoWire.idle i2cBus timeout b).2.transmit data = b' at *
      rw [if_neg (by simp [hiwcol])]
      have hwait := waitSta_eq I2cBus.sta_tbf (fun _ => rfl) timeout.toNat (b'.tick 1)
      have htbf' : (b'.tick 1).tbf = (s.answers.sent 0).tbf - 1 := congrArg (· - 1) htbf
      simp only [htbf', I2cBus.tick_tick] at hwait
      rw [hwait]
      simp only [ByteAnswer.result, hcollision, Bool.false_eq_true, if_false]
      by_cases hlate : timeout.toNat < (s.answers.sent 0).tbf - 1
      · simp only [if_pos hlate]
        exact ⟨trivial, hafter.tick _⟩
      · simp only [if_neg hlate]
        have hwait' := waitSta_eq I2cBus.sta_trstat (fun _ => rfl)
          (timeout.toNat - ((s.answers.sent 0).tbf - 1))
          (b'.tick (1 + ((s.answers.sent 0).tbf - 1 + 1)))
        have htrstat' : (b'.tick (1 + ((s.answers.sent 0).tbf - 1 + 1))).trstat =
            (s.answers.sent 0).trstat - 1 - ((s.answers.sent 0).tbf - 1 + 1) := by
          rw [← htrstat, Nat.sub_sub]
          rfl
        simp only [htrstat', I2cBus.tick_tick] at hwait'
        rw [hwait']
        by_cases hlate' : timeout.toNat - ((s.answers.sent 0).tbf - 1) <
            (s.answers.sent 0).trstat - 1 - ((s.answers.sent 0).tbf - 1 + 1)
        · simp only [if_pos hlate']
          exact ⟨trivial, hafter.tick _⟩
        · simp only [if_neg hlate', I2cBus.sta_ackstat]
          refine ⟨?_, (hafter.tick _).tick 1⟩
          have hlast : ∀ n, (b'.tick n).ackstat = !(s.answers.sent 0).ack := fun n => hackstat
          rw [hlast]
          cases (s.answers.sent 0).ack <;> rfl

lemma recv_shows (h : Shows fuel s b) (timeout : Word) :
    ∃ b', TwoWire.recv i2cBus fuel timeout b = some ((s.recv timeout).1, b') ∧
      Shows fuel (s.recv timeout).2 b' := by
  obtain ⟨hidle, hshows⟩ := idle_shows h timeout
  generalize hb' : (TwoWire.idle i2cBus timeout b).2 = b' at hshows
  simp only [TwoWire.recv, LineState.recv, hidle, hb']
  split
  · exact ⟨b', rfl, hshows⟩
  · obtain ⟨hcalm, rfl⟩ := hshows
    have hwait : TwoWire.waitCon i2cBus conRcen fuel (b'.issue conRcen).receive =
        some { (b'.issue conRcen).receive with polls := 0 } :=
      waitCon_eq conRcen (by decide) (by decide) rfl hcalm.con (hcalm.delays 0)
    have hset : i2cBus.write .con .set conRcen b' = (b'.issue conRcen).receive := rfl
    rw [hset, hwait]
    refine ⟨{ (b'.issue conRcen).receive with polls := 0 }, ?_,
      ⟨rfl, hcalm.con, hcalm.iwcol, fun n => hcalm.delays (n + 1)⟩, rfl⟩
    have hbyte : ((b'.answers.received 0).setWidth 32).toInt =
        ((b'.answers.received 0).toNat : ℤ) := by
      have hlt := (b'.answers.received 0).isLt
      have hnat : ((b'.answers.received 0).setWidth 32).toNat = (b'.answers.received 0).toNat := by
        rw [BitVec.toNat_setWidth]
        omega
      rw [BitVec.toInt_eq_toNat_of_lt (by omega), hnat]
    simp only [Option.bind_eq_bind, Option.bind_some, i2cBus_read_rcv]
    exact congrArg some (Prod.ext hbyte rfl)

lemma ack_shows (h : Shows fuel s b) (a : Bool) :
    ∃ b', TwoWire.ack i2cBus fuel a b = some b' ∧ Shows fuel (s.put (.ack !a)) b' := by
  obtain ⟨hcalm, rfl⟩ := h
  -- what the write of `ACKDT` leaves
  have hackdt : ∃ con, i2cBus.write .con (if a then .set else .clr) conAckdt b =
      { b with con := con } ∧ con &&& 0b11111 = 0 ∧ decide (con &&& conAckdt = 0) = !a := by
    cases a with
    | true =>
      refine ⟨regSet b.con conAckdt, rfl, ?_, ?_⟩
      · unfold regSet
        rw [BitVec.and_comm, BitVec.and_or_distrib_left, BitVec.and_comm, hcalm.con]
        decide
      · apply decide_eq_false
        intro hzero
        have hbit := congrArg (BitVec.getLsbD · 5) hzero
        simp only [BitVec.getLsbD_and, getLsbD_regSet] at hbit
        revert hbit
        cases b.con.getLsbD 5 <;> decide
    | false =>
      refine ⟨regClr b.con conAckdt, rfl, ?_, ?_⟩
      · unfold regClr
        rw [BitVec.and_assoc, BitVec.and_comm (~~~conAckdt), ← BitVec.and_assoc, hcalm.con]
        exact BitVec.zero_and
      · apply decide_eq_true
        apply BitVec.eq_of_getLsbD_eq
        intro i hi
        rw [BitVec.getLsbD_and, getLsbD_regClr]
        cases b.con.getLsbD i <;> cases conAckdt.getLsbD i <;> simp
  obtain ⟨con, hwrite, hcon, hbit⟩ := hackdt
  have hset : ({ b with con := con } : I2cBus).setCon conAcken =
      (({ b with con := con } : I2cBus).issue conAcken).emit (.ack !a) := by
    rw [← hbit]
    rfl
  have hwait : TwoWire.waitCon i2cBus conAcken fuel
      ((({ b with con := con } : I2cBus).issue conAcken).emit (.ack !a)) =
      some { (({ b with con := con } : I2cBus).issue conAcken).emit (.ack !a) with polls := 0 } :=
    waitCon_eq conAcken (by decide) (by decide) rfl hcon (hcalm.delays 0)
  refine ⟨{ (({ b with con := con } : I2cBus).issue conAcken).emit (.ack !a) with polls := 0 }, ?_,
    ⟨rfl, hcon, hcalm.iwcol, fun n => hcalm.delays (n + 1)⟩, rfl⟩
  unfold TwoWire.ack
  rw [hwrite]
  dsimp only [i2cBus_write_con_set]
  rw [hset]
  exact hwait

lemma i2cStart_shows (h : Shows fuel s b) (timeout : Word) (slaveAddress : Byte)
    (operation : Bool) :
    ∃ b', TwoWire.i2cStart i2cBus fuel timeout slaveAddress operation b =
        some ((s.i2cStart timeout slaveAddress operation).1, b') ∧
      Shows fuel (s.i2cStart timeout slaveAddress operation).2 b' := by
  obtain ⟨b₁, hstart, h₁⟩ := start_shows h
  obtain ⟨hres, h₂⟩ := send_shows h₁ timeout (TwoWire.addressByte slaveAddress operation)
  simp only [TwoWire.i2cStart, LineState.i2cStart, hstart, Option.bind_eq_bind, Option.bind_some,
    hres]
  split
  · exact ⟨_, rfl, h₂⟩
  · obtain ⟨hidle, h₃⟩ := idle_shows h₂ timeout
    exact ⟨_, congrArg some (Prod.ext hidle rfl), h₃⟩

lemma sendLoop_shows (h : Shows fuel s b) (timeout : Word) {tx : RingBuffer} {l : List Byte}
    (htx : tx.contents = l) :
    (TwoWire.sendLoop i2cBus timeout l.length tx b).1 = (s.sendAll timeout l).1 ∧
      Shows fuel (s.sendAll timeout l).2 (TwoWire.sendLoop i2cBus timeout l.length tx b).2.2 := by
  induction l generalizing tx s b with
  | nil => exact ⟨rfl, h⟩
  | cons c l ih =>
    obtain ⟨hc, hl⟩ := RingBufferN.readChar_cons htx
    obtain ⟨hres, hsent⟩ := send_shows h timeout c
    simp only [List.length_cons, TwoWire.sendLoop, LineState.sendAll, hc, TwoWire.ofInt_toNat, hres]
    split
    · exact ⟨rfl, hsent⟩
    · exact ih hsent hl

lemma recvLoop_shows (h : Shows fuel s b) (timeout : Word) (n : ℕ) (rx : RingBuffer)
    (hroom : rx.contents.length + n < 256) :
    ∃ rx' b', TwoWire.recvLoop i2cBus fuel timeout n rx b =
        some ((s.recvAll timeout n).1, rx', b') ∧
      rx'.contents = rx.contents ++ (s.recvAll timeout n).2.1 ∧
      Shows fuel (s.recvAll timeout n).2.2 b' := by
  induction n generalizing rx s b with
  | zero => exact ⟨rx, b, rfl, by simp [LineState.recvAll], h⟩
  | succ n ih =>
    obtain ⟨b₁, hrecv, h₁⟩ := recv_shows h timeout
    simp only [TwoWire.recvLoop, LineState.recvAll, hrecv, Option.bind_eq_bind, Option.bind_some]
    split
    · exact ⟨rx, b₁, rfl, by simp, h₁⟩
    · obtain ⟨b₂, hack, h₂⟩ := ack_shows h₁ (n ≠ 0)
      have hstored : (rx.storeChar (BitVec.ofInt 8 (s.recv timeout).1)).contents =
          rx.contents ++ [BitVec.ofInt 8 (s.recv timeout).1] := by
        rw [RingBufferN.contents_storeChar, if_pos (by omega)]
      have hlast : (!decide (n ≠ 0)) = decide (n = 0) := by
        cases n <;> simp
      rw [hlast] at h₂
      obtain ⟨rx', b', hloop, hrx', h'⟩ := ih h₂ (rx.storeChar (BitVec.ofInt 8 (s.recv timeout).1))
        (by rw [hstored, List.length_append, List.length_singleton]; omega)
      refine ⟨rx', b', ?_, ?_, h'⟩
      · rw [hack]
        exact hloop
      · rw [hrx', hstored, List.append_assoc]
        rfl

end Private

/-! ### Refinement of the calls -/

section Calls

variable {fuel : ℕ} {s : LineState} {w : Wire I2cBus}

/-- `endTransmission(true)` is a write of the buffered bytes. -/
theorem endTransmission_shows (h : Shows fuel s w.bus) :
    ∃ w', TwoWire.endTransmission i2cBus fuel true w =
        some ((s.write w.dev.timeout w.dev.slaveAddress w.dev.tx.contents).1, w') ∧
      Shows fuel (s.write w.dev.timeout w.dev.slaveAddress w.dev.tx.contents).2 w'.bus := by
  by_cases hempty : w.dev.tx.contents = []
  · have hsize : ¬ w.dev.tx.available > 0 := by
      rw [RingBufferN.available_pos_iff]
      exact not_not_intro hempty
    simp only [TwoWire.endTransmission, LineState.write, if_true, if_neg hsize, if_pos hempty]
    exact ⟨_, rfl, h⟩
  · have hsize := (RingBufferN.available_pos_iff w.dev.tx).mpr hempty
    obtain ⟨b₁, hstart, h₁⟩ := i2cStart_shows h w.dev.timeout w.dev.slaveAddress false
    simp only [TwoWire.endTransmission, LineState.write, if_true, if_pos hsize, if_neg hempty,
      RingBufferN.toNat_available, hstart, Option.bind_eq_bind, Option.bind_some]
    split
    · exact ⟨_, rfl, h₁⟩
    · obtain ⟨hok, h₂⟩ := sendLoop_shows h₁ w.dev.timeout (rfl : w.dev.tx.contents = _)
      rcases hloop : TwoWire.sendLoop i2cBus w.dev.timeout w.dev.tx.contents.length w.dev.tx b₁
        with ⟨ok, tx, b₂⟩
      rw [hloop] at hok h₂
      rw [← hok]
      cases ok with
      | false => exact ⟨_, rfl, h₂⟩
      | true =>
        obtain ⟨b₃, hstop, h₃⟩ := stop_shows h₂
        simp only [hstop, Option.bind_some]
        exact ⟨_, rfl, h₃⟩

/-- `requestFrom` is a request of `size` bytes. -/
theorem requestFrom_shows (h : Shows fuel s w.bus) (address : Byte) {size : Word}
    (hpos : size ≠ 0) (hroom : size.toInt ≤ 255) :
    ∃ w', TwoWire.requestFrom i2cBus fuel address size true w =
        some ((s.request w.dev.timeout address size.toInt.toNat).1, w') ∧
      w'.dev.rx.contents = (s.request w.dev.timeout address size.toInt.toNat).2.1 ∧
      Shows fuel (s.request w.dev.timeout address size.toInt.toNat).2.2 w'.bus := by
  have hfree : ¬ w.dev.rx.clear.availableForStore < size.toInt := by
    rw [RingBufferN.availableForStore_eq, RingBufferN.contents_clear]
    simp
    omega
  obtain ⟨b₁, hstart, h₁⟩ := i2cStart_shows h w.dev.timeout address true
  simp only [TwoWire.requestFrom, LineState.request, if_neg hpos, Bool.not_true, Bool.false_eq_true,
    if_false, if_neg hfree, hstart, Option.bind_eq_bind, Option.bind_some]
  split
  · obtain ⟨b₂, hstop, h₂⟩ := stop_shows h₁
    simp only [hstop, Option.bind_some]
    exact ⟨_, rfl, RingBufferN.contents_clear _, h₂⟩
  · obtain ⟨rx, b₂, hrecv, hrx, h₂⟩ := recvLoop_shows h₁ w.dev.timeout size.toInt.toNat
      w.dev.rx.clear (by rw [RingBufferN.contents_clear]; simp; omega)
    obtain ⟨b₃, hstop, h₃⟩ := stop_shows h₂
    rw [RingBufferN.contents_clear, List.nil_append] at hrx
    simp only [hrecv, hstop, Option.bind_some, RingBufferN.available_eq, hrx, BitVec.ofInt_natCast]
    exact ⟨_, rfl, hrx, h₃⟩

end Calls

end FrameworkXC32
