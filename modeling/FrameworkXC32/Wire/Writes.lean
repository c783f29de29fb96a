import FrameworkXC32.Wire.History

/-!
# Writes through the buffer

A transmission from `beginTransmission` to `endTransmission`: the bytes that the calls of `write`
accept, and the bytes that the module puts on the bus for them.
-/

namespace FrameworkXC32
open Machine

namespace TwoWire

variable {β : Type}

/-- The loop of `write(data, size)`, entered with `i`. -/
def writeLoop : ℕ → List Byte → Wire β → ℕ × Wire β
  | i, [], w => (i, w)
  | i, c :: data, w =>
    let (n, w) := write c w
    if n = 0 then (i, w) else writeLoop (i + 1) data w

/-- `write(data, size)`, where `data` has `size` bytes. -/
def writeBlock (data : List Byte) (w : Wire β) : ℕ × Wire β := writeLoop 0 data w

end TwoWire

/-- A call that puts bytes into the driver. -/
inductive WriteCall
  | byte (c : Byte)
  | block (data : List Byte)
deriving DecidableEq, Repr

namespace WriteCall

variable {β : Type}

def bytes : WriteCall → List Byte
  | .byte c => [c]
  | .block data => data

def exec (w : Wire β) : WriteCall → ℕ × Wire β
  | .byte c => TwoWire.write c w
  | .block data => TwoWire.writeBlock data w

/-- The bytes that a call reports as accepted: as many of its leading bytes as it returns. -/
def accepted (w : Wire β) (call : WriteCall) : List Byte := call.bytes.take (call.exec w).1

/-- The driver after some calls, with the bytes accepted by them. -/
def execAll : List WriteCall → Wire β → List Byte × Wire β
  | [], w => ([], w)
  | call :: calls, w =>
    let (l, w') := execAll calls (call.exec w).2
    (call.accepted w ++ l, w')

end WriteCall

/-- The calls of a sketch on an I2C object. -/
inductive DriverOp
  | wire (op : WireOp)
  | write (call : WriteCall)
  | begin (address : Byte)
  | endWire
  | flush
  | setTimeOut (timeout : Word)
  | setClock (fcpu speedHz : Word)

def driverStep (fuel : ℕ) (w : Wire I2cBus) : DriverOp → Option (Wire I2cBus)
  | .wire op => wireStep fuel w op
  | .write call => some (call.exec w).2
  | .begin address => TwoWire.begin i2cBus fuel address w
  | .endWire => some (TwoWire.endWire i2cBus w)
  | .flush => some (TwoWire.flush i2cBus w)
  | .setTimeOut timeout => some (TwoWire.setTimeOut timeout w)
  | .setClock fcpu speedHz => some (TwoWire.setClock i2cBus fcpu speedHz w)

/-- The bytes that the module has put on the bus. -/
def driven (wire : List WireEvent) : List Byte :=
  wire.filterMap fun
    | .byte c => some c
    | _ => none

/-! ### Acceptance -/

section Accepted

variable {β : Type}

/-- The bytes have been put into the buffer, and nothing else has changed. -/
structure Puts (l : List Byte) (w w' : Wire β) : Prop where
  contents : w'.dev.tx.contents = w.dev.tx.contents ++ l
  rest : ∃ tx, w' = { w with dev := { w.dev with tx := tx } }

lemma Puts.nil (w : Wire β) : Puts [] w w := ⟨(List.append_nil _).symm, w.dev.tx, rfl⟩

lemma Puts.append {l₁ l₂ : List Byte} {w w' w'' : Wire β} (h₁ : Puts l₁ w w')
    (h₂ : Puts l₂ w' w'') : Puts (l₁ ++ l₂) w w'' := by
  obtain ⟨tx, rfl⟩ := h₁.rest
  obtain ⟨tx', rfl⟩ := h₂.rest
  refine ⟨?_, tx', rfl⟩
  rw [h₂.contents, h₁.contents, List.append_assoc]

namespace TwoWire

lemma write_spec (c : Byte) (w : Wire β) :
    ((write c w).1 = 0 ∧ (write c w).2 = w) ∨
    ((write c w).1 = 1 ∧ Puts [c] w (write c w).2) := by
  unfold write
  split
  · exact Or.inl ⟨rfl, rfl⟩
  · rename_i hroom
    right
    rw [Bool.or_eq_true, not_or, RingBufferN.isFull_iff] at hroom
    have hlt := w.dev.tx.length_contents_lt
    refine ⟨rfl, ?_, _, rfl⟩
    dsimp only
    rw [RingBufferN.contents_storeChar, if_pos (by omega)]

lemma writeLoop_spec (i : ℕ) (data : List Byte) (w : Wire β) :
    ∃ k ≤ data.length, (writeLoop i data w).1 = i + k ∧
      Puts (data.take k) w (writeLoop i data w).2 ∧
      ∀ c, data[k]? = some c → (write c (writeLoop i data w).2).1 = 0 := by
  induction data generalizing i w with
  | nil => exact ⟨0, le_rfl, rfl, Puts.nil w, fun c hc => absurd hc (by simp)⟩
  | cons c data ih =>
    rw [writeLoop]
    dsimp only
    rcases write_spec c w with ⟨hres, hsame⟩ | ⟨hres, hput⟩
    · rw [if_pos hres, hsame]
      refine ⟨0, Nat.zero_le _, rfl, Puts.nil w, fun c' hc' => ?_⟩
      rw [← Option.some.inj hc']
      exact hres
    · rw [if_neg (by rw [hres]; decide)]
      obtain ⟨k, hk, hcount, hputs, hstop⟩ := ih (i + 1) (write c w).2
      refine ⟨k + 1, Nat.succ_le_succ hk, ?_, hput.append hputs, hstop⟩
      rw [hcount, Nat.add_assoc, Nat.add_comm 1]

end TwoWire

namespace WriteCall

lemma exec_spec (w : Wire β) (call : WriteCall) :
    (call.exec w).1 ≤ call.bytes.length ∧ Puts (call.accepted w) w (call.exec w).2 ∧
      ∀ c, call.bytes[(call.exec w).1]? = some c → (TwoWire.write c (call.exec w).2).1 = 0 := by
  cases call with
  | byte c =>
    unfold accepted
    rcases TwoWire.write_spec c w with ⟨hres, hsame⟩ | ⟨hres, hput⟩
    · have hexec : exec w (.byte c) = (0, w) := Prod.ext hres hsame
      rw [hexec]
      refine ⟨Nat.zero_le 1, Puts.nil w, fun c' hc' => ?_⟩
      rw [← Option.some.inj hc']
      exact hres
    · have hexec : (exec w (.byte c)).1 = 1 := hres
      rw [hexec]
      exact ⟨le_rfl, hput, fun c' hc' => absurd hc' (by simp [bytes])⟩
  | block data =>
    obtain ⟨k, hk, hcount, hputs, hstop⟩ := TwoWire.writeLoop_spec 0 data w
    have hexec : (exec w (.block data)).1 = k := hcount.trans (Nat.zero_add k)
    unfold accepted
    rw [hexec]
    exact ⟨hk, hputs, hstop⟩

lemma execAll_puts (calls : List WriteCall) (w : Wire β) :
    Puts (execAll calls w).1 w (execAll calls w).2 := by
  induction calls generalizing w with
  | nil => exact Puts.nil w
  | cons call calls ih => exact (exec_spec w call).2.1.append (ih (call.exec w).2)

end WriteCall

end Accepted

/-! ### The bus -/

lemma driven_append (l l' : List WireEvent) : driven (l ++ l') = driven l ++ driven l' :=
  List.filterMap_append

namespace LineState

variable {s : LineState}

lemma send_driven (timeout : Word) (c : Byte) (s : LineState) : ∃ part, part <+: [c] ∧
    driven (s.send timeout c).2.wire = driven s.wire ++ part ∧
    ((s.send timeout c).1 = 0 → part = [c] ∧ (s.answers.sent 0).ack = true ∧
      (s.send timeout c).2.answers = s.answers.dropSent) := by
  by_cases hidle : s.idle timeout = 0
  · rw [send_of_idle hidle]
    dsimp only
    rw [wire_transmit, driven_append]
    cases hcollision : (s.answers.sent 0).collision with
    | true =>
      refine ⟨[], List.nil_prefix, rfl, fun hres => ?_⟩
      rw [(ByteAnswer.taken hres).1] at hcollision
      exact Bool.noConfusion hcollision
    | false =>
      refine ⟨[c], List.prefix_rfl, rfl, fun hres => ⟨rfl, (ByteAnswer.taken hres).2, ?_⟩⟩
      unfold transmit
      rw [hcollision]
      rfl
  · have hkept : s.send timeout c = (-1, s) := if_pos hidle
    rw [hkept]
    have hres : (-1 : ℤ) ≠ 0 := by decide
    exact ⟨[], List.nil_prefix, (List.append_nil _).symm, fun hzero => absurd hzero hres⟩

lemma sendAll_driven (timeout : Word) (l : List Byte) (s : LineState) : ∃ part, part <+: l ∧
    driven (s.sendAll timeout l).2.wire = driven s.wire ++ part ∧
    ((s.sendAll timeout l).1 = true → part = l ∧ ∀ k < l.length, (s.answers.sent k).ack = true) := by
  induction l generalizing s with
  | nil =>
    exact ⟨[], List.prefix_rfl, (List.append_nil _).symm,
      fun _ => ⟨rfl, fun k hk => absurd hk (Nat.not_lt_zero k)⟩⟩
  | cons c l ih =>
    obtain ⟨part, hpart, hdriven, hzero⟩ := send_driven timeout c s
    rw [sendAll]
    dsimp only
    split
    · exact ⟨part, hpart.trans (List.prefix_append [c] l), hdriven, fun hok => Bool.noConfusion hok⟩
    · rename_i hres
      obtain ⟨rfl, hack, hanswers⟩ := hzero (not_not.mp hres)
      obtain ⟨part', hpart', hdriven', hall⟩ := ih (s.send timeout c).2
      refine ⟨c :: part', List.cons_prefix_cons.mpr ⟨rfl, hpart'⟩, ?_, fun hok => ?_⟩
      · rw [hdriven', hdriven, List.append_assoc]
        rfl
      · obtain ⟨rfl, hacks⟩ := hall hok
        refine ⟨rfl, fun k hk => ?_⟩
        cases k with
        | zero => exact hack
        | succ k =>
          have hk' := hacks k (Nat.lt_of_succ_lt_succ hk)
          rw [hanswers] at hk'
          exact hk'

lemma i2cStart_driven (timeout : Word) (a : Byte) (op : Bool) (s : LineState) :
    ∃ part, part <+: [TwoWire.addressByte a op] ∧
      driven (s.i2cStart timeout a op).2.wire = driven s.wire ++ part ∧
      ((s.i2cStart timeout a op).1 = 0 → part = [TwoWire.addressByte a op] ∧
        (s.answers.sent 0).ack = true ∧
        (s.i2cStart timeout a op).2.answers = s.answers.dropSent) := by
  obtain ⟨part, hpart, hdriven, hzero⟩ :=
    send_driven timeout (TwoWire.addressByte a op) (s.put .start)
  have hstart : driven (s.put .start).wire = driven s.wire := by
    rw [put, driven_append]
    exact List.append_nil _
  rw [hstart] at hdriven
  refine ⟨part, hpart, ?_⟩
  unfold i2cStart
  dsimp only
  split
  · rename_i hres
    exact ⟨hdriven, fun hres' => absurd hres' hres⟩
  · rename_i hres
    exact ⟨hdriven, fun _ => hzero (not_not.mp hres)⟩

/-- A write puts its address byte on the bus and then its data, up to where it fails. -/
lemma write_driven (timeout : Word) (a : Byte) (data : List Byte) (s : LineState) :
    ∃ part, driven (s.write timeout a data).2.wire = driven s.wire ++ part ∧
      (part = [] ∨ ∃ sent, sent <+: data ∧ part = TwoWire.addressByte a false :: sent) ∧
      ((s.write timeout a data).1 = 0 → data ≠ [] ∧
        part = TwoWire.addressByte a false :: data ∧
        ∀ k ≤ data.length, (s.answers.sent k).ack = true) := by
  unfold write
  split
  · have hres : (2 : Byte) ≠ 0 := by decide
    exact ⟨[], (List.append_nil _).symm, Or.inl rfl, fun hzero => absurd hzero hres⟩
  · rename_i hdata
    obtain ⟨part, hpart, hdriven, hzero⟩ := i2cStart_driven timeout a false s
    dsimp only
    split
    · have hres : (4 : Byte) ≠ 0 := by decide
      refine ⟨part, hdriven, ?_, fun hzero => absurd hzero hres⟩
      rcases List.prefix_cons_iff.mp hpart with rfl | ⟨sent, rfl, hsent⟩
      · exact Or.inl rfl
      · exact Or.inr ⟨sent, hsent.trans List.nil_prefix, rfl⟩
    · rename_i hres
      obtain ⟨rfl, hack, hanswers⟩ := hzero (not_not.mp hres)
      obtain ⟨sent, hsent, hdriven', hall⟩ :=
        sendAll_driven timeout data (s.i2cStart timeout a false).2
      rw [hdriven, List.append_assoc] at hdriven'
      cases hok : ((s.i2cStart timeout a false).2.sendAll timeout data).1 with
      | false =>
        have hres : (3 : Byte) ≠ 0 := by decide
        exact ⟨_, hdriven', Or.inr ⟨sent, hsent, rfl⟩, fun hzero => absurd hzero hres⟩
      | true =>
        obtain ⟨rfl, hacks⟩ := hall hok
        refine ⟨_, ?_, Or.inr ⟨sent, hsent, rfl⟩, fun _ => ⟨hdata, rfl, fun k hk => ?_⟩⟩
        · exact ((driven_append _ _).trans (List.append_nil _)).trans hdriven'
        · cases k with
          | zero => exact hack
          | succ k =>
            have hk' := hacks k hk
            rw [hanswers] at hk'
            exact hk'

end LineState

/-! ### Every driver state -/

lemma Calm.step {fuel : ℕ} {w w' : Wire I2cBus} {op : DriverOp} (h : Calm fuel w.bus)
    (hs : driverStep fuel w op = some w') : Calm fuel w'.bus := by
  cases op with
  | wire op =>
    have hsettled : Settled fuel w.dev.timeout w := ⟨h, rfl⟩
    exact (hsettled.step hs).calm
  | write call =>
    cases hs
    obtain ⟨tx, htx⟩ := (call.exec_spec w).2.1.rest
    rw [htx]
    exact h
  | begin address =>
    obtain ⟨b, hstop, hs⟩ := Option.bind_eq_some_iff.mp hs
    cases hs
    have hon : Calm fuel (TwoWire.flush i2cBus ⟨{ w.dev with slaveAddress := address },
        i2cBus.write .con .reg 0x8000 (i2cBus.write .brg .reg 157 w.bus)⟩).bus :=
      ⟨rfl, (by decide : (0x8000 : Word) &&& 0b11111 = 0), rfl, h.delays⟩
    obtain ⟨b', hstop', hshows⟩ := stop_shows ⟨hon, rfl⟩
    cases hstop.symm.trans hstop'
    exact hshows.calm
  | endWire =>
    cases hs
    exact ⟨rfl, (by decide : (0 : Word) &&& 0b11111 = 0), rfl, h.delays⟩
  | flush =>
    cases hs
    exact ⟨h.polls, h.con, rfl, h.delays⟩
  | setTimeOut timeout =>
    cases hs
    exact h
  | setClock fcpu speedHz =>
    cases hs
    unfold TwoWire.setClock
    split
    · exact ⟨h.polls, h.con, h.iwcol, h.delays⟩
    · exact h

/-- What a transmission delivers: the bytes accepted since it was begun, up to where it fails. -/
structure Delivers (address : Byte) (accepted : List Byte) (answers : SlaveAnswers) (res : Byte)
    (bytes : List Byte) : Prop where
  inOrder : bytes = [] ∨ ∃ sent, sent <+: accepted ∧ bytes = address <<< 1 :: sent
  all : res = 0 → accepted ≠ [] ∧ bytes = address <<< 1 :: accepted ∧
    ∀ k ≤ accepted.length, (answers.sent k).ack = true

lemma endTransmission_delivers {fuel : ℕ} {w : Wire I2cBus} (h : Calm fuel w.bus)
    (answers : SlaveAnswers) : ∃ res w',
      TwoWire.endTransmission i2cBus fuel true (w.facing answers) = some (res, w') ∧
      Delivers w.dev.slaveAddress w.dev.tx.contents answers res (driven w'.bus.wire) := by
  have hsettled : Settled fuel w.dev.timeout w := ⟨h, rfl⟩
  obtain ⟨w', hend, hshows⟩ := endTransmission_shows (hsettled.facing answers)
  obtain ⟨part, hdriven, hinOrder, hall⟩ := LineState.write_driven w.dev.timeout
    w.dev.slaveAddress w.dev.tx.contents ⟨w.bus.ackstat, answers, []⟩
  have hbytes : driven w'.bus.wire = part :=
    (congrArg (fun s => driven s.wire) hshows.line).trans hdriven
  have haddress : TwoWire.addressByte w.dev.slaveAddress false = w.dev.slaveAddress <<< 1 :=
    BitVec.or_zero
  rw [haddress] at hinOrder hall
  refine ⟨_, w', hend, ?_⟩
  rw [hbytes]
  exact ⟨hinOrder, hall⟩

/-- From every state that a driver can be in: what is driven on the bus is what was accepted, and
what is accepted of a block is its leading bytes, the next one being refused. -/
theorem writes_deliver_accepted {fuel : ℕ} {w₀ w : Wire I2cBus} {ops : List DriverOp}
    (h₀ : Calm fuel w₀.bus) (hrun : Runs.run (driverStep fuel) w₀ ops = some w) (address : Byte)
    (calls : List WriteCall) (answers : SlaveAnswers) :
    (∃ res w', TwoWire.endTransmission i2cBus fuel true
        ((WriteCall.execAll calls (TwoWire.beginTransmission address w)).2.facing answers) =
          some (res, w') ∧
      Delivers address (WriteCall.execAll calls (TwoWire.beginTransmission address w)).1 answers res
        (driven w'.bus.wire)) ∧
    ∀ (call : WriteCall) (w₁ : Wire I2cBus), (call.exec w₁).1 ≤ call.bytes.length ∧
      (call.exec w₁).2.dev.tx.contents =
        w₁.dev.tx.contents ++ call.bytes.take (call.exec w₁).1 ∧
      ∀ c, call.bytes[(call.exec w₁).1]? = some c → (TwoWire.write c (call.exec w₁).2).1 = 0 := by
  have hcalm := Runs.run_invariant_all (fun _ _ _ hw hs => Calm.step hw hs) h₀ hrun
  constructor
  · have hputs := WriteCall.execAll_puts calls (TwoWire.beginTransmission address w)
    obtain ⟨tx, hrest⟩ := hputs.rest
    have hbus : Calm fuel (WriteCall.execAll calls (TwoWire.beginTransmission address w)).2.bus := by
      rw [hrest]
      exact hcalm
    have haddress : (WriteCall.execAll calls
        (TwoWire.beginTransmission address w)).2.dev.slaveAddress = address := by
      rw [hrest]
      rfl
    have hcontents : (WriteCall.execAll calls
        (TwoWire.beginTransmission address w)).2.dev.tx.contents =
          (WriteCall.execAll calls (TwoWire.beginTransmission address w)).1 := by
      rw [hputs.contents]
      exact congrArg (· ++ _) (RingBufferN.contents_clear w.dev.tx)
    obtain ⟨res, w', hend, hdelivers⟩ := endTransmission_delivers hbus answers
    rw [haddress, hcontents] at hdelivers
    exact ⟨res, w', hend, hdelivers⟩
  · intro call w₁
    obtain ⟨hle, hputs, hstop⟩ := call.exec_spec w₁
    exact ⟨hle, hputs.contents, hstop⟩

/-- A write that was not acknowledged, and a `flush()`, which clears `ACKSTAT`. -/
def flushedAfterNack : List DriverOp := (oneByteWrite false).map .wire ++ [.flush]

/-- A block of two bytes behind them is driven behind its address byte. -/
theorem writes_deliver_accepted_after_nack : ∃ w,
    Runs.run (driverStep 1) idleWire flushedAfterNack = some w ∧
      ∃ w', TwoWire.endTransmission i2cBus 1 true ((WriteCall.execAll [.block [1, 2]]
          (TwoWire.beginTransmission 0x21 w)).2.facing (slaveAnswering true)) = some (0, w') ∧
        Delivers 0x21 [1, 2] (slaveAnswering true) 0 (driven w'.bus.wire) ∧
        driven w'.bus.wire = [0x42, 1, 2] := by
  have hsome : (Runs.run (driverStep 1) idleWire flushedAfterNack).isSome = true := by
    decide +kernel
  obtain ⟨w, hrun⟩ := Option.isSome_iff_exists.mp hsome
  have hresult : (Runs.run (driverStep 1) idleWire flushedAfterNack).map
      (fun w => ((WriteCall.execAll [.block [1, 2]] (TwoWire.beginTransmission 0x21 w)).1,
        (TwoWire.endTransmission i2cBus 1 true ((WriteCall.execAll [.block [1, 2]]
          (TwoWire.beginTransmission 0x21 w)).2.facing (slaveAnswering true))).map (·.1))) =
      some ([1, 2], some 0) := by decide +kernel
  rw [hrun, Option.map_some, Option.some.injEq, Prod.mk.injEq] at hresult
  obtain ⟨haccepted, hzero⟩ := hresult
  obtain ⟨res, w', hend, hdelivers⟩ := (writes_deliver_accepted calm_idleWire hrun 0x21
    [.block [1, 2]] (slaveAnswering true)).1
  rw [hend] at hzero
  obtain rfl : res = 0 := Option.some.inj hzero
  rw [haccepted] at hdelivers
  exact ⟨w, hrun, w', hend, hdelivers, (hdelivers.all rfl).2.1⟩

end FrameworkXC32
