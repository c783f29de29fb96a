import FrameworkXC32.Lib.Runs
import FrameworkXC32.Wire.Transaction

/-!
# Calls after other calls

Histories of driver calls on one bus, and the outcome of the next call. The only thing that a
history hands on to a call, besides the address and the data that were put into the driver for it,
is the acknowledge that `ACKSTAT` still shows.
-/

namespace FrameworkXC32
open Machine

/-- The driver with the answers that the slave gives during the next call, nothing on the lines
yet. -/
def Wire.facing (answers : SlaveAnswers) (w : Wire I2cBus) : Wire I2cBus :=
  { w with bus := { w.bus with answers := answers, wire := [] } }

inductive WireOp
  | beginTransmission (address : Byte)
  | write (c : Byte)
  | read
  | call (c : WireCall) (answers : SlaveAnswers)

def wireStep (fuel : ℕ) (w : Wire I2cBus) : WireOp → Option (Wire I2cBus)
  | .beginTransmission address => some (TwoWire.beginTransmission address w)
  | .write c => some (TwoWire.write c w).2
  | .read => some (TwoWire.read w).2
  | .call c answers => (c.exec i2cBus fuel (w.facing answers)).map (·.2)

/-- The result of a call and what it puts on the bus. -/
def WireCall.outcome (fuel : ℕ) (answers : SlaveAnswers) (c : WireCall) (w : Wire I2cBus) :
    Option (Byte × List WireEvent) :=
  (c.exec i2cBus fuel (w.facing answers)).map fun x => (x.1, x.2.bus.wire)

namespace TwoWire

variable {β : Type} {P : I2cPort β} {fuel : ℕ} {res : Byte} {w w' : Wire β}

lemma endTransmission_timeout {stopBit : Bool}
    (h : endTransmission P fuel stopBit w = some (res, w')) : w'.dev.timeout = w.dev.timeout := by
  simp only [endTransmission] at h
  split at h
  · split at h
    · obtain ⟨⟨res₁, b₁⟩, -, h⟩ := Option.bind_eq_some_iff.mp h
      dsimp only at h
      split at h
      · cases h
        rfl
      · split at h
        · cases h
          rfl
        · obtain ⟨b₂, -, h⟩ := Option.bind_eq_some_iff.mp h
          cases h
          rfl
    · cases h
      rfl
  · cases h
    rfl

lemma requestFrom_timeout {address : Byte} {size : Word} {stopBit : Bool}
    (h : requestFrom P fuel address size stopBit w = some (res, w')) :
    w'.dev.timeout = w.dev.timeout := by
  simp only [requestFrom] at h
  split at h
  · cases h
    rfl
  split at h
  · cases h
    rfl
  split at h
  · cases h
    rfl
  obtain ⟨⟨res₁, b₁⟩, -, h⟩ := Option.bind_eq_some_iff.mp h
  dsimp only at h
  split at h
  · obtain ⟨b₂, -, h⟩ := Option.bind_eq_some_iff.mp h
    cases h
    rfl
  · obtain ⟨⟨received, rx, b₂⟩, -, h⟩ := Option.bind_eq_some_iff.mp h
    obtain ⟨b₃, -, h⟩ := Option.bind_eq_some_iff.mp h
    cases h
    rfl

end TwoWire

namespace WireCall

/-- What was put into the driver for a call: the address and the data of a write. -/
def input (dev : TwoWire) : WireCall → Option (Byte × List Byte)
  | .endTransmission _ => some (dev.slaveAddress, dev.tx.contents)
  | .requestFrom _ _ _ => none

/-- The call issues a START. -/
def Starts (dev : TwoWire) : WireCall → Prop
  | .endTransmission stopBit => stopBit = true ∧ dev.tx.contents ≠ []
  | .requestFrom _ size stopBit => size ≠ 0 ∧ stopBit = true ∧ size.toInt ≤ 255

/-- The transaction that a call amounts to. -/
def transaction (dev : TwoWire) (s : LineState) : WireCall → Byte × LineState
  | .endTransmission stopBit =>
    if stopBit then s.write dev.timeout dev.slaveAddress dev.tx.contents else (1, s)
  | .requestFrom address size stopBit =>
    if size ≠ 0 ∧ stopBit = true ∧ size.toInt ≤ 255 then
      let (res, _, s) := s.request dev.timeout address size.toInt.toNat
      (res, s)
    else (0, s)

/-- Every call refines its transaction. -/
theorem exec_shows {fuel : ℕ} {s : LineState} {w : Wire I2cBus} (c : WireCall)
    (h : Shows fuel s w.bus) : ∃ w', c.exec i2cBus fuel w = some ((c.transaction w.dev s).1, w') ∧
      Shows fuel (c.transaction w.dev s).2 w'.bus := by
  cases c with
  | endTransmission stopBit =>
    cases stopBit with
    | true => exact endTransmission_shows h
    | false => exact ⟨w, rfl, h⟩
  | requestFrom address size stopBit =>
    simp only [exec, transaction]
    split
    · rename_i hstarts
      obtain ⟨hpos, rfl, hroom⟩ := hstarts
      obtain ⟨w', hexec, -, hshows⟩ := requestFrom_shows h address hpos hroom
      exact ⟨w', hexec, hshows⟩
    · rename_i hstarts
      simp only [TwoWire.requestFrom]
      split
      · exact ⟨_, rfl, h⟩
      · split
        · exact ⟨_, rfl, h⟩
        · rename_i hpos hstop
          have hfull : w.dev.rx.clear.availableForStore < size.toInt := by
            rw [RingBufferN.availableForStore_eq, RingBufferN.contents_clear]
            by_contra hroom
            simp at hroom hstop
            exact hstarts ⟨hpos, hstop, by omega⟩
          rw [if_pos hfull]
          exact ⟨_, rfl, h⟩

lemma exec_timeout {β : Type} {P : I2cPort β} {fuel : ℕ} {res : Byte} {w w' : Wire β} {c : WireCall}
    (h : c.exec P fuel w = some (res, w')) : w'.dev.timeout = w.dev.timeout := by
  cases c with
  | endTransmission stopBit => exact TwoWire.endTransmission_timeout h
  | requestFrom address size stopBit => exact TwoWire.requestFrom_timeout h

end WireCall

/-! ### Histories -/

/-- What every history leaves: a calm bus, and the timeout as it was. -/
structure Settled (fuel : ℕ) (timeout : Word) (w : Wire I2cBus) : Prop where
  calm : Calm fuel w.bus
  timeout : w.dev.timeout = timeout

lemma Settled.facing {fuel : ℕ} {timeout : Word} {w : Wire I2cBus} (h : Settled fuel timeout w)
    (answers : SlaveAnswers) : Shows fuel ⟨w.bus.ackstat, answers, []⟩ (w.facing answers).bus :=
  ⟨⟨h.calm.polls, h.calm.con, h.calm.iwcol, h.calm.delays⟩, rfl⟩

lemma Settled.step {fuel : ℕ} {timeout : Word} {w w' : Wire I2cBus} {op : WireOp}
    (h : Settled fuel timeout w) (hs : wireStep fuel w op = some w') : Settled fuel timeout w' := by
  cases op with
  | beginTransmission address =>
    cases hs
    exact ⟨h.calm, h.timeout⟩
  | write c =>
    cases hs
    unfold TwoWire.write
    split
    · exact h
    · exact ⟨h.calm, h.timeout⟩
  | read =>
    cases hs
    exact ⟨h.calm, h.timeout⟩
  | call c answers =>
    obtain ⟨⟨res, w''⟩, hexec, rfl⟩ := Option.map_eq_some_iff.mp hs
    obtain ⟨w₁, hexec', hshows⟩ := c.exec_shows (h.facing answers)
    rw [hexec] at hexec'
    obtain rfl := congrArg Prod.snd (Option.some.inj hexec')
    exact ⟨hshows.calm, (WireCall.exec_timeout hexec).trans h.timeout⟩

lemma Settled.run {fuel : ℕ} {timeout : Word} {w w' : Wire I2cBus} {ops : List WireOp}
    (h : Settled fuel timeout w) (hr : Runs.run (wireStep fuel) w ops = some w') :
    Settled fuel timeout w' :=
  Runs.run_invariant_all (fun _ _ _ hw hs => hw.step hs) h hr

lemma Settled.outcome {fuel : ℕ} {timeout : Word} {w : Wire I2cBus} (h : Settled fuel timeout w)
    (answers : SlaveAnswers) (c : WireCall) : c.outcome fuel answers w =
      some ((c.transaction w.dev ⟨w.bus.ackstat, answers, []⟩).1,
        (c.transaction w.dev ⟨w.bus.ackstat, answers, []⟩).2.wire) := by
  obtain ⟨w', hexec, hshows⟩ := c.exec_shows (h.facing answers)
  have hdev : (w.facing answers).dev = w.dev := rfl
  rw [hdev] at hexec hshows
  unfold WireCall.outcome
  rw [hexec, Option.map_some, ← hshows.line]
  rfl

/-! ### What `ACKSTAT` decides -/

namespace LineState

lemma idle_of_nack {timeout : Word} {s : LineState} (h : s.ackstat = true) :
    s.idle timeout ≠ 0 := by
  unfold idle
  rw [h]
  split <;> simp

lemma idle_eq_zero_iff {timeout : Word} {s : LineState} :
    s.idle timeout = 0 ↔ timeout ≠ 1 ∧ s.ackstat = false := by
  unfold idle
  split
  · simp_all
  · cases s.ackstat <;> simp_all

lemma wire_transmit (c : Byte) (s : LineState) : (s.transmit c).wire =
    s.wire ++ if (s.answers.sent 0).collision then [] else [.byte c] := by
  unfold transmit
  split <;> simp_all [put]

lemma wire_send (timeout : Word) (data : Byte) (s : LineState) :
    s.wire <+: (s.send timeout data).2.wire := by
  unfold send
  split
  · exact List.prefix_rfl
  · rw [wire_transmit]
    exact List.prefix_append _ _

lemma wire_sendAll (timeout : Word) (l : List Byte) (s : LineState) :
    s.wire <+: (s.sendAll timeout l).2.wire := by
  induction l generalizing s with
  | nil => exact List.prefix_rfl
  | cons c l ih =>
    simp only [sendAll]
    split
    · exact wire_send _ _ _
    · exact (wire_send _ _ _).trans (ih _)

lemma wire_recvAll (timeout : Word) (n : ℕ) (s : LineState) :
    s.wire <+: (s.recvAll timeout n).2.2.wire := by
  induction n generalizing s with
  | zero => exact List.prefix_rfl
  | succ n ih =>
    have hrecv : s.wire <+: (s.recv timeout).2.wire := by
      unfold recv
      split
      · exact List.prefix_rfl
      · exact List.prefix_append _ _
    simp only [recvAll]
    split
    · exact hrecv
    · have hput : (s.recv timeout).2.wire <+: ((s.recv timeout).2.put (.ack (n = 0))).wire :=
        List.prefix_append _ _
      exact (hrecv.trans hput).trans (ih _)

/-- The address byte is kept back: a NACK is still shown, or the timeout is met at once. -/
lemma i2cStart_idle {timeout : Word} {s : LineState} (h : s.idle timeout ≠ 0) (a : Byte)
    (op : Bool) : s.i2cStart timeout a op = (-1, s.put .start) := by
  have hput : (s.put .start).idle timeout ≠ 0 := h
  simp [i2cStart, send, hput]

lemma send_of_idle {timeout : Word} {s : LineState} (h : s.idle timeout = 0) (c : Byte) :
    s.send timeout c = ((s.answers.sent 0).result timeout.toNat, s.transmit c) := by
  unfold send
  rw [if_neg (not_not.mpr h)]

lemma i2cStart_collided {timeout : Word} {s : LineState} (h : s.idle timeout = 0) (a : Byte)
    (op : Bool) (hcollision : (s.answers.sent 0).collision = true) :
    (s.i2cStart timeout a op).1 ≠ 0 ∧
      (s.i2cStart timeout a op).2.wire = s.wire ++ [.start] := by
  have hput : (s.put .start).idle timeout = 0 := h
  have hcollision' : ((s.put .start).answers.sent 0).collision = true := hcollision
  have hres : ((s.put .start).answers.sent 0).result timeout.toNat = -2 := by
    unfold ByteAnswer.result
    rw [if_pos hcollision']
  unfold i2cStart
  rw [send_of_idle hput, hres]
  dsimp only
  rw [if_pos (by decide)]
  refine ⟨by simp, ?_⟩
  rw [wire_transmit, if_pos hcollision', List.append_nil]
  rfl

lemma i2cStart_sent {timeout : Word} {s : LineState} (h : s.idle timeout = 0) (a : Byte)
    (op : Bool) (hcollision : (s.answers.sent 0).collision = false) :
    (s.i2cStart timeout a op).2.wire = s.wire ++ [.start, .byte (TwoWire.addressByte a op)] := by
  have hput : (s.put .start).idle timeout = 0 := h
  have hcollision' : ((s.put .start).answers.sent 0).collision = false := hcollision
  have hwire : ((s.put .start).transmit (TwoWire.addressByte a op)).wire =
      s.wire ++ [.start, .byte (TwoWire.addressByte a op)] := by
    rw [wire_transmit, hcollision']
    simp [put]
  unfold i2cStart
  rw [send_of_idle hput]
  dsimp only
  split
  · exact hwire
  · exact hwire

end LineState

namespace WireCall

/-- The START and the address byte of a call. -/
def i2cStart (dev : TwoWire) (s : LineState) : WireCall → ℤ × LineState
  | .endTransmission _ => s.i2cStart dev.timeout dev.slaveAddress false
  | .requestFrom address _ _ => s.i2cStart dev.timeout address true

/-- The result of a call whose start fails, and what it still puts on the bus. -/
def refused : WireCall → Byte × List WireEvent
  | .endTransmission _ => (4, [])
  | .requestFrom _ _ _ => (0, [.stop])

/-- The address byte stays off the bus: the driver does not send it, or it collides. -/
lemma i2cStart_kept {dev : TwoWire} {s : LineState} (c : WireCall)
    (h : s.idle dev.timeout ≠ 0 ∨ (s.answers.sent 0).collision = true) :
    (c.i2cStart dev s).1 ≠ 0 ∧ (c.i2cStart dev s).2.wire = s.wire ++ [.start] := by
  have hstart : ∀ (a : Byte) (op : Bool), (s.i2cStart dev.timeout a op).1 ≠ 0 ∧
      (s.i2cStart dev.timeout a op).2.wire = s.wire ++ [.start] := by
    intro a op
    by_cases hidle : s.idle dev.timeout = 0
    · exact LineState.i2cStart_collided hidle a op (h.resolve_left (not_not_intro hidle))
    · rw [LineState.i2cStart_idle hidle]
      exact ⟨by simp, rfl⟩
  cases c with
  | endTransmission stopBit => exact hstart _ _
  | requestFrom address size stopBit => exact hstart _ _

lemma i2cStart_addressed {dev : TwoWire} {s : LineState} (c : WireCall)
    (hidle : s.idle dev.timeout = 0) (hcollision : (s.answers.sent 0).collision = false) :
    ∃ x, (c.i2cStart dev s).2.wire = s.wire ++ [.start, .byte x] := by
  cases c with
  | endTransmission stopBit => exact ⟨_, LineState.i2cStart_sent hidle _ _ hcollision⟩
  | requestFrom address size stopBit => exact ⟨_, LineState.i2cStart_sent hidle _ _ hcollision⟩

lemma transaction_refused {dev : TwoWire} {s : LineState} {c : WireCall} (hstarts : c.Starts dev)
    (h : (c.i2cStart dev s).1 ≠ 0) : (c.transaction dev s).1 = c.refused.1 ∧
      (c.transaction dev s).2.wire = (c.i2cStart dev s).2.wire ++ c.refused.2 := by
  cases c with
  | endTransmission stopBit =>
    obtain ⟨rfl, hdata⟩ := hstarts
    simp only [i2cStart] at h
    simp [transaction, LineState.write, hdata, h, refused, i2cStart]
  | requestFrom address size stopBit =>
    simp only [Starts] at hstarts
    simp only [i2cStart] at h
    simp only [transaction, if_pos hstarts, LineState.request, if_pos h, refused, i2cStart]
    exact ⟨trivial, rfl⟩

lemma transaction_kept {dev : TwoWire} {s : LineState} {c : WireCall} (hstarts : c.Starts dev)
    (h : s.idle dev.timeout ≠ 0 ∨ (s.answers.sent 0).collision = true) :
    (c.transaction dev s).1 = c.refused.1 ∧
      (c.transaction dev s).2.wire = s.wire ++ [.start] ++ c.refused.2 := by
  have hkept := c.i2cStart_kept h
  have hrefused := transaction_refused hstarts hkept.1
  rw [hkept.2] at hrefused
  exact hrefused

lemma i2cStart_prefix {dev : TwoWire} {s : LineState} {c : WireCall} (hstarts : c.Starts dev) :
    (c.i2cStart dev s).2.wire <+: (c.transaction dev s).2.wire := by
  by_cases h : (c.i2cStart dev s).1 = 0
  · cases c with
    | endTransmission stopBit =>
      obtain ⟨rfl, hdata⟩ := hstarts
      simp only [i2cStart] at h ⊢
      simp only [transaction, if_true, LineState.write, if_neg hdata, h, ne_eq, not_true, if_false]
      split
      · exact (LineState.wire_sendAll _ _ _).trans (List.prefix_append _ _)
      · exact LineState.wire_sendAll _ _ _
    | requestFrom address size stopBit =>
      simp only [Starts] at hstarts
      simp only [i2cStart] at h ⊢
      simp only [transaction, if_pos hstarts, LineState.request, h, ne_eq, not_true, if_false]
      exact (LineState.wire_recvAll _ _ _).trans (List.prefix_append _ _)
  · rw [(transaction_refused hstarts h).2]
    exact List.prefix_append _ _

lemma transaction_silent {dev : TwoWire} {c : WireCall} (h : ¬ c.Starts dev) :
    ∃ res, ∀ s, c.transaction dev s = (res, s) := by
  cases c with
  | endTransmission stopBit =>
    cases stopBit with
    | false => exact ⟨1, fun s => rfl⟩
    | true =>
      have hdata : dev.tx.contents = [] := by
        by_contra hne
        exact h ⟨rfl, hne⟩
      refine ⟨2, fun s => ?_⟩
      simp only [transaction, if_true, LineState.write, if_pos hdata]
  | requestFrom address size stopBit =>
    simp only [Starts] at h
    exact ⟨0, fun s => if_neg h⟩

/-- The call puts its address byte on the bus when `ACKSTAT` is clear. -/
def Addresses (dev : TwoWire) (answers : SlaveAnswers) (c : WireCall) : Prop :=
  c.Starts dev ∧ dev.timeout ≠ 1 ∧ (answers.sent 0).collision = false

lemma transaction_agrees_iff (dev : TwoWire) (answers : SlaveAnswers) (c : WireCall) :
    ((c.transaction dev ⟨true, answers, []⟩).1 = (c.transaction dev ⟨false, answers, []⟩).1 ∧
      (c.transaction dev ⟨true, answers, []⟩).2.wire =
        (c.transaction dev ⟨false, answers, []⟩).2.wire) ↔ ¬ c.Addresses dev answers := by
  by_cases hstarts : c.Starts dev
  · -- with `ACKSTAT` set the address byte is kept back
    have hkept := transaction_kept (s := ⟨true, answers, []⟩) hstarts
      (Or.inl (LineState.idle_of_nack rfl))
    by_cases haddresses : c.Addresses dev answers
    · have hidle : (⟨false, answers, []⟩ : LineState).idle dev.timeout = 0 :=
        LineState.idle_eq_zero_iff.mpr ⟨haddresses.2.1, rfl⟩
      obtain ⟨x, hx⟩ := c.i2cStart_addressed hidle haddresses.2.2
      have hprefix := i2cStart_prefix (s := ⟨false, answers, []⟩) hstarts
      rw [hx] at hprefix
      simp only [haddresses, not_true, iff_false]
      intro ⟨_, hsame⟩
      rw [← hsame, hkept.2] at hprefix
      cases c <;> simp [refused] at hprefix
    · have hsilent : (⟨false, answers, []⟩ : LineState).idle dev.timeout ≠ 0 ∨
          (answers.sent 0).collision = true := by
        by_contra hno
        obtain ⟨hidle, hsent⟩ := not_or.mp hno
        have htimeout := (LineState.idle_eq_zero_iff.mp (not_not.mp hidle)).1
        exact haddresses ⟨hstarts, htimeout, Bool.eq_false_iff.mpr hsent⟩
      have hkept' := transaction_kept hstarts hsilent
      simp only [haddresses, not_false_eq_true, iff_true]
      exact ⟨hkept.1.trans hkept'.1.symm, hkept.2.trans hkept'.2.symm⟩
  · have hnot : ¬ c.Addresses dev answers := fun h => hstarts h.1
    simp only [hnot, not_false_eq_true, iff_true]
    obtain ⟨res, hsilent⟩ := transaction_silent hstarts
    rw [hsilent, hsilent]
    exact ⟨rfl, rfl⟩

lemma transaction_congr {dev dev' : TwoWire} {c : WireCall} (s : LineState)
    (htimeout : dev.timeout = dev'.timeout) (hinput : c.input dev = c.input dev') :
    c.transaction dev s = c.transaction dev' s := by
  cases c with
  | endTransmission stopBit =>
    obtain ⟨haddress, hdata⟩ := Prod.mk.inj (Option.some.inj hinput)
    simp only [transaction, htimeout, haddress, hdata]
  | requestFrom address size stopBit => simp only [transaction, htimeout]

end WireCall

/-! ### Transfers that the slave takes -/

lemma ByteAnswer.taken {timeout : ℕ} {a : ByteAnswer} (h : a.result timeout = 0) :
    a.collision = false ∧ a.ack = true := by
  unfold ByteAnswer.result at h
  split_ifs at h
  simp_all

namespace LineState

section Taken

variable {timeout : Word} {s : LineState}

lemma answers_transmit (c : Byte) (s : LineState) :
    (s.transmit c).answers = s.answers.dropSent := by
  unfold transmit
  split <;> rfl

lemma idle_transmit (hidle : s.idle timeout = 0)
    (htaken : (s.answers.sent 0).result timeout.toNat = 0) (c : Byte) :
    (s.transmit c).idle timeout = 0 := by
  obtain ⟨hcollision, hack⟩ := ByteAnswer.taken htaken
  rw [idle_eq_zero_iff] at hidle ⊢
  refine ⟨hidle.1, ?_⟩
  simp [transmit, put, hcollision, hack]

lemma i2cStart_taken (hidle : s.idle timeout = 0)
    (htaken : (s.answers.sent 0).result timeout.toNat = 0) (a : Byte) (op : Bool) :
    s.i2cStart timeout a op = (0, (s.put .start).transmit (TwoWire.addressByte a op)) := by
  have hput : (s.put .start).idle timeout = 0 := hidle
  have hres : ((s.put .start).answers.sent 0).result timeout.toNat = 0 := htaken
  unfold i2cStart
  rw [send_of_idle hput, hres]
  dsimp only
  rw [if_neg (not_not.mpr rfl), idle_transmit hput hres]

lemma i2cStart_eq_zero_iff (a : Byte) (op : Bool) : (s.i2cStart timeout a op).1 = 0 ↔
    s.idle timeout = 0 ∧ (s.answers.sent 0).result timeout.toNat = 0 := by
  constructor
  · intro h
    by_cases hidle : s.idle timeout = 0
    · refine ⟨hidle, ?_⟩
      have hput : (s.put .start).idle timeout = 0 := hidle
      unfold i2cStart at h
      rw [send_of_idle hput] at h
      by_contra hres
      dsimp only at h
      rw [if_pos (show ((s.put .start).answers.sent 0).result timeout.toNat ≠ 0 from hres)] at h
      exact hres h
    · rw [i2cStart_idle hidle] at h
      exact absurd h (neg_ne_zero.mpr one_ne_zero)
  · rintro ⟨hidle, htaken⟩
    rw [i2cStart_taken hidle htaken]

end Taken

/-- The slave acknowledges every byte in time, and the last acknowledge is not in the way. -/
structure Taking (timeout : Word) (s : LineState) : Prop where
  timeout_ne : timeout ≠ 1
  ackstat : s.ackstat = false
  sent : ∀ n, (s.answers.sent n).result timeout.toNat = 0

variable {timeout : Word} {s : LineState}

lemma Taking.send (h : s.Taking timeout) (c : Byte) :
    (s.send timeout c).1 = 0 ∧ (s.send timeout c).2.Taking timeout := by
  have hidle := idle_eq_zero_iff.mpr ⟨h.timeout_ne, h.ackstat⟩
  obtain ⟨hcollision, hack⟩ := ByteAnswer.taken (h.sent 0)
  rw [send_of_idle hidle]
  refine ⟨h.sent 0, h.timeout_ne, ?_, ?_⟩
  · simp [transmit, hcollision, hack, put]
  · intro n
    simp only [transmit, hcollision, Bool.false_eq_true, if_false]
    exact h.sent (n + 1)

lemma Taking.sendAll (h : s.Taking timeout) (l : List Byte) : (s.sendAll timeout l).1 = true := by
  induction l generalizing s with
  | nil => rfl
  | cons c l ih =>
    obtain ⟨hres, hnext⟩ := h.send c
    simp only [LineState.sendAll, hres, ne_eq, not_true, if_false]
    exact ih hnext

lemma Taking.recvAll (h : s.Taking timeout) (n : ℕ) :
    (s.recvAll timeout n).1 = true ∧ (s.recvAll timeout n).2.1.length = n := by
  induction n generalizing s with
  | zero => exact ⟨rfl, rfl⟩
  | succ n ih =>
    have hidle := idle_eq_zero_iff.mpr ⟨h.timeout_ne, h.ackstat⟩
    simp only [LineState.recvAll, recv, hidle, ne_eq, not_true, if_false]
    rw [if_neg (by omega)]
    have hnext : ((({ s with answers := s.answers.dropReceived } : LineState).put
        (.received (s.answers.received 0))).put (.ack (n = 0))).Taking timeout :=
      ⟨h.timeout_ne, h.ackstat, h.sent⟩
    obtain ⟨hok, hlen⟩ := ih hnext
    exact ⟨hok, congrArg (· + 1) hlen⟩

lemma Taking.i2cStart (h : s.Taking timeout) (a : Byte) (op : Bool) :
    (s.i2cStart timeout a op).1 = 0 ∧ (s.i2cStart timeout a op).2.Taking timeout := by
  have hput : (s.put .start).Taking timeout := ⟨h.timeout_ne, h.ackstat, h.sent⟩
  obtain ⟨hres, hnext⟩ := hput.send (TwoWire.addressByte a op)
  simp only [LineState.i2cStart, hres, ne_eq, not_true, if_false]
  exact ⟨idle_eq_zero_iff.mpr ⟨hnext.timeout_ne, hnext.ackstat⟩, hnext⟩

end LineState

namespace WireCall

/-- The call has bytes to transfer. -/
def Transfers (dev : TwoWire) : WireCall → Prop
  | .endTransmission stopBit => stopBit = true ∧ dev.tx.contents ≠ []
  | .requestFrom _ size stopBit => stopBit = true ∧ 0 < size.toInt ∧ size.toInt ≤ 255

/-- The result of a call that transfers everything. -/
def success : WireCall → Byte
  | .endTransmission _ => 0
  | .requestFrom _ size _ => BitVec.ofNat 8 size.toInt.toNat

lemma Transfers.starts {dev : TwoWire} {c : WireCall} (h : c.Transfers dev) : c.Starts dev := by
  cases c with
  | endTransmission stopBit => exact h
  | requestFrom address size stopBit =>
    obtain ⟨hstop, hpos, hroom⟩ := h
    refine ⟨?_, hstop, hroom⟩
    rintro rfl
    simp at hpos

lemma transaction_success {dev : TwoWire} {s : LineState} {c : WireCall} (hc : c.Transfers dev)
    (h : s.Taking dev.timeout) : (c.transaction dev s).1 = c.success := by
  cases c with
  | endTransmission stopBit =>
    obtain ⟨rfl, hdata⟩ := hc
    obtain ⟨hres, hnext⟩ := h.i2cStart dev.slaveAddress false
    simp only [transaction, if_true, LineState.write, if_neg hdata, hres, ne_eq, not_true, if_false,
      hnext.sendAll, success]
  | requestFrom address size stopBit =>
    have hstarts := hc.starts
    simp only [Starts] at hstarts
    obtain ⟨hres, hnext⟩ := h.i2cStart address true
    obtain ⟨hok, hlen⟩ := hnext.recvAll size.toInt.toNat
    simp only [transaction, if_pos hstarts, LineState.request, hres, ne_eq, not_true, if_false, hok,
      hlen, if_true, success]

lemma refused_ne_success {dev : TwoWire} {c : WireCall} (hc : c.Transfers dev) :
    c.refused.1 ≠ c.success := by
  cases c with
  | endTransmission stopBit => simp [refused, success]
  | requestFrom address size stopBit =>
    obtain ⟨-, hpos, hroom⟩ := hc
    intro heq
    have hnat := congrArg BitVec.toNat heq
    simp only [refused, success, BitVec.toNat_ofNat] at hnat
    simp at hnat
    omega

end WireCall

section Independence

variable {fuel : ℕ} {w₀ w₁ w₂ : Wire I2cBus} {ops₁ ops₂ : List WireOp}

/-- After two histories a call with the same address and data, and the same answers of the slave,
has the same outcome exactly when the histories leave the same `ACKSTAT`, or the call would not put
its address byte on the bus in any case. A call whose bytes are all acknowledged in time succeeds
exactly when its history leaves `ACKSTAT` clear. -/
theorem wire_independent_iff (h₀ : Calm fuel w₀.bus)
    (h₁ : Runs.run (wireStep fuel) w₀ ops₁ = some w₁)
    (h₂ : Runs.run (wireStep fuel) w₀ ops₂ = some w₂) (c : WireCall) (answers : SlaveAnswers)
    (hinput : c.input w₁.dev = c.input w₂.dev) :
    (c.outcome fuel answers w₁ = c.outcome fuel answers w₂ ↔
      w₁.bus.ackstat = w₂.bus.ackstat ∨ ¬ c.Addresses w₁.dev answers) ∧
    (c.Transfers w₁.dev → w₁.dev.timeout ≠ 1 →
      (∀ n, (answers.sent n).result w₁.dev.timeout.toNat = 0) →
      ((c.outcome fuel answers w₁).map (·.1) = some c.success ↔ w₁.bus.ackstat = false)) := by
  have hs₁ : Settled fuel w₀.dev.timeout w₁ := Settled.run ⟨h₀, rfl⟩ h₁
  have hs₂ : Settled fuel w₀.dev.timeout w₂ := Settled.run ⟨h₀, rfl⟩ h₂
  have htimeout := hs₁.timeout.trans hs₂.timeout.symm
  have hcongr := fun s => c.transaction_congr s htimeout hinput
  have hiff := c.transaction_agrees_iff w₁.dev answers
  rw [hs₁.outcome, hs₂.outcome, ← hcongr]
  constructor
  · rw [← hiff, Option.some.injEq, Prod.mk.injEq]
    cases w₁.bus.ackstat <;> cases w₂.bus.ackstat
    · simp
    · simp [eq_comm]
    · simp
    · simp
  · intro hc htimeout' hsent
    rw [Option.map_some, Option.some.injEq]
    cases hack : w₁.bus.ackstat with
    | false =>
      simp only [iff_true]
      exact WireCall.transaction_success hc ⟨htimeout', rfl, hsent⟩
    | true =>
      have hkept := WireCall.transaction_kept (s := ⟨true, answers, []⟩) hc.starts
        (Or.inl (LineState.idle_of_nack rfl))
      rw [hkept.1]
      simp [WireCall.refused_ne_success hc]

end Independence

/-! ### A NACK and the next write -/

/-- A driver with a short timeout on an idle bus whose commands take no time. -/
def idleWire : Wire I2cBus where
  dev := { TwoWire.new with timeout := 5 }
  bus := ⟨0x8000, 157, 0, 0, fun _ => 0, 0, 0, false, false, 0,
    ⟨fun _ => ⟨false, 0, 0, true⟩, fun _ => 0⟩, []⟩

/-- A slave that acknowledges every byte, or none. -/
def slaveAnswering (ack : Bool) : SlaveAnswers := ⟨fun _ => ⟨false, 1, 2, ack⟩, fun _ => 0⟩

/-- A write of one byte, answered by `ack`. -/
def oneByteWrite (ack : Bool) : List WireOp :=
  [.beginTransmission 0x20, .write 0x55, .call (.endTransmission true) (slaveAnswering ack)]

lemma calm_idleWire : Calm 1 idleWire.bus := ⟨rfl, rfl, rfl, fun _ => Nat.one_pos⟩

theorem wire_independent_of_acknowledged :
    ∃ w₁ w₂, Runs.run (wireStep 1) idleWire [] = some w₁ ∧
      Runs.run (wireStep 1) idleWire (oneByteWrite true) = some w₂ ∧
      WireCall.outcome 1 (slaveAnswering true) (.requestFrom 0x21 2 true) w₁ =
        WireCall.outcome 1 (slaveAnswering true) (.requestFrom 0x21 2 true) w₂ := by
  have hrun : (Runs.run (wireStep 1) idleWire (oneByteWrite true)).map (·.bus.ackstat) =
      some false := by decide +kernel
  obtain ⟨w₂, h₂, hack⟩ := Option.map_eq_some_iff.mp hrun
  have h₁ : Runs.run (wireStep 1) idleWire [] = some idleWire := rfl
  have hsame : idleWire.bus.ackstat = w₂.bus.ackstat := hack.symm
  refine ⟨idleWire, w₂, h₁, h₂, ?_⟩
  exact (wire_independent_iff calm_idleWire h₁ h₂ (.requestFrom 0x21 2 true)
    (slaveAnswering true) rfl).1.mpr (Or.inl hsame)

/-- After a write that the slave does not acknowledge, a write that it acknowledges fails. -/
theorem wire_fails_after_nack : ¬ ∀ (fuel : ℕ) (w₀ w₁ w₂ : Wire I2cBus) (ops₁ ops₂ : List WireOp),
    Calm fuel w₀.bus → Runs.run (wireStep fuel) w₀ ops₁ = some w₁ →
    Runs.run (wireStep fuel) w₀ ops₂ = some w₂ → ∀ (c : WireCall) (answers : SlaveAnswers),
      c.input w₁.dev = c.input w₂.dev →
      c.outcome fuel answers w₁ = c.outcome fuel answers w₂ := by
  intro hall
  have hfresh : (Runs.run (wireStep 1) idleWire [.beginTransmission 0x20, .write 0x55]).map
      (fun w => (w.dev.slaveAddress, w.dev.tx.contents,
        WireCall.outcome 1 (slaveAnswering true) (.endTransmission true) w)) =
      some (0x20, [0x55], some (0, [.start, .byte 0x40, .byte 0x55, .stop])) := by decide +kernel
  have hstale : (Runs.run (wireStep 1) idleWire
      (oneByteWrite false ++ [.beginTransmission 0x20, .write 0x55])).map
      (fun w => (w.dev.slaveAddress, w.dev.tx.contents,
        WireCall.outcome 1 (slaveAnswering true) (.endTransmission true) w)) =
      some (0x20, [0x55], some (4, [.start])) := by decide +kernel
  obtain ⟨w₁, h₁, hw₁⟩ := Option.map_eq_some_iff.mp hfresh
  obtain ⟨w₂, h₂, hw₂⟩ := Option.map_eq_some_iff.mp hstale
  simp only [Prod.mk.injEq] at hw₁ hw₂
  have hsame := hall 1 idleWire w₁ w₂ _ _ calm_idleWire h₁ h₂ (.endTransmission true)
    (slaveAnswering true) (by simp only [WireCall.input, hw₁, hw₂])
  rw [hw₁.2.2, hw₂.2.2] at hsame
  exact absurd hsame (by decide)

end FrameworkXC32
