import FrameworkXC32.Wire.Model

/-!
# An I2C bus

The hardware of one I2C module with a slave on its bus. A command bit of `I2CxCON` stays set for
some polls; a byte written to `I2CxTRN` collides, or is sent and acknowledged or not; `ACKSTAT`
keeps the acknowledge of the last byte sent until the next one or a write of `I2CxSTAT`.
-/

namespace FrameworkXC32
open Machine

/-- What becomes of a byte written to `I2CxTRN`: a collision, or the polls for which `TBF` and
`TRSTAT` stay set, and the acknowledge. -/
structure ByteAnswer where
  collision : Bool
  tbf : ℕ
  trstat : ℕ
  ack : Bool
deriving DecidableEq, Repr

/-- The answers of the slave during a call: to the bytes sent, and the bytes it sends. -/
structure SlaveAnswers where
  sent : ℕ → ByteAnswer
  received : ℕ → Byte

def SlaveAnswers.dropSent (a : SlaveAnswers) : SlaveAnswers :=
  { a with sent := fun n => a.sent (n + 1) }

def SlaveAnswers.dropReceived (a : SlaveAnswers) : SlaveAnswers :=
  { a with received := fun n => a.received (n + 1) }

/-- What is seen on the two lines. -/
inductive WireEvent
  | start
  | restart
  | stop
  | byte (c : Byte)
  | received (c : Byte)
  | ack (a : Bool)
deriving DecidableEq, Repr

structure I2cBus where
  con : Word
  brg : Word
  /-- The command bit in progress, and the polls for which it still reads 1. -/
  command : Word
  polls : ℕ
  delays : ℕ → ℕ
  tbf : ℕ
  trstat : ℕ
  iwcol : Bool
  ackstat : Bool
  rcv : Byte
  answers : SlaveAnswers
  wire : List WireEvent

namespace I2cBus

def emit (e : WireEvent) (b : I2cBus) : I2cBus := { b with wire := b.wire ++ [e] }

def issue (command : Word) (b : I2cBus) : I2cBus :=
  { b with command := command, polls := b.delays 0, delays := fun n => b.delays (n + 1) }

def receive (b : I2cBus) : I2cBus :=
  let c := b.answers.received 0
  { b.emit (.received c) with rcv := c, answers := b.answers.dropReceived }

/-- A write to the set alias of `I2CxCON`; `ACKDT` clear is an acknowledge. -/
def setCon (mask : Word) (b : I2cBus) : I2cBus :=
  if mask = conSen then (b.issue mask).emit .start
  else if mask = conRsen then (b.issue mask).emit .restart
  else if mask = conPen then (b.issue mask).emit .stop
  else if mask = conRcen then (b.issue mask).receive
  else if mask = conAcken then (b.issue mask).emit (.ack (b.con &&& conAckdt = 0))
  else { b with con := regSet b.con mask }

def transmit (c : Byte) (b : I2cBus) : I2cBus :=
  let a := b.answers.sent 0
  let b := { b with answers := b.answers.dropSent }
  if a.collision then { b with iwcol := true }
  else { b.emit (.byte c) with tbf := a.tbf, trstat := a.trstat, ackstat := !a.ack }

/-- `I2CxSTAT` from its bits. -/
def statusWord (tbf iwcol trstat ackstat : Bool) : Word :=
  (if tbf then staTbf else 0) ||| (if iwcol then staIwcol else 0) |||
    (if trstat then staTrstat else 0) ||| (if ackstat then staAckstat else 0)

def sta (b : I2cBus) : Word := statusWord (b.tbf ≠ 0) b.iwcol (b.trstat ≠ 0) b.ackstat

/-- Time passes from one read of `I2CxSTAT` to the next. -/
def tick (n : ℕ) (b : I2cBus) : I2cBus := { b with tbf := b.tbf - n, trstat := b.trstat - n }

def writeSta (b : I2cBus) (sta : Word) : I2cBus :=
  { b with iwcol := sta &&& staIwcol ≠ 0, ackstat := sta &&& staAckstat ≠ 0 }

end I2cBus

def i2cBus : I2cPort I2cBus where
  read
    | .con, b => (b.con ||| if b.polls ≠ 0 then b.command else 0, { b with polls := b.polls - 1 })
    | .sta, b => (b.sta, b.tick 1)
    | .brg, b => (b.brg, b)
    | .trn, b => (0, b)
    | .rcv, b => (b.rcv.setWidth 32, b)
  write
    | .con, .reg, v, b => { b with con := v, polls := 0 }
    | .con, .clr, v, b => { b with con := regClr b.con v }
    | .con, .set, v, b => b.setCon v
    | .con, .inv, v, b => { b with con := regInv b.con v }
    | .sta, .reg, v, b => b.writeSta v
    | .sta, .clr, v, b => b.writeSta (regClr b.sta v)
    | .sta, .set, v, b => b.writeSta (regSet b.sta v)
    | .sta, .inv, v, b => b.writeSta (regInv b.sta v)
    | .trn, _, v, b => b.transmit (v.setWidth 8)
    | .brg, _, v, b => { b with brg := v }
    | .rcv, _, _, b => b

section Port

variable (b : I2cBus) (v : Word)

@[simp] lemma i2cBus_read_con : i2cBus.read .con b =
    (b.con ||| if b.polls ≠ 0 then b.command else 0, { b with polls := b.polls - 1 }) := rfl

@[simp] lemma i2cBus_read_sta : i2cBus.read .sta b = (b.sta, b.tick 1) := rfl

@[simp] lemma i2cBus_read_rcv : i2cBus.read .rcv b = (b.rcv.setWidth 32, b) := rfl

@[simp] lemma i2cBus_write_con_set : i2cBus.write .con .set v b = b.setCon v := rfl

@[simp] lemma i2cBus_write_con_clr :
    i2cBus.write .con .clr v b = { b with con := regClr b.con v } := rfl

@[simp] lemma i2cBus_write_sta_clr :
    i2cBus.write .sta .clr v b = b.writeSta (regClr b.sta v) := rfl

@[simp] lemma i2cBus_write_trn (a : RegAlias) :
    i2cBus.write .trn a v b = b.transmit (v.setWidth 8) := rfl

end Port

end FrameworkXC32
