import FrameworkXC32.Api.RingBuffer
import FrameworkXC32.CoreTimer.Model

/-!
# The I2C driver

`TwoWire` of `Wire.h` and `Wire.cpp`, over any hardware: a port gives what a read of a register
returns and what reads and writes do to the hardware. A wait without a timeout polls at most `fuel`
times; a call is `none` when such a wait does not end.
-/

namespace FrameworkXC32
open Machine

inductive I2cReg
  | con
  | sta
  | brg
  | trn
  | rcv
deriving DecidableEq, Repr

/-- The address a register is written at: its own, or one of its three aliases. -/
inductive RegAlias
  | reg
  | clr
  | set
  | inv
deriving DecidableEq, Repr

structure I2cPort (β : Type) where
  read : I2cReg → β → Word × β
  write : I2cReg → RegAlias → Word → β → β

/-! ### Masks -/

def conSen : Word := 0x0001
def conRsen : Word := 0x0002
def conPen : Word := 0x0004
def conRcen : Word := 0x0008
def conAcken : Word := 0x0010
def conAckdt : Word := 0x0020
def staTbf : Word := 0x0001
def staIwcol : Word := 0x0080
def staTrstat : Word := 0x4000
def staAckstat : Word := 0x8000

namespace TwoWire

variable {β : Type} (P : I2cPort β)

/-! ### The private functions -/

/-- `while (*con & mask) continue;` -/
def waitCon (mask : Word) : ℕ → β → Option β
  | 0, _ => none
  | fuel + 1, b =>
    let (con, b) := P.read .con b
    if con &&& mask ≠ 0 then waitCon mask fuel b else some b

variable {P} in
lemma waitCon_keeps {γ : Type} {f : β → γ} (hread : ∀ b, f (P.read .con b).2 = f b) {mask : Word}
    {fuel : ℕ} {b b' : β} (h : waitCon P mask fuel b = some b') : f b' = f b := by
  induction fuel generalizing b with
  | zero => cases h
  | succ fuel ih =>
    simp only [waitCon] at h
    split at h
    · rw [ih h, hread]
    · rw [← Option.some.inj h, hread]

def stop (fuel : ℕ) (b : β) : Option β :=
  waitCon P conPen fuel (P.write .con .set conPen b)

def start (fuel : ℕ) (b : β) : Option β :=
  waitCon P conSen fuel (P.write .con .set conSen b)

/-- `_ack`; `con + REG_CLR + ack` is the clear alias for `false`, the set alias for `true`. -/
def ack (fuel : ℕ) (ack : Bool) (b : β) : Option β :=
  let b := P.write .con (if ack then .set else .clr) conAckdt b
  let b := P.write .con .set conAcken b
  waitCon P conAcken fuel b

/-- The loop of `_idle`, entered with the value of `T`; the value with which it is left. -/
def idleLoop : ℕ → β → Word × β
  | 0, b => (0xFFFFFFFF, b)
  | T + 1, b =>
    let (con, b) := P.read .con b
    if con &&& 0b11111 = 0 then (BitVec.ofNat 32 T, b)
    else
      let (sta, b) := P.read .sta b
      if sta &&& staTrstat = 0 then (BitVec.ofNat 32 T, b) else idleLoop T b

def idle (timeout : Word) (b : β) : ℤ × β :=
  let (T, b) := idleLoop P timeout.toNat b
  if T = 0 then (-1, b)
  else
    let (sta, b) := P.read .sta b
    (if sta &&& staAckstat ≠ 0 then -2 else 0, b)

/-- `while (*sta & mask) if (0 == T--) return ...;`, with the value of `T` it ends with, `none`
when it returns. -/
def waitSta (mask : Word) : ℕ → β → Option ℕ × β
  | T, b =>
    let (sta, b) := P.read .sta b
    if sta &&& mask ≠ 0 then
      match T with
      | 0 => (none, b)
      | T + 1 => waitSta mask T b
    else (some T, b)

def send (timeout : Word) (data : Byte) (b : β) : ℤ × β :=
  let (res, b) := idle P timeout b
  if res ≠ 0 then (-1, b)
  else
    let b := P.write .trn .reg (data.setWidth 32) b
    let (sta, b) := P.read .sta b
    if sta &&& staIwcol ≠ 0 then (-2, P.write .sta .clr staIwcol b)
    else
      match waitSta P staTbf timeout.toNat b with
      | (none, b) => (-3, b)
      | (some T, b) =>
        match waitSta P staTrstat T b with
        | (none, b) => (-4, b)
        | (some _, b) =>
          let (sta, b) := P.read .sta b
          (if sta &&& staAckstat ≠ 0 then -5 else 0, b)

def recv (fuel : ℕ) (timeout : Word) (b : β) : Option (ℤ × β) :=
  let (res, b) := idle P timeout b
  if res ≠ 0 then some (-1, b)
  else do
    let b ← waitCon P conRcen fuel (P.write .con .set conRcen b)
    let (rcv, b) := P.read .rcv b
    some (rcv.toInt, b)

/-- The address byte of a transfer, `I2C_READ` being `true`. -/
def addressByte (slaveAddress : Byte) (operation : Bool) : Byte :=
  slaveAddress <<< 1 ||| if operation then 1 else 0

def i2cStart (fuel : ℕ) (timeout : Word) (slaveAddress : Byte) (operation : Bool) (b : β) :
    Option (ℤ × β) := do
  let b ← start P fuel b
  let (res, b) := send P timeout (addressByte slaveAddress operation) b
  if res ≠ 0 then some (res, b) else some (idle P timeout b)

/-- The loop of `requestFrom` with `n` bytes to go: whether all were received. -/
def recvLoop (fuel : ℕ) (timeout : Word) : ℕ → RingBuffer → β → Option (Bool × RingBuffer × β)
  | 0, rx, b => some (true, rx, b)
  | n + 1, rx, b => do
    let (data, b) ← recv P fuel timeout b
    if data < 0 then some (false, rx, b)
    else
      let rx := rx.storeChar (BitVec.ofInt 8 data)
      -- the last byte is not acknowledged
      let b ← ack P fuel (n ≠ 0) b
      recvLoop fuel timeout n rx b

/-- The loop of `endTransmission` with `size` bytes to go: whether all were sent. -/
def sendLoop (timeout : Word) : ℕ → RingBuffer → β → Bool × RingBuffer × β
  | 0, tx, b => (true, tx, b)
  | size + 1, tx, b =>
    let (data, tx) := tx.readChar
    let (res, b) := send P timeout (BitVec.ofInt 8 data) b
    if res ≠ 0 then (false, tx, b) else sendLoop timeout size tx b

end TwoWire

/-! ### The class -/

structure TwoWire where
  speed : Word
  timeout : Word
  transmissionBegun : Bool
  slaveAddress : Byte
  rx : RingBuffer
  tx : RingBuffer

/-- The driver and its hardware. -/
structure Wire (β : Type) where
  dev : TwoWire
  bus : β

namespace TwoWire

def new : TwoWire where
  speed := 100000
  timeout := 0x8000
  transmissionBegun := false
  slaveAddress := 0x3C
  rx := .new 256
  tx := .new 256

variable {β : Type} (P : I2cPort β)

def endWire (w : Wire β) : Wire β :=
  { w with bus := P.write .sta .reg 0 (P.write .con .reg 0 w.bus) }

def flush (w : Wire β) : Wire β :=
  let (_, bus) := P.read .rcv w.bus
  { dev := { w.dev with tx := w.dev.tx.clear, rx := w.dev.rx.clear }
    bus := P.write .sta .reg 0 bus }

def begin (fuel : ℕ) (address : Byte) (w : Wire β) : Option (Wire β) := do
  let dev := { w.dev with slaveAddress := address }
  let bus := P.write .brg .reg 157 w.bus
  let bus := P.write .con .reg 0x8000 bus
  let w := flush P ⟨dev, bus⟩
  let bus ← stop P fuel w.bus
  some { w with bus := bus }

def setTimeOut (timeout : Word) (w : Wire β) : Wire β :=
  { w with dev := { w.dev with timeout := timeout } }

def setClock (fcpu speedHz : Word) (w : Wire β) : Wire β :=
  if w.dev.speed ≠ speedHz then
    let brg := sysClkBusPeripheral1 fcpu / speedHz - sysClkBusPeripheral1 fcpu / 10000000 - 1
    { dev := { w.dev with speed := speedHz }, bus := P.write .brg .reg brg w.bus }
  else w

def beginTransmission (address : Byte) (w : Wire β) : Wire β :=
  { w with dev := { w.dev with
      slaveAddress := address
      tx := w.dev.tx.clear
      transmissionBegun := true } }

def endTransmission (fuel : ℕ) (stopBit : Bool) (w : Wire β) : Option (Byte × Wire β) :=
  if stopBit then do
    let dev := { w.dev with transmissionBegun := false }
    let size := dev.tx.available
    if size > 0 then
      let (res, bus) ← i2cStart P fuel dev.timeout dev.slaveAddress false w.bus
      if res ≠ 0 then some (4, ⟨dev, bus⟩)
      else
        match sendLoop P dev.timeout size.toNat dev.tx bus with
        | (false, tx, bus) => some (3, ⟨{ dev with tx := tx }, bus⟩)
        | (true, tx, bus) => do
          let bus ← stop P fuel bus
          some (0, ⟨{ dev with tx := tx }, bus⟩)
    else some (2, ⟨dev, w.bus⟩)
  else some (1, w)

def requestFrom (fuel : ℕ) (address : Byte) (size : Word) (stopBit : Bool) (w : Wire β) :
    Option (Byte × Wire β) :=
  let dev := { w.dev with slaveAddress := address }
  if size = 0 then some (0, ⟨dev, w.bus⟩)
  else if !stopBit then some (0, ⟨dev, w.bus⟩)
  else
    let dev := { dev with rx := dev.rx.clear }
    if dev.rx.availableForStore < size.toInt then some (0, ⟨dev, w.bus⟩)
    else do
      let (res, bus) ← i2cStart P fuel dev.timeout dev.slaveAddress true w.bus
      if res ≠ 0 then
        let bus ← stop P fuel bus
        some (0, ⟨dev, bus⟩)
      else
        let (received, rx, bus) ← recvLoop P fuel dev.timeout size.toInt.toNat dev.rx bus
        let bus ← stop P fuel bus
        some (if received then BitVec.ofInt 8 rx.available else 0, ⟨{ dev with rx := rx }, bus⟩)

def write (ucData : Byte) (w : Wire β) : ℕ × Wire β :=
  if !w.dev.transmissionBegun || w.dev.tx.isFull then (0, w)
  else (1, { w with dev := { w.dev with tx := w.dev.tx.storeChar ucData } })

def available (w : Wire β) : ℤ := w.dev.rx.available

def read (w : Wire β) : ℤ × Wire β :=
  let (c, rx) := w.dev.rx.readChar
  (c, { w with dev := { w.dev with rx := rx } })

def peek (w : Wire β) : ℤ := w.dev.rx.peek

lemma ofInt_toNat (c : Byte) : BitVec.ofInt 8 (c.toNat : ℤ) = c := by
  rw [BitVec.ofInt_natCast, BitVec.ofNat_toNat, BitVec.setWidth_eq]

end TwoWire

/-- The calls that use the bus. -/
inductive WireCall
  | endTransmission (stopBit : Bool)
  | requestFrom (address : Byte) (size : Word) (stopBit : Bool)
deriving DecidableEq, Repr

def WireCall.exec {β : Type} (P : I2cPort β) (fuel : ℕ) :
    WireCall → Wire β → Option (Byte × Wire β)
  | .endTransmission stopBit, w => TwoWire.endTransmission P fuel stopBit w
  | .requestFrom address size stopBit, w => TwoWire.requestFrom P fuel address size stopBit w

end FrameworkXC32
