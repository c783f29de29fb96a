import FrameworkXC32.CoreTimer.Model
import FrameworkXC32.Pins.Model

/-!
# `SoftwareSerial`

The class of `SoftwareSerial.h` and the table `ss_context`, through which the interrupt handlers
find the instance that they serve. Objects live at addresses; the constructor runs on the raw
memory that it is given.
-/

namespace FrameworkXC32
open Machine

/-- `m_buffer` is null, or points to `buffSize` bytes whose contents are `buffer`. -/
structure SoftwareSerial where
  rxPin : Word
  txPin : Word
  txEnablePin : Word
  rxValid : Bool
  rxEnabled : Bool
  txValid : Bool
  txEnabled : Bool
  invert : Bool
  overflow : Bool
  bitTime : Word
  inPos : Word
  outPos : Word
  buffSize : Word
  allocated : Bool
  buffer : ℕ → Byte
  rxId : Word

/-- `SOFTWARE_SERIAL_MAX` -/
def softwareSerialMax : ℕ := 2

instance : NeZero softwareSerialMax := ⟨by decide⟩

namespace SoftwareSerial

/-! ### The stream -/

def peek (s : SoftwareSerial) : ℤ :=
  if !s.rxValid || s.inPos = s.outPos then -1 else (s.buffer s.outPos.toNat).toNat

/-- The difference of the positions is an `int`. -/
def available (s : SoftwareSerial) : ℤ :=
  if s.rxValid then
    let avail := (s.inPos - s.outPos).toInt
    if avail < 0 then avail + s.buffSize.toInt else avail
  else 0

def flush (s : SoftwareSerial) : SoftwareSerial :=
  { s with inPos := 0, outPos := 0, overflow := false }

def read (s : SoftwareSerial) : ℤ × SoftwareSerial :=
  if !s.rxValid || s.inPos = s.outPos then (-1, s)
  else
    ((s.buffer s.outPos.toNat).toNat, { s with outPos := (s.outPos + 1) % s.buffSize })

/-- The end of `rxRead` for a byte whose stop bit was seen; `none` where it divides by zero. -/
def store (received : Byte) (s : SoftwareSerial) : Option SoftwareSerial :=
  if s.buffSize = 0 then none
  else
    let next := (s.inPos + 1) % s.buffSize
    if next ≠ s.outPos then
      some { s with
        buffer := Function.update s.buffer s.inPos.toNat (if s.invert then ~~~received else received)
        inPos := next }
    else some { s with overflow := true }

/-- The eight samples of the data bits, the first into bit 0. -/
def shiftIn : List Bool → Byte → Byte
  | [], received => received
  | bit :: bits, received =>
    let shifted := received >>> 1
    shiftIn bits (if bit then shifted ||| 0x80 else shifted)

/-- `rxRead`, with the levels that `digitalRead` returns: at the start bit, at the data bits and at
the stop bit. -/
def rxRead (start : Bool) (bits : List Bool) (stop : Bool) (s : SoftwareSerial) :
    Option SoftwareSerial :=
  if start then some s
  else
    let received := shiftIn bits 0
    if stop then s.store received else some s

end SoftwareSerial

/-- The board with the objects on it. Callback `i` of a pin is `SOFTWARE_SERIAL_RX_i`. -/
structure SerialBoard where
  pins : Pins ℕ
  context : Fin softwareSerialMax → Option ℕ
  object : ℕ → Option SoftwareSerial

namespace SerialBoard

variable (board : Board)

/-- The argument of `isValidPin` is a `uint8_t`. -/
def isValidPin (pin : Word) : Bool := (pin.setWidth 8).toNat < board.pins.length

/-- The first slot whose `serial` is null, or -1. -/
def ssGetInterface (context : Fin softwareSerialMax → Option ℕ) : Word :=
  match (List.finRange softwareSerialMax).find? fun i => (context i).isNone with
  | some i => BitVec.ofNat 32 i
  | none => -1

/-- `ss_context[id].serial = serial`, for an index below `SOFTWARE_SERIAL_MAX`. -/
def setSerial (id : Word) (serial : Option ℕ) (w : SerialBoard) : SerialBoard :=
  { w with context := fun i => if i.val = id.toNat then serial else w.context i }

def setObject (this : ℕ) (s : Option SoftwareSerial) (w : SerialBoard) : SerialBoard :=
  { w with object := Function.update w.object this s }

/-- `enableRx` of an object, which is returned with the new `m_rxEnabled`. -/
def enableRx (on : Bool) (s : SoftwareSerial) (w : SerialBoard) : SoftwareSerial × SerialBoard :=
  if s.rxValid && s.rxEnabled != on then
    let pins :=
      if on then w.pins.attachInterrupt board s.rxPin.toNat (some s.rxId.toNat)
        (if s.invert then Mode.rising else Mode.falling)
      else w.pins.detachInterrupt board s.rxPin.toNat
    ({ s with rxEnabled := on }, { w with pins := pins })
  else (s, w)

/-- The half of the constructor that is about the transmit pin. -/
def constructTx (transmitPin : Word) (inverseLogic : Bool) (s : SoftwareSerial) (w : SerialBoard) :
    SoftwareSerial × SerialBoard :=
  let s := { s with
    rxId := -1, invert := inverseLogic, rxValid := false, txValid := false, txEnabled := false
    rxEnabled := false, allocated := false, overflow := false }
  if isValidPin board transmitPin then
    let pins := w.pins.pinMode board transmitPin.toNat Mode.output
    let pins := pins.digitalWrite board transmitPin.toNat !inverseLogic
    ({ s with txPin := transmitPin, txValid := true }, { w with pins := pins })
  else (s, w)

/-- The half that is about the receive pin. `malloc` has no object above `PTRDIFF_MAX`. -/
def constructRx (this : ℕ) (receivePin buffSize : Word) (malloc : Bool) (s : SoftwareSerial)
    (w : SerialBoard) : SoftwareSerial × SerialBoard :=
  let s := { s with rxId := ssGetInterface w.context }
  if isValidPin board receivePin && s.rxId.toNat < softwareSerialMax &&
      (malloc && buffSize.toNat < 2 ^ 31) then
    let s := { s with
      allocated := true, buffSize := buffSize, inPos := 0, outPos := 0, rxPin := receivePin }
    let w := { w with pins := w.pins.pinMode board receivePin.toNat Mode.input }
    ({ s with rxValid := true }, w.setSerial s.rxId (some this))
  else (s, w)

/-- The constructor, on raw memory at the address `this`. -/
def construct (this : ℕ) (raw : SoftwareSerial) (transmitPin receivePin : Word)
    (inverseLogic : Bool) (buffSize : Word) (malloc : Bool) (w : SerialBoard) : SerialBoard :=
  let (s, w) := constructTx board transmitPin inverseLogic raw w
  let (s, w) := constructRx board this receivePin buffSize malloc s w
  w.setObject this (some s)

/-- The destructor. -/
def destroy (this : ℕ) (s : SoftwareSerial) (w : SerialBoard) : SerialBoard :=
  let (s, w) := enableRx board false s w
  let w := if s.rxId.toNat < softwareSerialMax then w.setSerial s.rxId none else w
  w.setObject this none

/-- `begin`; a speed of zero traps. -/
def begin (fcpu speed : Word) (this : ℕ) (s : SoftwareSerial) (w : SerialBoard) :
    Option SerialBoard :=
  if speed = 0 then none
  else
    let s := { s with bitTime := sysClkBusPeripheral1 fcpu / speed }
    let (s, w) := enableRx board true s w
    some (w.setObject this (some s))

/-- `end`, `stopListening` -/
def endSerial (this : ℕ) (s : SoftwareSerial) (w : SerialBoard) : SerialBoard :=
  let (s, w) := enableRx board false s w
  w.setObject this (some s)

/-- `SOFTWARE_SERIAL_RX_i`: the object on which it runs `rxRead`, `none` where it has none. -/
def softwareSerialRx (i : Fin softwareSerialMax) (w : SerialBoard) :
    Option (ℕ × SoftwareSerial) := do
  let this ← w.context i
  let s ← w.object this
  some (this, s)

end SerialBoard

end FrameworkXC32
