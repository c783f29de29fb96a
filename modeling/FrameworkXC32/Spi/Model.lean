import FrameworkXC32.Critical.Processes
import FrameworkXC32.Lib.Runs

/-!
# SPI port

`SPIClass` over the registers of its port. A write through a null pointer and a division by zero
are `none`. The wait for SPIRBF behind each word is taken to end.
-/

namespace FrameworkXC32
open Machine

/-- A line of `spi_context`: the remap registers of the pins, `none` for NULL, and their values. -/
structure SpiContext where
  rpinMiso : Option ℕ
  rvalMiso : Word
  rpinMosi : Option ℕ
  rvalMosi : Word
  rpinCs : Option ℕ
  rvalCs : Word
deriving DecidableEq, Repr

structure SPISettings where
  clock : Word
  order : Byte
  mode : Byte
deriving DecidableEq, Repr

/-- The fields of `SPIClass`, the registers of its port, and the words written to SPIxBUF, each
with SPIxCON at that time. -/
structure Spi where
  mode : Word
  brgHz : Word
  bitOrder : Word
  bitSize : Word
  con : Word
  sta : Word
  brg : Word
  buf : List (Word × Word)
  cpu : Cpu

def pinHard : ℤ := -2

def msbFirst : Byte := 1

def spiMode0 : Byte := 0

/-- Masks of SPIxCON. -/
def spiCkp : Word := (1 : Word) <<< 6

def spiCke : Word := (1 : Word) <<< 8

/-- `(3 << 10)`, the bits of the data width. -/
def spiWidth : Word := (3 : Word) <<< 10

def spiMode16 : Word := (1 : Word) <<< 10

def spiMode32 : Word := (2 : Word) <<< 10

def spiOnMsten : Word := (1 : Word) <<< 15 ||| (1 : Word) <<< 5

def spiMssen : Word := (1 : Word) <<< 28

/-- `*reg = val` -/
def Cpu.store (reg : Option ℕ) (val : Word) (c : Cpu) : Option Cpu :=
  reg.map fun r => c.write (.rpr r) val

/-- `if (guard) *reg = val` -/
def Cpu.storeIf (guard reg : Option ℕ) (val : Word) (c : Cpu) : Option Cpu :=
  if guard.isSome then c.store reg val else some c

namespace Spi

variable (fcpu : Word) (u : SpiContext)

def setRPins (rpinMiso : Option ℕ) (rvalMiso : Word) (rpinMosi : Option ℕ) (rvalMosi : Word)
    (rpinCs : Option ℕ) (rvalCs : Word) (c : Cpu) : Option Cpu := do
  let c := c.systemUnlock
  let c ← c.storeIf u.rpinMosi rpinMosi 0
  let c ← c.storeIf u.rpinCs rpinCs 0
  let c ← c.storeIf rpinMiso rpinMiso rvalMiso
  let c ← c.storeIf rpinMosi rpinMosi rvalMosi
  let c ← c.storeIf rpinCs rpinCs rvalCs
  some c.systemLock

/-- `SPIClass(ID)`, over a port in its reset state. -/
def construct (sta : Word) (cpu : Cpu) : Option Spi := do
  let cpu ← setRPins u u.rpinMiso u.rvalMiso u.rpinMosi u.rvalMosi u.rpinCs u.rvalCs cpu
  some {
    mode := -1, brgHz := -1, bitOrder := -1, bitSize := 8,
    con := 0, sta := sta, brg := 0, buf := [], cpu := cpu }

def withCon (con : Word) (s : Spi) : Spi := { s with con := con }

def withBrg (brg : Word) (s : Spi) : Spi := { s with brg := brg }

/-- A write of the mask to the alias CLR of SPIxCON, or to the alias SET, `bit` places behind it. -/
def writeCon (bit : Bool) (mask : Word) (s : Spi) : Spi :=
  s.withCon (if bit then regSet s.con mask else regClr s.con mask)

/-- `setPins`, less `pinMode(cs, OUTPUT)`, which writes registers of the GPIO port only. -/
def setPins (miso mosi cs : ℤ) (s : Spi) : Option Spi := do
  let s := s.writeCon false spiMssen
  let s := if cs = pinHard ∧ u.rpinCs.isSome then s.writeCon true spiMssen else s
  let select (pin : ℤ) (rpin : Option ℕ) := if pin = pinHard then rpin else none
  let value (pin : ℤ) (rval : Word) := if pin = pinHard then rval else 0
  let cpu ← setRPins u (select miso u.rpinMiso) (value miso u.rvalMiso)
    (select mosi u.rpinMosi) (value mosi u.rvalMosi) (select cs u.rpinCs) (value cs u.rvalCs) s.cpu
  some { s with cpu := cpu }

def «end» (s : Spi) : Spi := { s with con := 0, sta := 0 }

def setFrequency (hz : Word) (s : Spi) : Option Spi :=
  if s.brgHz ≠ hz then
    if hz = 0 then none
    else some { s with brgHz := hz, brg := ((sysClkBusPeripheral1 fcpu / hz) >>> 1) - 1 }
  else some s

/-- The parameter hides the field of the same name, on both sides of the test and of the
assignment. -/
def setDataMode (mode : Byte) (s : Spi) : Spi :=
  if mode != mode then
    let s := s.writeCon (mode.getLsbD 0) spiCke
    let mode := mode >>> 1
    s.writeCon (mode.getLsbD 0) spiCkp
  else s

def setBitOrder (order : Byte) (s : Spi) : Spi :=
  if s.bitOrder ≠ order.setWidth 32 then { s with bitOrder := order.setWidth 32 } else s

def setBitSize (size : Byte) (s : Spi) : Spi :=
  if s.bitSize ≠ size.setWidth 32 then
    let con := s.con &&& ~~~spiWidth
    let con := if size = 16 then con ||| spiMode16 else if size = 32 then con ||| spiMode32 else con
    { s with bitSize := size.setWidth 32, con := con }
  else s

def setClockDivider (div : Word) (s : Spi) : Spi := s.withBrg div

def beginTransaction (settings : SPISettings) (s : Spi) : Option Spi := do
  let s ← s.setFrequency fcpu settings.clock
  some ((s.setDataMode settings.mode).setBitOrder settings.order)

/-- `SPISettings()`, which are also the values that `beginTransaction()` asks for. -/
def defaultSettings : SPISettings := ⟨1000000, msbFirst, spiMode0⟩

def begin (miso mosi cs : ℤ) (s : Spi) : Option Spi := do
  let s ← s.«end».setPins u miso mosi cs
  let s ← s.beginTransaction fcpu defaultSettings
  some (s.writeCon true spiOnMsten)

/-- Words written to SPIxBUF one after the other, each of them read back: the loop of `fillColor`
and `drawImage`, and the single access of `transfer`. -/
def shiftWords (data : List Word) (s : Spi) : Spi :=
  { s with buf := s.buf ++ data.map fun word => (s.con, word) }

/-- 16-bit data width around the loop, then SPIxCON as it was. -/
def bulk (data : List Word) (s : Spi) : Spi :=
  let temp := s.con
  let s := s.withCon (s.con &&& ~~~spiWidth)
  let s := s.withCon (s.con ||| spiMode16)
  (s.shiftWords data).withCon temp

def fillColor (size : ℕ) (data : Word) (s : Spi) : Spi := s.bulk (List.replicate size data)

def drawImage (data : List (BitVec 16)) (s : Spi) : Spi := s.bulk (data.map (·.setWidth 32))

end Spi

/-- The calls of a sketch; `begin` with its pins other than the clock, which it ignores. -/
inductive SpiCall
  | begin (miso mosi cs : ℤ)
  | «end»
  | setFrequency (hz : Word)
  | setClockDivider (div : Word)
  | setDataMode (mode : Byte)
  | setBitOrder (order : Byte)
  | setBitSize (size : Byte)
  | fillColor (size : ℕ) (data : Word)
  | drawImage (data : List (BitVec 16))
  | beginTransaction (settings : SPISettings)
deriving DecidableEq, Repr

def SpiCall.exec (fcpu : Word) (u : SpiContext) (s : Spi) : SpiCall → Option Spi
  | .begin miso mosi cs => s.begin fcpu u miso mosi cs
  | .end => some s.«end»
  | .setFrequency hz => s.setFrequency fcpu hz
  | .setClockDivider div => some (s.setClockDivider div)
  | .setDataMode mode => some (s.setDataMode mode)
  | .setBitOrder order => some (s.setBitOrder order)
  | .setBitSize size => some (s.setBitSize size)
  | .fillColor size data => some (s.fillColor size data)
  | .drawImage data => some (s.drawImage data)
  | .beginTransaction settings => s.beginTransaction fcpu settings

/-- The object after its construction and a history of calls. -/
def spiAfter (fcpu : Word) (u : SpiContext) (sta : Word) (cpu : Cpu) (calls : List SpiCall) :
    Option Spi :=
  (Spi.construct u sta cpu).bind fun s => Runs.run (SpiCall.exec fcpu u) s calls

end FrameworkXC32
