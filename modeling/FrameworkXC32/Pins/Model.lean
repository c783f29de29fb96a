import FrameworkXC32.Critical.Processes
import FrameworkXC32.Pins.Irq
import Mathlib.Data.List.Basic

/-!
# Digital pins and their interrupts

`pinMode`, `attachInterrupt`, `detachInterrupt` and the handler of the external interrupts, on the
registers of the ports and of the interrupt controller. A callback is a value that the handler
returns; it leaves the pins alone.
-/

namespace FrameworkXC32
open Machine

/-- The index of a port, below `GPIO_MAX`. -/
abbrev Gpio := Fin 7

inductive GpioReg
  | ansel | tris | lat | cnpu | cnpd | cncon | cnen | cnne | cnf
deriving DecidableEq, Repr

def irqExternal0 : ℕ := 3

def irqChangeNoticeA : ℕ := 118

/-- An external interrupt: one of INT0 to INT4. -/
structure Eint where
  irq : ℕ
  pri : Byte
  sub : Byte
  rpin : Option ℕ
  rval : Word
  external : irq ∈ [irqExternal0, irqExternal0 + 5, irqExternal0 + 10, irqExternal0 + 15,
    irqExternal0 + 20]

/-- INTx index -/
def Eint.id (e : Eint) : ℕ := (e.irq - irqExternal0) / 5

/-- A line of `pins`; `eint` is an index into the table of peripherals. -/
structure Pin where
  gpio : Gpio
  mask : BitVec 16
  eint : Option ℕ
deriving DecidableEq, Repr

/-- The tables of a board. No two pins have the same external interrupt. -/
structure Board where
  pins : List Pin
  eint : ℕ → Eint
  cnPriority : Gpio → Byte × Byte
  distinct : (pins.filterMap fun p => p.eint.map fun e => (eint e).irq).Nodup

namespace Mode

def input : Word := (1 : Word) <<< 0

def inputPullup : Word := (1 : Word) <<< 1

def inputPulldown : Word := (1 : Word) <<< 2

def output : Word := (1 : Word) <<< 3

def outputLow : Word := (1 : Word) <<< 4

def outputHigh : Word := (1 : Word) <<< 5

def change : Word := (1 : Word) <<< 6

def falling : Word := (1 : Word) <<< 7

def rising : Word := (1 : Word) <<< 8

def external : Word := (1 : Word) <<< 31

/-- `mode & flag` -/
def has (mode flag : Word) : Bool := mode &&& flag != 0

end Mode

/-- `_CNCONA_EDGEDETECT_MASK` and `_CNCONA_ON_MASK` -/
def cnconEdgedetect : Word := (1 : Word) <<< 11

def cnconOn : Word := (1 : Word) <<< 15

/-- The registers, the counters of `wiring_digital.c`, and the writable fields of the tables: the
mode of each external interrupt and the callback of each pin. -/
structure Pins (κ : Type) where
  reg : Gpio → GpioReg → Word
  irq : Irq
  intcon : Word
  cnCounter : Gpio → Byte
  eintMode : ℕ → Word
  callback : ℕ → Option κ
  cpu : Cpu

namespace Pins

variable {κ : Type} (board : Board)

def setReg (gpio : Gpio) (r : GpioReg) (val : Word) (s : Pins κ) : Pins κ :=
  { s with reg := Function.update s.reg gpio (Function.update (s.reg gpio) r val) }

/-- A write of the mask to the clear alias of a register of the port. -/
def regClr (gpio : Gpio) (r : GpioReg) (mask : Word) (s : Pins κ) : Pins κ :=
  s.setReg gpio r (Machine.regClr (s.reg gpio r) mask)

def regSet (gpio : Gpio) (r : GpioReg) (mask : Word) (s : Pins κ) : Pins κ :=
  s.setReg gpio r (Machine.regSet (s.reg gpio r) mask)

def withIrq (f : Irq → Irq) (s : Pins κ) : Pins κ := { s with irq := f s.irq }

def withCpu (f : Cpu → Cpu) (s : Pins κ) : Pins κ := { s with cpu := f s.cpu }

def withIntcon (intcon : Word) (s : Pins κ) : Pins κ := { s with intcon := intcon }

def setCounter (gpio : Gpio) (n : Byte) (s : Pins κ) : Pins κ :=
  { s with cnCounter := Function.update s.cnCounter gpio n }

def setEintMode (e : ℕ) (mode : Word) (s : Pins κ) : Pins κ :=
  { s with eintMode := Function.update s.eintMode e mode }

def setCallback (pin : ℕ) (func : Option κ) (s : Pins κ) : Pins κ :=
  { s with callback := Function.update s.callback pin func }

def pinMode (pin : ℕ) (mode : Word) (s : Pins κ) : Pins κ :=
  match board.pins[pin]? with
  | none => s
  | some p =>
    let mask := p.mask.setWidth 32
    if Mode.has mode (Mode.inputPullup &&& Mode.inputPulldown) then s
    else
      let s := s.regClr p.gpio .ansel mask
      let s := s.regClr p.gpio .cnpu mask
      let s := s.regClr p.gpio .cnpd mask
      if mode = Mode.output then s.regClr p.gpio .tris mask
      else if mode = Mode.outputHigh then (s.regSet p.gpio .lat mask).regClr p.gpio .tris mask
      else if mode = Mode.outputLow then (s.regClr p.gpio .lat mask).regClr p.gpio .tris mask
      else if Mode.has mode Mode.inputPullup then s.regSet p.gpio .cnpu mask
      else if Mode.has mode Mode.inputPulldown then s.regSet p.gpio .cnpd mask
      else s.regSet p.gpio .tris mask

/-- `*(p->gpio + LAT_CLR + (bool)val) = p->mask` writes the clear or the set alias. -/
def digitalWrite (pin : ℕ) (val : Bool) (s : Pins κ) : Pins κ :=
  match board.pins[pin]? with
  | none => s
  | some p =>
    let mask := p.mask.setWidth 32
    if val then s.regSet p.gpio .lat mask else s.regClr p.gpio .lat mask

def detachInterrupt (pin : ℕ) (s : Pins κ) : Pins κ :=
  match board.pins[pin]? with
  | none => s
  | some p =>
    -- close CNx
    let id := p.gpio
    let irq := irqChangeNoticeA + id
    let s := s.regClr p.gpio .cnen (p.mask.setWidth 32)
    let s := s.setCounter id (s.cnCounter id - 1)
    let s := if s.cnCounter id = 0 then s.withIrq (Irq.disable irq) else s
    -- close INTx
    let s := match p.eint with
      | some e => s.withIrq (Irq.disable (board.eint e).irq)
      | none => s
    s.setCallback pin none

/-- The branch INTx of `attachInterrupt`, with the index of the peripheral. -/
def attachExternal (e : ℕ) (mode : Word) (s : Pins κ) : Pins κ :=
  let eint := board.eint e
  let s := match eint.rpin with
    | some rpin => s.withCpu (Cpu.pinMux (.rpr rpin) eint.rval)
    | none => s
  let s := s.withIrq (Irq.priority eint.irq eint.pri eint.sub)
  let s := s.setEintMode e mode
  s.withIntcon (s.intcon ||| (if Mode.has mode Mode.rising then 1 else 0 : Word) <<< eint.id)

/-- The branch CNx. -/
def attachNotice (p : Pin) (mode : Word) (s : Pins κ) : Pins κ :=
  let id := p.gpio
  let mask := p.mask.setWidth 32
  let s :=
    if Mode.has mode Mode.change then s.regClr p.gpio .cncon cnconEdgedetect
    else
      let s := s.regSet p.gpio .cncon cnconEdgedetect
      if Mode.has mode Mode.falling then s.regSet p.gpio .cnne mask else s.regClr p.gpio .cnne mask
  let s := s.regSet p.gpio .cncon cnconOn
  let s := s.regClr p.gpio .cnf mask
  let s := s.regSet p.gpio .cnen mask
  let s := s.setCounter id (s.cnCounter id + 1)
  s.withIrq (Irq.priority (irqChangeNoticeA + id) (board.cnPriority id).1 (board.cnPriority id).2)

/-- The end of `attachInterrupt`, which either branch reaches with its interrupt. -/
def attachCallback (pin : ℕ) (func : κ) (irq : ℕ) (s : Pins κ) : Pins κ :=
  (s.setCallback pin (some func)).withIrq fun r => (r.clear irq).enable irq

def attachInterrupt (pin : ℕ) (func : Option κ) (mode : Word) (s : Pins κ) : Pins κ :=
  match board.pins[pin]?, func with
  | some p, some func =>
    let s := detachInterrupt board pin s
    let s := pinMode board pin mode s
    if Mode.has mode Mode.external then
      match p.eint with
      | some e => (attachExternal board e mode s).attachCallback pin func (board.eint e).irq
      | none => s
    else (attachNotice board p mode s).attachCallback pin func (irqChangeNoticeA + p.gpio)
  | _, _ => s

/-- One turn of the loop of `i_handler`: the callback of the pin and its peripheral, if this
interrupt is theirs. -/
def candidate (irq : ℕ) (s : Pins κ) (i : ℕ) : Option (κ × ℕ) := do
  let func ← s.callback i
  let p ← board.pins[i]?
  let e ← p.eint
  if (board.eint e).irq = irq then some (func, e) else none

def findExternal (irq : ℕ) (s : Pins κ) : Option (κ × ℕ) :=
  (List.range board.pins.length).findSome? (candidate board irq s)

/-- `i_handler`, with the callbacks that it runs. -/
def iHandler (irq : ℕ) (s : Pins κ) : List κ × Pins κ :=
  match findExternal board irq s with
  | some (func, e) =>
    let s := if Mode.has (s.eintMode e) Mode.change then
      s.withIntcon (regInv s.intcon ((1 : Word) <<< (board.eint e).id)) else s
    ([func], s.withIrq (Irq.clear irq))
  | none => ([], s.withIrq (Irq.clear irq))

end Pins

/-- The calls of a sketch. -/
inductive PinCall (κ : Type)
  | attach (pin : ℕ) (func : Option κ) (mode : Word)
  | detach (pin : ℕ)
deriving DecidableEq, Repr

namespace PinCall

variable {κ : Type} (board : Board)

def exec (s : Pins κ) : PinCall κ → Pins κ
  | .attach pin func mode => s.attachInterrupt board pin func mode
  | .detach pin => s.detachInterrupt board pin

def pin : PinCall κ → ℕ
  | .attach pin _ _ => pin
  | .detach pin => pin

/-- The pin exists, and a call of `attachInterrupt` has a callback. -/
def Effective : PinCall κ → Bool
  | .attach pin func _ => decide (pin < board.pins.length) && func.isSome
  | .detach pin => decide (pin < board.pins.length)

/-- A call of `attachInterrupt` that asks for change notices. -/
def Notices : PinCall κ → Bool
  | .attach _ _ mode => !Mode.has mode Mode.external
  | .detach _ => false

end PinCall

end FrameworkXC32
