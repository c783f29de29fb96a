import FrameworkXC32.Pins.Model

/-!
# Curiosity board, PIC32MZ2048EFM100

The tables of `board.c`, with the default priorities. The remap registers are numbered here.
-/

namespace FrameworkXC32
open Machine

namespace EFM100

def int1 : Eint where
  irq := irqExternal0 + 5
  pri := 4
  sub := 0
  rpin := some 1
  rval := 9
  external := by decide

def int2 : Eint where
  irq := irqExternal0 + 10
  pri := 4
  sub := 0
  rpin := some 2
  rval := 9
  external := by decide

/-- A pin that is not an external interrupt. -/
def io (gpio : Gpio) (bit : ℕ) : Pin := ⟨gpio, (1 : BitVec 16) <<< bit, none⟩

def pins : List Pin := [
  -- LEDs and the button
  io 4 4, io 4 3, io 4 6, io 1 5, io 1 1, io 1 0, io 6 12,
  -- microBUS 1
  io 1 4, io 0 9, io 3 4, io 3 1, io 3 14, io 3 3, io 4 8, { io 5 13 with eint := some 7 },
  io 3 10, io 3 15, io 0 14, io 0 15,
  -- microBUS 2
  io 0 1, io 0 5, io 3 5, io 6 6, io 6 0, io 6 7, io 5 2, { io 5 12 with eint := some 8 },
  io 2 3, io 2 2, io 0 2, io 0 3]

/-- Of the peripherals the external interrupts are modelled, entries 7 and 8. -/
def board : Board where
  pins := pins
  eint := fun e => if e = 7 then int1 else int2
  cnPriority := fun _ => (4, 0)
  distinct := by decide

/-- No interrupt is enabled, no pin has a callback. -/
def idle : Pins ℕ where
  reg := fun _ _ => 0
  irq := ⟨fun _ => 0, fun _ => 0, fun _ => 0⟩
  intcon := 0
  cnCounter := fun _ => 0
  eintMode := fun _ => 0
  callback := fun _ => none
  cpu := ⟨1, fun _ => 0, coreTimerAtBoot 200000000, ⟨fun _ => none, none⟩⟩

end EFM100

end FrameworkXC32
