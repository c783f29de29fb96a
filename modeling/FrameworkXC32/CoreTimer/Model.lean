import FrameworkXC32.Lib.Word
import Mathlib.Data.List.Basic

/-!
# The core timer

The clock of `wiring.c`: the core timer counts half the system clock, its interrupt handler
turns elapsed ticks into milliseconds, and `micros` and the delay loops read both. `F_CPU` is a
parameter; a read of the core timer is an argument of the function that makes it.
-/

namespace FrameworkXC32
open Machine

/-! ### Clock constants (`interface.h`) -/

def sysClkFreq (fcpu : Word) : Word := fcpu

def sysClkBusPeripheral1 (fcpu : Word) : Word := sysClkFreq fcpu >>> 1

def sysCtFreq (fcpu : Word) : Word := sysClkFreq fcpu >>> 1

def coreTimerInterruptTicks (fcpu : Word) : Word := sysCtFreq fcpu / 1000

def coreTimerTicksPerMicrosecond (fcpu : Word) : Word := sysCtFreq fcpu / 1000000

/-- The variables of `wiring.c`, the compare register and the pending flag of the timer. -/
structure CoreTimer where
  timeout : Word
  gMillis : Word
  gOldCoreTime : Word
  msHandler : Option ℕ
  compare : Word
  ctif : Bool
deriving DecidableEq, Repr

/-- The interrupt handler, with the value it reads from the core timer; the second component is
the user's millisecond handler when one is called. -/
def coreTimerHandler (fcpu current : Word) (s : CoreTimer) : CoreTimer × Option ℕ :=
  let elapsed := current - s.gOldCoreTime
  let increment := elapsed / coreTimerInterruptTicks fcpu
  let timeout := s.timeout - increment
  let timeout := if timeout.slt 0 then 0 else timeout
  ({ s with
      gMillis := s.gMillis + increment
      timeout := timeout
      compare := current + coreTimerInterruptTicks fcpu
      ctif := false
      gOldCoreTime := current }, s.msHandler)

def millis (s : CoreTimer) : Word := s.gMillis

def micros (fcpu current : Word) (s : CoreTimer) : Word :=
  let result := millis s * 1000
  let current := current - s.gOldCoreTime
  let current := current + coreTimerTicksPerMicrosecond fcpu / 2
  let current := current / coreTimerTicksPerMicrosecond fcpu
  result + current

/-- A delay loop on a clock: it started at reading `startTime`, polls the readings of the list
and answers the index of the poll that ends it, `none` while it still waits. -/
def delayLoop (startTime period : Word) : List Word → Option ℕ
  | [] => none
  | reading :: readings =>
    if reading - startTime < period then (delayLoop startTime period readings).map (· + 1)
    else some 0

/-- `delayMicroseconds(us)` on the readings of `micros()`, the first one its `startTime`. -/
def delayMicroseconds (us startTime : Word) (readings : List Word) : Option ℕ :=
  delayLoop startTime us readings

/-- `__delay(ms)` on the readings of `millis()`. -/
def delayMillis (ms startTime : Word) (readings : List Word) : Option ℕ :=
  delayLoop startTime ms readings

/-- What `BoardInit` leaves: the core timer at 0, the first compare value one period ahead. -/
def coreTimerAtBoot (fcpu : Word) : CoreTimer where
  timeout := 0
  gMillis := 0
  gOldCoreTime := 0
  msHandler := none
  compare := coreTimerInterruptTicks fcpu
  ctif := false

@[simp] lemma gMillis_handler (fcpu current : Word) (s : CoreTimer) :
    (coreTimerHandler fcpu current s).1.gMillis =
      s.gMillis + (current - s.gOldCoreTime) / coreTimerInterruptTicks fcpu := rfl

@[simp] lemma gOldCoreTime_handler (fcpu current : Word) (s : CoreTimer) :
    (coreTimerHandler fcpu current s).1.gOldCoreTime = current := rfl

@[simp] lemma compare_handler (fcpu current : Word) (s : CoreTimer) :
    (coreTimerHandler fcpu current s).1.compare = current + coreTimerInterruptTicks fcpu := rfl

lemma delayLoop_some {startTime period : Word} {readings : List Word} {reading : Word}
    (h : delayLoop startTime period (readings ++ [reading]) = some readings.length) :
    ¬ reading - startTime < period := by
  induction readings with
  | nil =>
    intro hlt
    simp [delayLoop, hlt] at h
  | cons r readings ih =>
    rw [List.cons_append, delayLoop] at h
    split at h
    · apply ih
      simpa using h
    · simp at h

end FrameworkXC32
