import FrameworkXC32.Lib.Runs
import FrameworkXC32.Lib.Segment
import FrameworkXC32.Lib.Word
import Mathlib.Logic.Function.Basic

/-!
# Software timers

The delta list of `swTimers.c`, on a heap of timer records linked by their `next` fields.
The loops that walk the list take a bound on their iterations and answer `none` when it is
exceeded; `A` is the arithmetic on the `timeout` fields, the machine's being `wrapping`.
-/

namespace FrameworkXC32
open Machine

/-- Addresses of timer records; the null pointer is `none : Option Ptr`. -/
abbrev Ptr := ℕ

inductive SwTimerMode
  | oneshot
  | periodic
deriving DecidableEq, Repr

structure SwTimer where
  next : Option Ptr
  timeout : Word
  interval : Word
  mode : SwTimerMode
  cb : Option ℕ
deriving Repr

/-- The memory of the timer records, the list head and the handler's static variable. -/
structure Timers where
  heap : Ptr → SwTimer
  sTimers : Option Ptr
  oldTime : Word

def Timers.write (s : Timers) (p : Ptr) (r : SwTimer) : Timers :=
  { s with heap := Function.update s.heap p r }

def Timers.setNext (s : Timers) (p : Ptr) (q : Option Ptr) : Timers :=
  s.write p { s.heap p with next := q }

def Timers.setTimeout (s : Timers) (p : Ptr) (d : Word) : Timers :=
  s.write p { s.heap p with timeout := d }

/-- The loop of `placeTimer`: the state, the predecessor and the timeout it leaves with. -/
def placeLoop (A : Arith) : ℕ → Timers → Option Ptr → Option Ptr → Word →
    Option (Timers × Option Ptr × Word)
  | 0, _, _, _, _ => none
  | _ + 1, s, none, prev, timeout => some (s, prev, timeout)
  | fuel + 1, s, some t, prev, timeout =>
    if timeout < (s.heap t).timeout then do
      let d ← A.sub (s.heap t).timeout timeout
      some (s.setTimeout t d, prev, timeout)
    else do
      let d ← A.sub timeout (s.heap t).timeout
      placeLoop A fuel s (s.heap t).next (some t) d

def placeTimer (A : Arith) (fuel : ℕ) (timer : Ptr) (s : Timers) : Option Timers :=
  if s.sTimers.isSome then do
    let (s, prev, timeout) ← placeLoop A fuel s s.sTimers none (s.heap timer).interval
    let s := s.setTimeout timer timeout
    match prev with
    | some prev => some ((s.setNext timer (s.heap prev).next).setNext prev (some timer))
    | none => some { s.setNext timer s.sTimers with sTimers := some timer }
  else
    some { (s.setNext timer none).setTimeout timer (s.heap timer).interval with
      sTimers := some timer }

def startedLoop : ℕ → Timers → Option Ptr → Ptr → Option Bool
  | 0, _, _, _ => none
  | _ + 1, _, none, _ => some false
  | fuel + 1, s, some t, timer =>
    if t = timer then some true else startedLoop fuel s (s.heap t).next timer

def swTimerStarted (fuel : ℕ) (timer : Ptr) (s : Timers) : Option Bool :=
  startedLoop fuel s s.sTimers timer

def swTimerStart (A : Arith) (fuel : ℕ) (timer : Ptr) (s : Timers) : Option Timers := do
  if ← swTimerStarted fuel timer s then some s else placeTimer A fuel timer s

def stopLoop (A : Arith) : ℕ → Timers → Option Ptr → Option Ptr → Ptr → Option Timers
  | 0, _, _, _, _ => none
  | _ + 1, s, none, _, _ => some s
  | fuel + 1, s, some t, prev, timer =>
    if t = timer then
      let s := match prev with
        | some prev => s.setNext prev (s.heap t).next
        | none => { s with sTimers := (s.heap t).next }
      match (s.heap t).next with
      | some n => do
        let d ← A.add (s.heap n).timeout (s.heap timer).timeout
        some (s.setTimeout n d)
      | none => some s
    else stopLoop A fuel s (s.heap t).next (some t) timer

def swTimerStop (A : Arith) (fuel : ℕ) (timer : Ptr) (s : Timers) : Option Timers :=
  stopLoop A fuel s s.sTimers none timer

/-- `swTimer`, with the answer of `malloc`; the record of a failed allocation is not built. -/
def swTimer (A : Arith) (fuel : ℕ) (malloc : Option Ptr) (interval : Word) (mode : SwTimerMode)
    (cb : Option ℕ) (s : Timers) : Option Timers :=
  match malloc with
  | some tmr => swTimerStart A fuel tmr (s.write tmr ⟨none, 0, interval, mode, cb⟩)
  | none => some s

/-! ### The task handler -/

/-- The head of `swTimerTaskHandler`, with the values of its two `millis()` calls: `some elapsed`
when it enters the loop. -/
def taskEnter (millis₁ millis₂ : Word) (s : Timers) : Timers × Option Word :=
  if s.sTimers.isSome then
    let elapsed := millis₁ - s.oldTime
    if elapsed ≠ 0 then ({ s with oldTime := millis₂ }, some elapsed) else (s, none)
  else (s, none)

/-- One pass through the loop of `swTimerTaskHandler`: either the loop ends and the head is
shortened, or the head expires and its callback is about to be called. -/
inductive TaskPass
  | done (s : Timers)
  | fired (timer : Ptr) (elapsed : Word) (s : Timers)

def taskPass (A : Arith) (fuel : ℕ) (elapsed : Word) (s : Timers) : Option TaskPass :=
  match s.sTimers with
  | none => some (.done s)
  | some timer =>
    if (s.heap timer).timeout ≤ elapsed then do
      let elapsed ← A.sub elapsed (s.heap timer).timeout
      let s := { s with sTimers := (s.heap timer).next }
      let s ← if (s.heap timer).mode = .periodic then placeTimer A fuel timer s else some s
      some (.fired timer elapsed s)
    else do
      let d ← A.sub (s.heap timer).timeout elapsed
      some (.done (s.setTimeout timer d))

/-- The loop of `swTimerTaskHandler`; `call` runs the callback of a timer. -/
def taskLoop (A : Arith) (call : ℕ → Ptr → Timers → Option Timers) (fuel : ℕ) :
    ℕ → Word → Timers → Option Timers
  | 0, _, _ => none
  | n + 1, elapsed, s => do
    match ← taskPass A fuel elapsed s with
    | .done s => some s
    | .fired timer elapsed s =>
      let s ← match (s.heap timer).cb with
        | some f => call f timer s
        | none => some s
      taskLoop A call fuel n elapsed s

def swTimerTaskHandler (A : Arith) (call : ℕ → Ptr → Timers → Option Timers) (fuel n : ℕ)
    (millis₁ millis₂ : Word) (s : Timers) : Option Timers :=
  match taskEnter millis₁ millis₂ s with
  | (s, some elapsed) => taskLoop A call fuel n elapsed s
  | (s, none) => some s

end FrameworkXC32
