import FrameworkXC32.Kernel.Queue
import FrameworkXC32.Lib.Runs
import Mathlib.Data.Fintype.Card
import Mathlib.Data.List.Sort

/-!
# Tasks and interrupts at a queue

`xQueueGenericSend`, `xQueueReceive` and `xQueuePeek` of `queue.c`, cut into the sections that
nothing can interrupt. Between two of them an interrupt may use the queue, and another task may,
unless the scheduler is suspended.
-/

namespace FrameworkXC32

/-- The list `xTasksWaitingToReceive` with `cTxLock`, or `xTasksWaitingToSend` with `cRxLock`. -/
inductive QueueSide
  | toReceive | toSend
deriving DecidableEq, Repr

inductive QueueOp (uxItemSize : ℕ)
  | send (item : QueueItem uxItemSize) (pos : CopyPosition)
  | receive
  | peek
deriving DecidableEq

/-- Of `xTicksToWait`: nothing, a time that passes, or `portMAX_DELAY`, which has no end with
`INCLUDE_vTaskSuspend`. -/
inductive TicksToWait
  | zero | counted | maxDelay
deriving DecidableEq, Repr

structure QueueCall (uxItemSize : ℕ) where
  op : QueueOp uxItemSize
  ticks : TicksToWait
deriving DecidableEq

/-- What a call does when it has unlocked the queue. -/
inductive AfterUnlock
  | block | tryAgain | giveUp
deriving DecidableEq, Repr

/-- The section that a call comes to next. -/
inductive QueueLabel
  -- the critical section at the head of the loop
  | attempt
  | suspendAll
  | lockQueue
  | checkForTimeOut
  -- `prvIsQueueEmpty` or `prvIsQueueFull`
  | testQueue
  | placeOnEventList
  | unlockTx (next : AfterUnlock)
  | unlockRx (next : AfterUnlock)
  | resumeAll (next : AfterUnlock)
  | blocked
  -- behind a time-out `xQueueReceive` looks at the queue once more
  | testAgain
deriving DecidableEq, Repr

inductive QueueAnswer (uxItemSize : ℕ)
  | sent (item : QueueItem uxItemSize) (pos : CopyPosition)
  | full (timedOut : Bool)
  | received (item : QueueItem uxItemSize)
  | peeked (item : QueueItem uxItemSize)
  | empty
deriving DecidableEq

def queueUnlocked : ℤ := -1

def queueLockedUnmodified : ℤ := 0

def queueInt8Max : ℤ := 127

/-- A queue with its tasks: `calls` has the calls under way, and `log` the answers to the calls so
far, also to those of interrupts. `halted` is a failed `configASSERT`. -/
structure QueueSystem (τ : Type) (uxItemSize : ℕ) where
  queue : Queue uxItemSize
  waiting : QueueSide → List τ
  lock : QueueSide → ℤ
  suspendedBy : Option τ
  calls : τ → Option (QueueCall uxItemSize × QueueLabel)
  log : List (Option τ × QueueAnswer uxItemSize)
  halted : Bool

inductive QueueEvent (τ : Type) (uxItemSize : ℕ)
  | call (t : τ) (c : QueueCall uxItemSize)
  -- the next section of the task; `expired` is what the clock says in `xTaskCheckForTimeOut`
  | run (t : τ) (expired : Bool)
  -- the tick takes a task whose time is over off the list
  | timeOut (t : τ)
  | sendFromIsr (item : QueueItem uxItemSize) (pos : CopyPosition)
  | receiveFromIsr

def QueueOp.side {uxItemSize : ℕ} : QueueOp uxItemSize → QueueSide
  | send _ _ => .toSend
  | receive => .toReceive
  | peek => .toReceive

namespace QueueSystem

variable {τ : Type} {uxItemSize : ℕ}

def create (uxLength : ℕ) (storage : ℕ → Machine.Byte) : QueueSystem τ uxItemSize where
  queue := Queue.create uxItemSize uxLength storage
  waiting _ := []
  lock _ := queueUnlocked
  suspendedBy := none
  calls _ := none
  log := []
  halted := false

section Sections

variable [DecidableEq τ]

def setCall (t : τ) (v : Option (QueueCall uxItemSize × QueueLabel))
    (s : QueueSystem τ uxItemSize) : QueueSystem τ uxItemSize :=
  { s with calls := Function.update s.calls t v }

def moveTo (t : τ) (c : QueueCall uxItemSize) (l : QueueLabel) (s : QueueSystem τ uxItemSize) :
    QueueSystem τ uxItemSize :=
  s.setCall t (some (c, l))

def answer (who : Option τ) (a : QueueAnswer uxItemSize) (s : QueueSystem τ uxItemSize) :
    QueueSystem τ uxItemSize :=
  { s with log := s.log ++ [(who, a)] }

/-- The call returns. -/
def finish (t : τ) (a : QueueAnswer uxItemSize) (s : QueueSystem τ uxItemSize) :
    QueueSystem τ uxItemSize :=
  (s.setCall t none).answer (some t) a

def setQueue (q : Queue uxItemSize) (s : QueueSystem τ uxItemSize) : QueueSystem τ uxItemSize :=
  { s with queue := q }

def setWaiting (side : QueueSide) (l : List τ) (s : QueueSystem τ uxItemSize) :
    QueueSystem τ uxItemSize :=
  { s with waiting := Function.update s.waiting side l }

def setLock (side : QueueSide) (n : ℤ) (s : QueueSystem τ uxItemSize) : QueueSystem τ uxItemSize :=
  { s with lock := Function.update s.lock side n }

def setSuspended (who : Option τ) (s : QueueSystem τ uxItemSize) : QueueSystem τ uxItemSize :=
  { s with suspendedBy := who }

/-- `xTaskRemoveFromEventList`, unless the list is empty. -/
def wake (side : QueueSide) (s : QueueSystem τ uxItemSize) : QueueSystem τ uxItemSize :=
  s.setWaiting side (s.waiting side).tail

def hasRoom (pos : CopyPosition) (s : QueueSystem τ uxItemSize) : Prop :=
  s.queue.uxMessagesWaiting < s.queue.uxLength ∨ pos = .overwrite

instance (pos : CopyPosition) (s : QueueSystem τ uxItemSize) : Decidable (s.hasRoom pos) :=
  inferInstanceAs (Decidable (_ ∨ _))

/-- Neither room nor an item, and the time to wait decides. -/
def waitOr (t : τ) (c : QueueCall uxItemSize) (a : QueueAnswer uxItemSize)
    (s : QueueSystem τ uxItemSize) : QueueSystem τ uxItemSize :=
  if c.ticks = .zero then s.finish t a else s.moveTo t c .suspendAll

def attempt (t : τ) (c : QueueCall uxItemSize) (s : QueueSystem τ uxItemSize) :
    QueueSystem τ uxItemSize :=
  match c.op with
  | .send item pos =>
    if s.hasRoom pos then
      ((s.setQueue (s.queue.prvCopyDataToQueue item pos)).wake .toReceive).finish t (.sent item pos)
    else s.waitOr t c (.full false)
  | .receive =>
    if 0 < s.queue.uxMessagesWaiting then
      ((s.setQueue s.queue.takeItem.2).wake .toSend).finish t (.received s.queue.takeItem.1)
    else s.waitOr t c .empty
  | .peek =>
    if 0 < s.queue.uxMessagesWaiting then
      -- the read pointer is put back
      (s.wake .toReceive).finish t (.peeked s.queue.prvCopyDataFromQueue.1)
    else s.waitOr t c .empty

def prvLockQueue (s : QueueSystem τ uxItemSize) : QueueSystem τ uxItemSize :=
  { s with lock := fun side =>
      if s.lock side = queueUnlocked then queueLockedUnmodified else s.lock side }

/-- The loop of `prvUnlockQueue`. -/
def wakeAll : ℕ → List τ → List τ
  | 0, l => l
  | _ + 1, [] => []
  | n + 1, _ :: l => wakeAll n l

/-- One of the two halves of `prvUnlockQueue`. -/
def prvUnlockQueue (side : QueueSide) (s : QueueSystem τ uxItemSize) :
    QueueSystem τ uxItemSize :=
  (s.setWaiting side (wakeAll (s.lock side).toNat (s.waiting side))).setLock side queueUnlocked

/-- `prvIsQueueFull` for a sender, `prvIsQueueEmpty` for the others. -/
def mustWait (side : QueueSide) (s : QueueSystem τ uxItemSize) : Bool :=
  match side with
  | .toSend => s.queue.prvIsQueueFull
  | .toReceive => s.queue.prvIsQueueEmpty

/-- `vListInsert`: behind the tasks of the same or a higher priority. -/
def placeOnEventList (priority : τ → ℕ) (t : τ) (side : QueueSide)
    (s : QueueSystem τ uxItemSize) : QueueSystem τ uxItemSize :=
  s.setWaiting side ((s.waiting side).orderedInsert (fun a b => priority b < priority a) t)

def afterUnlock (t : τ) (c : QueueCall uxItemSize) (s : QueueSystem τ uxItemSize) :
    AfterUnlock → QueueSystem τ uxItemSize
  | .block => s.moveTo t c .blocked
  | .tryAgain => s.moveTo t c .attempt
  | .giveUp => if c.op.side = .toSend then s.finish t (.full true) else s.moveTo t c .testAgain

/-- The section of a call at its label; a task that waits has none. -/
def exec (priority : τ → ℕ) (t : τ) (expired : Bool) (c : QueueCall uxItemSize)
    (s : QueueSystem τ uxItemSize) : QueueLabel → Option (QueueSystem τ uxItemSize)
  | .attempt => some (s.attempt t c)
  | .suspendAll => some ((s.setSuspended (some t)).moveTo t c .lockQueue)
  | .lockQueue => some (s.prvLockQueue.moveTo t c .checkForTimeOut)
  | .checkForTimeOut =>
    if expired ∧ c.ticks ≠ .maxDelay then
      some (s.moveTo t { c with ticks := .zero } (.unlockTx .giveUp))
    else some (s.moveTo t c .testQueue)
  | .testQueue =>
    if s.mustWait c.op.side then some (s.moveTo t c .placeOnEventList)
    else some (s.moveTo t c (.unlockTx .tryAgain))
  | .placeOnEventList =>
    some ((s.placeOnEventList priority t c.op.side).moveTo t c (.unlockTx .block))
  | .unlockTx next => some ((s.prvUnlockQueue .toReceive).moveTo t c (.unlockRx next))
  | .unlockRx next => some ((s.prvUnlockQueue .toSend).moveTo t c (.resumeAll next))
  | .resumeAll next => some ((s.setSuspended none).afterUnlock t c next)
  | .blocked => if t ∈ s.waiting c.op.side then none else some (s.moveTo t c .attempt)
  | .testAgain =>
    if s.queue.prvIsQueueEmpty then some (s.finish t .empty) else some (s.moveTo t c .attempt)

/-- `prvIncrementQueueTxLock` and `prvIncrementQueueRxLock`. -/
def incrementLock (uxNumberOfTasks : ℕ) (side : QueueSide) (s : QueueSystem τ uxItemSize) :
    QueueSystem τ uxItemSize :=
  if s.lock side < uxNumberOfTasks then
    if s.lock side = queueInt8Max then { s with halted := true }
    else s.setLock side (s.lock side + 1)
  else s

/-- What an interrupt does with the tasks that wait. -/
def signal (uxNumberOfTasks : ℕ) (side : QueueSide) (s : QueueSystem τ uxItemSize) :
    QueueSystem τ uxItemSize :=
  if s.lock side = queueUnlocked then s.wake side else s.incrementLock uxNumberOfTasks side

def sendFromIsr (uxNumberOfTasks : ℕ) (item : QueueItem uxItemSize) (pos : CopyPosition)
    (s : QueueSystem τ uxItemSize) : QueueSystem τ uxItemSize :=
  if s.hasRoom pos then
    ((s.setQueue (s.queue.prvCopyDataToQueue item pos)).signal uxNumberOfTasks .toReceive).answer
      none (.sent item pos)
  else s.answer none (.full false)

def receiveFromIsr (uxNumberOfTasks : ℕ) (s : QueueSystem τ uxItemSize) :
    QueueSystem τ uxItemSize :=
  if 0 < s.queue.uxMessagesWaiting then
    ((s.setQueue s.queue.takeItem.2).signal uxNumberOfTasks .toSend).answer none
      (.received s.queue.takeItem.1)
  else s.answer none .empty

/-- The scheduler lets the task run. -/
def mayRun (t : τ) (s : QueueSystem τ uxItemSize) : Prop :=
  s.suspendedBy = none ∨ s.suspendedBy = some t

instance (t : τ) (s : QueueSystem τ uxItemSize) : Decidable (s.mayRun t) :=
  inferInstanceAs (Decidable (_ ∨ _))

def step [Fintype τ] (priority : τ → ℕ) (s : QueueSystem τ uxItemSize) :
    QueueEvent τ uxItemSize → Option (QueueSystem τ uxItemSize)
  | .call t c =>
    if s.calls t = none ∧ s.suspendedBy = none ∧ ¬s.halted then some (s.moveTo t c .attempt)
    else none
  | .run t expired =>
    match s.calls t with
    | none => none
    | some (c, l) => if s.mayRun t ∧ ¬s.halted then s.exec priority t expired c l else none
  | .timeOut t =>
    match s.calls t with
    | some (c, .blocked) =>
      if t ∈ s.waiting c.op.side ∧ c.ticks = .counted ∧ s.suspendedBy = none ∧ ¬s.halted then
        some (s.setWaiting c.op.side ((s.waiting c.op.side).erase t))
      else none
    | _ => none
  | .sendFromIsr item pos =>
    if s.halted then none else some (s.sendFromIsr (Fintype.card τ) item pos)
  | .receiveFromIsr =>
    if s.halted then none else some (s.receiveFromIsr (Fintype.card τ))

/-! ### What a step has been -/

variable [Fintype τ] {priority : τ → ℕ} {t : τ} {s s' : QueueSystem τ uxItemSize}

lemma step_call {c : QueueCall uxItemSize} (h : s.step priority (.call t c) = some s') :
    s.calls t = none ∧ s.suspendedBy = none ∧ s' = s.moveTo t c .attempt := by
  unfold step at h
  dsimp only at h
  split_ifs at h with hfree
  exact ⟨hfree.1, hfree.2.1, (Option.some.inj h).symm⟩

lemma step_run {expired : Bool} (h : s.step priority (.run t expired) = some s') :
    ∃ c l, s.calls t = some (c, l) ∧ s.mayRun t ∧ s.exec priority t expired c l = some s' := by
  unfold step at h
  dsimp only at h
  cases hcall : s.calls t with
  | none =>
    rw [hcall] at h
    cases h
  | some x =>
    obtain ⟨c, l⟩ := x
    rw [hcall] at h
    dsimp only at h
    split_ifs at h with hrun
    exact ⟨c, l, rfl, hrun.1, h⟩

lemma step_timeOut (h : s.step priority (.timeOut t) = some s') :
    ∃ side, s' = s.setWaiting side ((s.waiting side).erase t) := by
  unfold step at h
  dsimp only at h
  split at h
  · split_ifs at h
    exact ⟨_, (Option.some.inj h).symm⟩
  · cases h

lemma step_sendFromIsr {item : QueueItem uxItemSize} {pos : CopyPosition}
    (h : s.step priority (.sendFromIsr item pos) = some s') :
    s' = s.sendFromIsr (Fintype.card τ) item pos := by
  unfold step at h
  dsimp only at h
  split_ifs at h
  exact (Option.some.inj h).symm

lemma step_receiveFromIsr (h : s.step priority .receiveFromIsr = some s') :
    s' = s.receiveFromIsr (Fintype.card τ) := by
  unfold step at h
  dsimp only at h
  split_ifs at h
  exact (Option.some.inj h).symm

end Sections

end QueueSystem

end FrameworkXC32
