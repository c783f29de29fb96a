import FrameworkXC32.CoreTimer.Model
import FrameworkXC32.Critical.Status
import Mathlib.Logic.Function.Basic

/-!
# Functions with a critical section

The functions of `interface.c` and `wiring.c` that open a section themselves: `pinMux`, `micros`
and the two that edit the list of background processes, `addProcess` and `delProcess`. An access
through a null or a freed pointer is `none`, and so is a walk longer than `fuel`.
-/

namespace FrameworkXC32
open Machine

/-- The registers written under the system key. -/
inductive Sfr
  | syskey
  | rpr (index : ℕ)
deriving DecidableEq, Repr

structure ProcessNode where
  cb : ℕ
  next : Option ℕ
deriving DecidableEq, Repr

/-- The nodes on the heap, `none` where none is allocated, and `pListProcess`: null, or a list with
its head. -/
structure Processes where
  heap : ℕ → Option ProcessNode
  pListProcess : Option (Option ℕ)

structure Cpu where
  status : Word
  sfr : Sfr → Word
  timer : CoreTimer
  processes : Processes

namespace Cpu

def withStatus (c : Cpu) (status : Word) : Cpu := { c with status := status }

def withProcesses (c : Cpu) (processes : Processes) : Cpu := { c with processes := processes }

def write (c : Cpu) (reg : Sfr) (val : Word) : Cpu := { c with sfr := Function.update c.sfr reg val }

/-- `SysKeyUnlock()` -/
def sysKeyUnlock (c : Cpu) : Cpu := (c.write .syskey 0xAA996655).write .syskey 0x556699AA

/-- `SysKeyLock()` -/
def sysKeyLock (c : Cpu) : Cpu := c.write .syskey 0x33333333

def systemUnlock (c : Cpu) : Cpu := (c.withStatus (di c.status)).sysKeyUnlock

def systemLock (c : Cpu) : Cpu := c.sysKeyLock.withStatus (ei c.sysKeyLock.status)

def pinMux (reg : Sfr) (val : Word) (c : Cpu) : Cpu := (c.systemUnlock.write reg val).systemLock

/-- `micros()`, with the value it reads from the core timer. -/
def micros (fcpu current : Word) (c : Cpu) : Word × Cpu :=
  let c := c.withStatus (di c.status)
  let result := FrameworkXC32.micros fcpu current c.timer
  (result, c.withStatus (ei c.status))

@[simp] lemma status_withStatus (c : Cpu) (status : Word) :
    (c.withStatus status).status = status := rfl

end Cpu

namespace Processes

def setHead (s : Processes) (head : Option ℕ) : Processes := { s with pListProcess := some head }

def setNode (s : Processes) (p : ℕ) (node : Option ProcessNode) : Processes :=
  { s with heap := Function.update s.heap p node }

/-- `createProcess`, with the answer of `malloc`. -/
def createProcess (malloc : Option ℕ) (cb : ℕ) (s : Processes) : Option ℕ × Processes :=
  match malloc with
  | some p => (some p, s.setNode p (some ⟨cb, none⟩))
  | none => (none, s)

/-- `while (current->next != NULL) current = current->next` -/
def lastProcess : ℕ → Processes → ℕ → Option ℕ
  | 0, _, _ => none
  | fuel + 1, s, current => do
    let node ← s.heap current
    match node.next with
    | some next => lastProcess fuel s next
    | none => some current

/-- The critical section of `addProcess`. -/
def append (fuel : ℕ) (malloc : Option ℕ) (cb : ℕ) (head : Option ℕ) (s : Processes) :
    Option Processes :=
  match head with
  | none =>
    let (node, s) := createProcess malloc cb s
    some (s.setHead node)
  | some head => do
    let current ← lastProcess fuel s head
    let (new, s) := createProcess malloc cb s
    let node ← s.heap current
    some (s.setNode current (some { node with next := new }))

/-- The loop of `delProcess`: the previous and the current node when it finds the callback. -/
def findProcess (cb : Option ℕ) : ℕ → Processes → ℕ → Option ℕ → Option (Option (ℕ × ℕ))
  | 0, _, _, _ => none
  | _ + 1, _, _, none => some none
  | fuel + 1, s, previous, some current => do
    let node ← s.heap current
    if some node.cb = cb then some (some (previous, current))
    else findProcess cb fuel s current node.next

/-- The critical section of `delProcess`. -/
def remove (previous current : ℕ) (s : Processes) : Option Processes := do
  let node ← s.heap current
  let before ← s.heap previous
  let s := s.setNode previous (some { before with next := node.next })
  let head ← s.pListProcess
  let node ← s.heap current
  let s := if some current = head then s.setHead node.next else s
  some (s.setNode current none)

/-- The list that `addProcess` finds or allocates. -/
def allocated (malloc : Bool) (s : Processes) : Processes :=
  if s.pListProcess = none ∧ malloc then s.setHead none else s

/-- The search of `delProcess`, which reads the head through `pListProcess`. -/
def search (fuel : ℕ) (cb : Option ℕ) (s : Processes) : Option (Option (ℕ × ℕ)) := do
  match ← s.pListProcess with
  | none => some none
  | some head => findProcess cb fuel s head (some head)

end Processes

namespace Cpu

/-- `addProcess`, with the answers of `malloc` for the list and for the node. -/
def addProcess (fuel : ℕ) (mallocList : Bool) (mallocNode : Option ℕ) (cb : Option ℕ) (c : Cpu) :
    Option Cpu :=
  match cb with
  | none => some c
  | some cb =>
    let c := c.withProcesses (c.processes.allocated mallocList)
    match c.processes.pListProcess with
    | none => some c
    | some head => do
      let isrStatus := c.status
      let c := c.withStatus (di c.status)
      let processes ← c.processes.append fuel mallocNode cb head
      let c := c.withProcesses processes
      some (c.withStatus (exitCritical isrStatus c.status))

def delProcess (fuel : ℕ) (cb : Option ℕ) (c : Cpu) : Option Cpu := do
  match ← c.processes.search fuel cb with
  | none => some c
  | some (previous, current) =>
    let isrStatus := c.status
    let c := c.withStatus (di c.status)
    let processes ← c.processes.remove previous current
    let c := c.withProcesses processes
    some (c.withStatus (exitCritical isrStatus c.status))

end Cpu

end FrameworkXC32
