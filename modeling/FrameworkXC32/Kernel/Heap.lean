import FrameworkXC32.Api.Heap
import Mathlib.Logic.Function.Basic
import Mathlib.Data.Nat.Bitwise

/-!
# The kernel's heap

`pvPortMalloc` and `vPortFree` of `heap_4.c`: a free list in the order of the addresses, from
which the first block that is large enough is taken, and whose neighbouring blocks are merged
when one is given back. An address is a natural number below `2 ^ 32`, `NULL` is 0, and the
memory shows at each address the `BlockLink_t` that a reader would find there.
-/

namespace FrameworkXC32

/-- `BlockLink_t`: the header in front of a block. -/
structure BlockLink where
  pxNextFreeBlock : ℕ
  xBlockSize : ℕ
deriving DecidableEq, Repr

namespace PortHeap

def configTotalHeapSize : ℕ := 64 * 1024

def heapSizeMax : ℕ := 2 ^ 32 - 1

def portByteAlignment : ℕ := 8

def portByteAlignmentMask : ℕ := 0x0007

/-- `x & ~portBYTE_ALIGNMENT_MASK`. -/
def alignDown (x : ℕ) : ℕ := x &&& (heapSizeMax ^^^ portByteAlignmentMask)

/-- `sizeof(BlockLink_t)`, rounded up to the alignment. -/
def xHeapStructSize : ℕ := alignDown (8 + (portByteAlignment - 1))

def heapMinimumBlockSize : ℕ := xHeapStructSize <<< 1

def heapBlockAllocatedBitmask : ℕ := 1 <<< (4 * 8 - 1)

/-- The sum of two sizes, or of an address and a size. -/
def addSize (a b : ℕ) : ℕ := (a + b) % 2 ^ 32

end PortHeap

open PortHeap

/-- Where the linker has put `ucHeap` and `xStart`. -/
structure HeapPlace where
  ucHeap : ℕ
  xStart : ℕ
  nonnull : 0 < ucHeap
  fits : ucHeap + configTotalHeapSize ≤ heapSizeMax
  anchored : xStart ≤ heapSizeMax
  apart : xStart + 8 ≤ ucHeap ∨ ucHeap + configTotalHeapSize ≤ xStart

structure PortHeap where
  mem : ℕ → BlockLink
  pxEnd : ℕ
  xFreeBytesRemaining : ℕ
  xMinimumEverFreeBytesRemaining : ℕ
  xNumberOfSuccessfulAllocations : ℕ
  xNumberOfSuccessfulFrees : ℕ

namespace PortHeap

/-! ## Sizes -/

lemma addSize_eq {a b : ℕ} (h : a + b < 2 ^ 32) : addSize a b = a + b := Nat.mod_eq_of_lt h

lemma alignDown_eq {x : ℕ} (hx : x < 2 ^ 32) : alignDown x = x / 8 * 8 := by
  have hmask : heapSizeMax ^^^ portByteAlignmentMask = (2 ^ 29 - 1) * 2 ^ 3 := by decide
  rw [alignDown, hmask]
  apply Nat.eq_of_testBit_eq
  intro i
  rw [Nat.testBit_and, show (8 : ℕ) = 2 ^ 3 from rfl, Nat.testBit_mul_two_pow,
    Nat.testBit_mul_two_pow, Nat.testBit_div_two_pow, Nat.testBit_two_pow_sub_one]
  by_cases hlow : 3 ≤ i
  · by_cases hhigh : i < 32
    · have hlt : i - 3 < 29 := by omega
      simp [hlow, hlt]
    · have hpow : 2 ^ 32 ≤ 2 ^ i := Nat.pow_le_pow_right (by decide) (not_lt.mp hhigh)
      simp [Nat.testBit_lt_two_pow (lt_of_lt_of_le hx hpow), hlow]
  · simp [hlow]

@[simp] lemma and_alignmentMask (x : ℕ) : x &&& portByteAlignmentMask = x % 8 :=
  Nat.and_two_pow_sub_one_eq_mod x 3

@[simp] lemma xHeapStructSize_eq : xHeapStructSize = 8 := by decide

@[simp] lemma heapMinimumBlockSize_eq : heapMinimumBlockSize = 16 := by decide

lemma or_allocatedBitmask {size : ℕ} (h : size < 2 ^ 31) :
    size ||| heapBlockAllocatedBitmask = size + 2 ^ 31 := by
  rw [Nat.lor_comm, Nat.add_comm]
  exact (Nat.two_pow_add_eq_or_of_lt h 1).symm

lemma and_allocatedBitmask {size : ℕ} (h : size < 2 ^ 31) :
    (size + 2 ^ 31) &&& heapBlockAllocatedBitmask ≠ 0 := by
  rw [show heapBlockAllocatedBitmask = 2 ^ 31 from rfl, Nat.and_two_pow, Nat.add_comm,
    Nat.testBit_two_pow_add_eq, Nat.testBit_lt_two_pow h]
  decide

lemma and_not_allocatedBitmask {size : ℕ} (h : size < 2 ^ 31) :
    (size + 2 ^ 31) &&& (heapSizeMax ^^^ heapBlockAllocatedBitmask) = size := by
  rw [show heapSizeMax ^^^ heapBlockAllocatedBitmask = 2 ^ 31 - 1 by decide,
    Nat.and_two_pow_sub_one_eq_mod]
  omega

/-! ## The operations -/

def store (h : PortHeap) (p : ℕ) (b : BlockLink) : PortHeap :=
  { h with mem := Function.update h.mem p b }

def setNext (h : PortHeap) (p next : ℕ) : PortHeap :=
  h.store p { h.mem p with pxNextFreeBlock := next }

def setSize (h : PortHeap) (p size : ℕ) : PortHeap :=
  h.store p { h.mem p with xBlockSize := size }

def setEnd (h : PortHeap) (p : ℕ) : PortHeap := { h with pxEnd := p }

def setFreeBytes (h : PortHeap) (remaining minimum : ℕ) : PortHeap :=
  { h with xFreeBytesRemaining := remaining, xMinimumEverFreeBytesRemaining := minimum }

def setCalls (h : PortHeap) (allocations frees : ℕ) : PortHeap :=
  { h with xNumberOfSuccessfulAllocations := allocations, xNumberOfSuccessfulFrees := frees }

def blockSizeIsValid (size : ℕ) : Bool := size &&& heapBlockAllocatedBitmask = 0

lemma blockSizeIsValid_of_lt {size : ℕ} (h : size < 2 ^ 31) : blockSizeIsValid size = true := by
  rw [blockSizeIsValid, show heapBlockAllocatedBitmask = 2 ^ 31 from rfl, Nat.and_two_pow,
    Nat.testBit_lt_two_pow h]
  rfl

def blockIsAllocated (b : BlockLink) : Bool := b.xBlockSize &&& heapBlockAllocatedBitmask ≠ 0

def prvHeapInit (L : HeapPlace) (h : PortHeap) : PortHeap :=
  let (start, total) :=
    if L.ucHeap &&& portByteAlignmentMask ≠ 0 then
      let aligned := alignDown (addSize L.ucHeap (portByteAlignment - 1))
      (aligned, sizeSub configTotalHeapSize (sizeSub aligned L.ucHeap))
    else
      (L.ucHeap, configTotalHeapSize)
  let h := h.store L.xStart ⟨start, 0⟩
  let pxEnd := alignDown (sizeSub (addSize start total) xHeapStructSize)
  let h := (h.setEnd pxEnd).store pxEnd ⟨0, 0⟩
  let h := h.store start ⟨pxEnd, sizeSub pxEnd start⟩
  h.setFreeBytes (h.mem start).xBlockSize (h.mem start).xBlockSize

/-- The `for` loop of `prvInsertBlockIntoFreeList`: the block to insert behind. -/
def insertLoop (h : PortHeap) (block : ℕ) : ℕ → ℕ → Option ℕ
  | 0, _ => none
  | fuel + 1, it =>
    if (h.mem it).pxNextFreeBlock < block then insertLoop h block fuel (h.mem it).pxNextFreeBlock
    else some it

/-- The first merge of `prvInsertBlockIntoFreeList`: with the block before. -/
def mergeBefore (h : PortHeap) (it block : ℕ) : PortHeap × ℕ :=
  if addSize it (h.mem it).xBlockSize = block then
    (h.setSize it (addSize (h.mem it).xBlockSize (h.mem block).xBlockSize), it)
  else
    (h, block)

/-- The second merge, with the block behind, and the link from the block before. -/
def mergeBehind (h : PortHeap) (it block : ℕ) : PortHeap :=
  let next := (h.mem it).pxNextFreeBlock
  let h :=
    if addSize block (h.mem block).xBlockSize = next then
      if next ≠ h.pxEnd then
        (h.setSize block (addSize (h.mem block).xBlockSize (h.mem next).xBlockSize)).setNext block
          (h.mem next).pxNextFreeBlock
      else
        h.setNext block h.pxEnd
    else
      h.setNext block next
  if it ≠ block then h.setNext it block else h

def prvInsertBlockIntoFreeList (L : HeapPlace) (fuel : ℕ) (block : ℕ) (h : PortHeap) :
    Option PortHeap :=
  (insertLoop h block fuel L.xStart).map fun it =>
    let (h, block) := mergeBefore h it block
    mergeBehind h it block

/-- The size of the block that a request needs, 0 when it cannot be satisfied. -/
def wantedBlockSize (wanted : ℕ) : ℕ :=
  if 0 < wanted then
    let additional := xHeapStructSize + portByteAlignment - (wanted &&& portByteAlignmentMask)
    if wanted > heapSizeMax - additional then 0 else addSize wanted additional
  else
    wanted

/-- The `while` loop of `pvPortMalloc`: the block that is taken and the one before it. -/
def searchLoop (h : PortHeap) (wanted : ℕ) : ℕ → ℕ → ℕ → Option (ℕ × ℕ)
  | 0, _, _ => none
  | fuel + 1, previous, block =>
    if (h.mem block).xBlockSize < wanted ∧ (h.mem block).pxNextFreeBlock ≠ 0 then
      searchLoop h wanted fuel block (h.mem block).pxNextFreeBlock
    else
      some (previous, block)

/-- Cuts `wanted` bytes off the block and puts the rest back into the free list, when the rest
is large enough. -/
def splitBlock (L : HeapPlace) (fuel : ℕ) (wanted block : ℕ) (h : PortHeap) : Option PortHeap :=
  if sizeSub (h.mem block).xBlockSize wanted > heapMinimumBlockSize then
    let newBlock := addSize block wanted
    -- configASSERT: an assertion that fails never returns
    if newBlock &&& portByteAlignmentMask = 0 then
      let h := h.setSize newBlock (sizeSub (h.mem block).xBlockSize wanted)
      let h := h.setSize block wanted
      prvInsertBlockIntoFreeList L fuel newBlock h
    else none
  else some h

/-- The counters of free bytes when a block of the size `size` is handed out. -/
def spendBytes (size : ℕ) (h : PortHeap) : PortHeap :=
  let remaining := sizeSub h.xFreeBytesRemaining size
  h.setFreeBytes remaining
    (if remaining < h.xMinimumEverFreeBytesRemaining then remaining
      else h.xMinimumEverFreeBytesRemaining)

/-- The block is handed out: the counters and its header. -/
def claimBlock (block : ℕ) (h : PortHeap) : PortHeap :=
  let h := spendBytes (h.mem block).xBlockSize h
  let h := h.setSize block ((h.mem block).xBlockSize ||| heapBlockAllocatedBitmask)
  let h := h.setNext block 0
  h.setCalls (addSize h.xNumberOfSuccessfulAllocations 1) h.xNumberOfSuccessfulFrees

/-- Takes the block `block` behind `previous` out of the free list. -/
def takeBlock (L : HeapPlace) (fuel : ℕ) (wanted previous block : ℕ) (h : PortHeap) :
    Option (PortHeap × ℕ) :=
  let pvReturn := addSize (h.mem previous).pxNextFreeBlock xHeapStructSize
  let h := h.setNext previous (h.mem block).pxNextFreeBlock
  (splitBlock L fuel wanted block h).map fun h => (claimBlock block h, pvReturn)

/-- `pvPortMalloc`: the scheduler is suspended from its beginning to its end. -/
def pvPortMalloc (L : HeapPlace) (fuel : ℕ) (xWantedSize : ℕ) (h : PortHeap) :
    Option (PortHeap × ℕ) := do
  let h := if h.pxEnd = 0 then prvHeapInit L h else h
  let wanted := wantedBlockSize xWantedSize
  let (h, pvReturn) ←
    if blockSizeIsValid wanted ∧ 0 < wanted ∧ wanted ≤ h.xFreeBytesRemaining then do
      let (previous, block) ← searchLoop h wanted fuel L.xStart (h.mem L.xStart).pxNextFreeBlock
      if block ≠ h.pxEnd then takeBlock L fuel wanted previous block h else some (h, 0)
    else some (h, 0)
  if pvReturn &&& portByteAlignmentMask = 0 then some (h, pvReturn) else none

/-- The part of `vPortFree` that runs before the scheduler is suspended: the block is no
longer allocated, but it is not in the free list yet. -/
def vPortFreeRelease (pv : ℕ) (h : PortHeap) : Option PortHeap :=
  let link := sizeSub pv xHeapStructSize
  if blockIsAllocated (h.mem link) ∧ (h.mem link).pxNextFreeBlock = 0 then
    some (h.setSize link
      ((h.mem link).xBlockSize &&& (heapSizeMax ^^^ heapBlockAllocatedBitmask)))
  else none

/-- The part of `vPortFree` that runs while the scheduler is suspended. -/
def vPortFreeInsert (L : HeapPlace) (fuel : ℕ) (pv : ℕ) (h : PortHeap) : Option PortHeap := do
  let link := sizeSub pv xHeapStructSize
  let h := h.setFreeBytes (addSize h.xFreeBytesRemaining (h.mem link).xBlockSize)
    h.xMinimumEverFreeBytesRemaining
  let h ← prvInsertBlockIntoFreeList L fuel link h
  some (h.setCalls h.xNumberOfSuccessfulAllocations (addSize h.xNumberOfSuccessfulFrees 1))

def vPortFree (L : HeapPlace) (fuel : ℕ) (pv : ℕ) (h : PortHeap) : Option PortHeap :=
  if pv ≠ 0 then (vPortFreeRelease pv h).bind (vPortFreeInsert L fuel pv) else some h

def heapMultiplyWillOverflow (a b : ℕ) : Bool := 0 < a ∧ b > heapSizeMax / a

/-- `pvPortCalloc`; the bytes that it clears are the caller's, not the heap's. -/
def pvPortCalloc (L : HeapPlace) (fuel : ℕ) (xNum xSize : ℕ) (h : PortHeap) :
    Option (PortHeap × ℕ) :=
  if heapMultiplyWillOverflow xNum xSize then some (h, 0)
  else pvPortMalloc L fuel (xNum * xSize) h

def xPortGetFreeHeapSize (h : PortHeap) : ℕ := h.xFreeBytesRemaining

def xPortGetMinimumEverFreeHeapSize (h : PortHeap) : ℕ := h.xMinimumEverFreeBytesRemaining

end PortHeap

end FrameworkXC32
