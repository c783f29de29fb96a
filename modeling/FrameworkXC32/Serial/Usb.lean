import FrameworkXC32.Api.Stream
import FrameworkXC32.Lib.Circular

/-!
# `SerialUSB`

The class of `SerialUSB.h` over the receive queue of its CDC interface, a queue of `tusb_fifo.c`
whose indices run twice round the buffer.
-/

namespace FrameworkXC32
open Machine Circular

/-- `_ff_count`. The indices are below `2 * depth`, so that no cast truncates. -/
def ffCount (depth wrIdx rdIdx : ℕ) : ℕ :=
  if wrIdx ≥ rdIdx then wrIdx - rdIdx else 2 * depth - (rdIdx - wrIdx)

/-- A queue of bytes that is not overwritable, as `tu_fifo_config` makes them. -/
structure TuFifo where
  buffer : ℕ → Byte
  depth : ℕ
  wrIdx : ℕ
  rdIdx : ℕ
  depth_pos : 0 < depth
  depth_le : depth ≤ 0x8000
  wrIdx_lt : wrIdx < 2 * depth
  rdIdx_lt : rdIdx < 2 * depth
  count_le : ffCount depth wrIdx rdIdx ≤ depth

/-- `advance_index`, with the wrap of `uint16_t`. -/
def advanceIndex (depth idx offset : ℕ) : ℕ :=
  let newIdx := (idx + offset) % 2 ^ 16
  if idx > newIdx ∨ newIdx ≥ 2 * depth then
    let nonUsedIndexSpace := 2 ^ 16 - 2 * depth
    (newIdx + nonUsedIndexSpace) % 2 ^ 16
  else newIdx

lemma advanceIndex_eq {depth idx offset : ℕ} (hdepth : depth ≤ 0x8000) (hidx : idx < 2 * depth)
    (hoffset : offset ≤ depth) :
    advanceIndex depth idx offset =
      if idx + offset < 2 * depth then idx + offset else idx + offset - 2 * depth := by
  unfold advanceIndex
  dsimp only
  split <;> split <;> omega

lemma advanceIndex_lt {depth idx offset : ℕ} (hdepth : depth ≤ 0x8000) (hidx : idx < 2 * depth)
    (hoffset : offset ≤ depth) : advanceIndex depth idx offset < 2 * depth := by
  rw [advanceIndex_eq hdepth hidx hoffset]
  split <;> omega

lemma ffCount_read {depth wrIdx rdIdx n : ℕ} (hdepth : depth ≤ 0x8000) (hwr : wrIdx < 2 * depth)
    (hrd : rdIdx < 2 * depth) (hcount : ffCount depth wrIdx rdIdx ≤ depth)
    (hn : n ≤ ffCount depth wrIdx rdIdx) :
    ffCount depth wrIdx (advanceIndex depth rdIdx n) = ffCount depth wrIdx rdIdx - n := by
  rw [advanceIndex_eq hdepth hrd (hn.trans hcount)]
  unfold ffCount at *
  split_ifs at * <;> omega

namespace TuFifo

def count (f : TuFifo) : ℕ := min (ffCount f.depth f.wrIdx f.rdIdx) f.depth

lemma count_eq (f : TuFifo) : f.count = ffCount f.depth f.wrIdx f.rdIdx :=
  Nat.min_eq_left f.count_le

/-- `idx2ptr` subtracts the depth while it can. -/
def ptr (f : TuFifo) (idx : ℕ) : ℕ := idx % f.depth

/-- `tu_fifo_config`, which refuses depths above `0x8000`. -/
def config (buffer : ℕ → Byte) (depth : ℕ) (hpos : 0 < depth) (hle : depth ≤ 0x8000) : TuFifo where
  buffer := buffer
  depth := depth
  wrIdx := 0
  rdIdx := 0
  depth_pos := hpos
  depth_le := hle
  wrIdx_lt := by omega
  rdIdx_lt := by omega
  count_le := Nat.zero_le _

/-- `tu_fifo_peek`. A queue that is not overwritable never holds more than `depth` items, so that
the read index needs no correction. -/
def peek (f : TuFifo) : Option Byte :=
  if ffCount f.depth f.wrIdx f.rdIdx = 0 then none else some (f.buffer (f.ptr f.rdIdx))

/-- `tu_fifo_read_n`: the bytes that it copies, and the queue behind it. -/
def readN (n : ℕ) (f : TuFifo) : List Byte × TuFifo :=
  let length := min n (ffCount f.depth f.wrIdx f.rdIdx)
  have hle : length ≤ ffCount f.depth f.wrIdx f.rdIdx := Nat.min_le_right _ _
  (span f.buffer f.depth (f.ptr f.rdIdx) length,
    { f with
      rdIdx := advanceIndex f.depth f.rdIdx length
      rdIdx_lt := advanceIndex_lt f.depth_le f.rdIdx_lt (hle.trans f.count_le)
      count_le := by
        rw [ffCount_read f.depth_le f.wrIdx_lt f.rdIdx_lt f.count_le hle]
        exact (Nat.sub_le _ _).trans f.count_le })

/-- The bytes in the queue, oldest first. -/
def contents (f : TuFifo) : List Byte := span f.buffer f.depth f.rdIdx f.count

lemma peek_eq (f : TuFifo) : f.peek = f.contents.head? := by
  unfold peek contents
  rw [← count_eq]
  cases f.count with
  | zero => rfl
  | succ n =>
    rw [span_succ]
    rfl

lemma readN_one (f : TuFifo) : (f.readN 1).1 = f.contents.take 1 ∧
    (f.readN 1).2.contents = f.contents.tail := by
  have hcount := f.count_eq
  have hread := (f.readN 1).2.count_eq
  have hle : min 1 f.count ≤ ffCount f.depth f.wrIdx f.rdIdx := by omega
  have hrest : (f.readN 1).2.count = f.count - min 1 f.count := by
    rw [hread, hcount]
    exact ffCount_read f.depth_le f.wrIdx_lt f.rdIdx_lt f.count_le (Nat.min_le_right _ _)
  have hcontents : (f.readN 1).2.contents = span f.buffer f.depth
      (advanceIndex f.depth f.rdIdx (min 1 f.count)) (f.count - min 1 f.count) := by
    unfold contents
    rw [hrest, hcount]
    rfl
  have hcopied : (f.readN 1).1 = span f.buffer f.depth f.rdIdx (min 1 f.count) := by
    rw [hcount, ← span_mod]
    rfl
  rw [hcontents, hcopied]
  unfold contents
  cases hc : f.count with
  | zero => exact ⟨rfl, rfl⟩
  | succ n =>
    have hone : min 1 (n + 1) = 1 := by omega
    rw [hone, span_succ, span_succ, span_zero, Nat.add_sub_cancel]
    refine ⟨rfl, ?_⟩
    rw [List.tail_cons]
    apply span_congr
    rw [advanceIndex_eq f.depth_le f.rdIdx_lt f.depth_pos]
    split
    · rfl
    · rename_i hwrap
      have hlt := f.rdIdx_lt
      have heq : f.rdIdx + 1 = 2 * f.depth := by omega
      rw [heq, Nat.sub_self, Nat.mul_mod_left, Nat.zero_mod]

end TuFifo

/-- `SerialUSB`, with what `tud_cdc_connected` reads. No event waits for `tud_task`. -/
structure SerialUsb where
  mounted : Bool
  suspended : Bool
  lineState : Byte
  rxFf : TuFifo

namespace SerialUsb

/-- `tud_cdc_connected`: the device is ready and the host has set DTR. -/
def connected (s : SerialUsb) : Bool := s.mounted && !s.suspended && s.lineState.getLsbD 0

/-- `tud_cdc_read_char` -/
def readChar (s : SerialUsb) : ℤ × SerialUsb :=
  let (copied, rxFf) := s.rxFf.readN 1
  (match copied with
    | c :: _ => (c.toNat : ℤ)
    | [] => -1, { s with rxFf := rxFf })

def read (s : SerialUsb) : ℤ × SerialUsb :=
  if s.connected && s.rxFf.count ≠ 0 then s.readChar else (-1, s)

def available (s : SerialUsb) : ℤ := if s.connected then s.rxFf.count else 0

def peek (s : SerialUsb) : ℤ :=
  if s.connected then
    match s.rxFf.peek with
    | some c => c.toNat
    | none => -1
  else 0

def stream : Stream SerialUsb where
  available := fun s => (s.available, s)
  read := read
  peek := fun s => (s.peek, s)

lemma delivers : stream.Delivers fun s l => s.connected = true ∧ s.rxFf.contents = l := by
  rintro s l ⟨hconnected, rfl⟩ call
  have hlength : s.rxFf.contents.length = s.rxFf.count := length_span _ _ _ _
  cases call with
  | available =>
    refine ⟨?_, hconnected, rfl⟩
    change s.available = s.rxFf.contents.length
    rw [available, if_pos hconnected, hlength]
  | peek =>
    refine ⟨?_, hconnected, rfl⟩
    change s.peek = RingOp.offered s.rxFf.contents.head?
    rw [peek, if_pos hconnected, TuFifo.peek_eq]
    cases s.rxFf.contents.head? <;> rfl
  | read =>
    change s.read.1 = RingOp.offered s.rxFf.contents.head? ∧ s.read.2.connected = true ∧
      s.read.2.rxFf.contents = s.rxFf.contents.tail
    unfold read
    by_cases hzero : s.rxFf.count = 0
    · have hnil : s.rxFf.contents = [] := List.length_eq_zero_iff.mp (hlength.trans hzero)
      simp [hconnected, hzero, hnil, RingOp.offered]
    · rw [if_pos (by simp [hconnected, hzero])]
      obtain ⟨hcopied, hrest⟩ := s.rxFf.readN_one
      refine ⟨?_, hconnected, hrest⟩
      unfold readChar
      dsimp only
      rw [hcopied]
      cases s.rxFf.contents <;> rfl

end SerialUsb

end FrameworkXC32
