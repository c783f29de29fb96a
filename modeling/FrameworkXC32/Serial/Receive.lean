import FrameworkXC32.Api.RingFifo
import FrameworkXC32.Pins.Board
import FrameworkXC32.Serial.Link

/-!
# The receive buffer of `SoftwareSerial` as a queue

Frames that `rxRead` accepts, under any interleaving with the calls of a sketch. The object refines
a queue with room for all bytes of its buffer but one, beside the bytes dropped since it was empty
by construction or by `flush`.
-/

namespace FrameworkXC32
open Machine Circular

/-- A frame is given by the byte of its eight samples; its start and stop bits are valid. -/
inductive RxOp
  | frame (b : Byte)
  | read
  | peek
  | available
  | overflow
  | flush
deriving DecidableEq, Repr

/-- The bytes accepted and read, and the bytes dropped since the construction or the last `flush`.
-/
structure RxQueue where
  queue : Fifo Byte
  dropped : List Byte

namespace RxOp

def step (s : SoftwareSerial) : RxOp → Option (RingAnswer × SoftwareSerial)
  | frame b => (s.rxRead false ((List.range 8).map b.getLsbD) true).map fun t => (.void, t)
  | read => some (.int s.read.1, s.read.2)
  | peek => some (.int s.peek, s)
  | available => some (.int s.available, s)
  | overflow => some (.bool s.overflow, s)
  | flush => some (.void, s.flush)

/-- The byte that a frame stands for. -/
def decoded (invert : Bool) (b : Byte) : Byte := if invert then ~~~b else b

def spec (invert : Bool) (q : RxQueue) : RxOp → RingAnswer × RxQueue
  | frame b =>
    let (taken, queue) := q.queue.push (decoded invert b)
    (.void, ⟨queue, if taken then q.dropped else q.dropped ++ [decoded invert b]⟩)
  | read => (.int (RingOp.offered q.queue.pop.1), { q with queue := q.queue.pop.2 })
  | peek => (.int (RingOp.offered q.queue.items.head?), q)
  | available => (.int q.queue.items.length, q)
  | overflow => (.bool (q.dropped ≠ []), q)
  | flush => (.void, ⟨q.queue.clear, []⟩)

variable (invert : Bool) {q : RxQueue}

lemma spec_frame_of_room (b : Byte) (h : q.queue.items.length < q.queue.capacity) :
    spec invert q (frame b) = (.void, ⟨(q.queue.push (decoded invert b)).2, q.dropped⟩) := by
  have hpush : (q.queue.push (decoded invert b)).1 = true := by
    rw [Fifo.push_fst, decide_eq_true h]
  simp only [spec, hpush, if_true]

lemma spec_frame_of_full (b : Byte) (h : ¬q.queue.items.length < q.queue.capacity) :
    spec invert q (frame b) = (.void, ⟨q.queue, q.dropped ++ [decoded invert b]⟩) := by
  have hpush : q.queue.push (decoded invert b) = (false, q.queue) := by
    rw [Fifo.length_items] at h
    exact dif_neg h
  simp only [spec, hpush, Bool.false_eq_true, if_false]

end RxOp

namespace RxQueue

/-- The queue of a receiver with room for `buffSize` bytes, after its construction. -/
def new (buffSize : Word) : RxQueue := ⟨Fifo.new (buffSize.toNat - 1), []⟩

def after (invert : Bool) (buffSize : Word) (ops : List RxOp) : RxQueue :=
  Mealy.after (RxOp.spec invert) (new buffSize) ops

/-- Some frame found the queue full, and `flush` was not called after it. -/
def DropSinceFlush (invert : Bool) (buffSize : Word) (ops : List RxOp) : Prop :=
  ∃ done b rest, ops = done ++ .frame b :: rest ∧ .flush ∉ rest ∧
    (after invert buffSize done).queue.items.length = buffSize.toNat - 1

end RxQueue

namespace SoftwareSerial

/-- The object holds the bytes that wait in the queue, and its flag says whether one was dropped. -/
structure Holds (invert : Bool) (buffSize : Word) (s : SoftwareSerial) (q : RxQueue) : Prop where
  inBuffer : s.InBuffer
  valid : s.rxValid = true
  inverted : s.invert = invert
  size : s.buffSize = buffSize
  unread : s.unread = q.queue.items
  capacity : q.queue.capacity + 1 = buffSize.toNat
  overflow : s.overflow = decide (q.dropped ≠ [])

lemma store_eq_overflow {s : SoftwareSerial} (h : s.InBuffer) (hvalid : s.rxValid = true)
    (hfull : s.unreadCount + 1 = s.buffSize.toNat) (received : Byte) :
    s.store received = some { s with overflow := true } := by
  obtain ⟨hsize, hin, hout⟩ := h hvalid
  have hne : s.buffSize ≠ 0 := by
    intro hzero
    rw [hzero] at hfull
    simp at hfull
  have hnext : (s.inPos + 1) % s.buffSize = s.outPos := by
    apply BitVec.eq_of_toNat_eq
    rw [toNat_advance (by omega)]
    unfold unreadCount at hfull
    by_cases hwrap : s.inPos.toNat + 1 = s.buffSize.toNat
    · rw [hwrap, Nat.mod_self]
      split at hfull <;> omega
    · rw [Nat.mod_eq_of_lt (by omega)]
      split at hfull <;> omega
  unfold store
  rw [if_neg hne, hnext]
  simp

lemma unread_flush (s : SoftwareSerial) : s.flush.unread = [] := by
  unfold unread
  split
  · rfl
  · rfl

lemma unreadCount_lt {s : SoftwareSerial} (h : s.InBuffer) (hvalid : s.rxValid = true)
    (hpos : 0 < s.buffSize.toNat) : s.unreadCount < s.buffSize.toNat := by
  obtain ⟨hsize, hin, hout⟩ := h hvalid
  unfold unreadCount
  split <;> omega

variable {invert : Bool} {buffSize : Word} {s : SoftwareSerial} {q : RxQueue}

lemma Holds.frame (h : Holds invert buffSize s q) (b : Byte) :
    ∃ t, RxOp.step s (.frame b) = some ((RxOp.spec invert q (.frame b)).1, t) ∧
      Holds invert buffSize t (RxOp.spec invert q (.frame b)).2 := by
  have hlength : q.queue.items.length = s.unreadCount := by
    rw [← h.unread, length_unread h.valid]
  have hsize : s.buffSize.toNat = buffSize.toNat := by rw [h.size]
  have hcapacity := h.capacity
  have hlt := unreadCount_lt h.inBuffer h.valid (by omega)
  have hread : RxOp.step s (.frame b) = (s.store b).map fun t => (.void, t) := by
    unfold RxOp.step rxRead
    dsimp only
    rw [if_neg (by decide), if_pos rfl, shiftIn_bits]
  rw [hread]
  by_cases hroom : s.unreadCount + 1 < s.buffSize.toNat
  · have hfits : q.queue.items.length < q.queue.capacity := by omega
    have hstore := store_eq_push h.inBuffer h.valid hroom b
    rw [h.inverted] at hstore
    rw [hstore, RxOp.spec_frame_of_room invert b hfits]
    refine ⟨_, rfl, h.inBuffer.store hstore, h.valid, h.inverted, h.size, ?_, ?_, h.overflow⟩
    · rw [unread_push h.inBuffer h.valid hroom, Fifo.items_push, if_pos hfits, h.unread]
      rfl
    · rw [Fifo.capacity_push]
      exact hcapacity
  · have hfull : ¬q.queue.items.length < q.queue.capacity := by omega
    have hstore := store_eq_overflow h.inBuffer h.valid (by omega) b
    rw [hstore, RxOp.spec_frame_of_full invert b hfull]
    refine ⟨_, rfl, h.inBuffer.store hstore, h.valid, h.inverted, h.size, h.unread, hcapacity, ?_⟩
    simp

lemma flag_read (s : SoftwareSerial) : s.read.2.overflow = s.overflow ∧
    s.read.2.rxValid = s.rxValid ∧ s.read.2.invert = s.invert ∧ s.read.2.buffSize = s.buffSize := by
  unfold read
  split <;> exact ⟨rfl, rfl, rfl, rfl⟩

lemma Holds.read (h : Holds invert buffSize s q) :
    s.read.1 = RingOp.offered q.queue.items.head? ∧
      Holds invert buffSize s.read.2 { q with queue := q.queue.drop 1 } := by
  obtain ⟨hanswer, hin, hrest⟩ := delivers s s.unread ⟨h.inBuffer, rfl⟩ .read
  obtain ⟨hflag, hvalid, hinvert, hsize⟩ := flag_read s
  rw [h.unread] at hanswer hrest
  refine ⟨hanswer, hin, hvalid.trans h.valid, hinvert.trans h.inverted, hsize.trans h.size, ?_,
    h.capacity, hflag.trans h.overflow⟩
  rw [Fifo.items_drop, List.drop_one]
  exact hrest

/-- Every call does to the object what it does to the queue. -/
lemma Holds.step (h : Holds invert buffSize s q) (op : RxOp) :
    ∃ t, RxOp.step s op = some ((RxOp.spec invert q op).1, t) ∧
      Holds invert buffSize t (RxOp.spec invert q op).2 := by
  cases op with
  | frame b => exact h.frame b
  | read =>
    obtain ⟨hanswer, hread⟩ := h.read
    refine ⟨s.read.2, ?_, hread⟩
    rw [RxOp.step, hanswer]
    rfl
  | peek =>
    refine ⟨s, ?_, h⟩
    obtain ⟨hanswer, -⟩ := delivers s s.unread ⟨h.inBuffer, rfl⟩ .peek
    rw [h.unread] at hanswer
    rw [RxOp.step, show s.peek = RingOp.offered q.queue.items.head? from hanswer]
    rfl
  | available =>
    refine ⟨s, ?_, h⟩
    rw [RxOp.step, available_eq h.inBuffer, h.unread]
    rfl
  | overflow =>
    refine ⟨s, ?_, h⟩
    rw [RxOp.step, h.overflow]
    rfl
  | flush =>
    have hpos : 0 < max 1 s.buffSize.toNat := lt_max_of_lt_left Nat.zero_lt_one
    refine ⟨s.flush, rfl, fun hvalid => ⟨(h.inBuffer hvalid).1, hpos, hpos⟩, h.valid, h.inverted,
      h.size, ?_, h.capacity, rfl⟩
    rw [unread_flush, RxOp.spec, Fifo.items_clear]

lemma holds_constructed (board : Board) (this : ℕ) (raw : SoftwareSerial)
    (transmitPin receivePin : Word) (inverseLogic : Bool) (buffSize : Word) (malloc : Bool)
    (w : SerialBoard) (hvalid : (constructed board this raw transmitPin receivePin inverseLogic
      buffSize malloc w).rxValid = true) (hsize : 1 ≤ buffSize.toNat) :
    Holds inverseLogic buffSize (constructed board this raw transmitPin receivePin inverseLogic
      buffSize malloc w) (RxQueue.new buffSize) := by
  have hbuffer := inBuffer_constructed board this raw transmitPin receivePin inverseLogic buffSize
    malloc w
  have htx : (SerialBoard.constructTx board transmitPin inverseLogic raw w).1.rxValid = false ∧
      (SerialBoard.constructTx board transmitPin inverseLogic raw w).1.invert = inverseLogic ∧
      (SerialBoard.constructTx board transmitPin inverseLogic raw w).1.overflow = false := by
    unfold SerialBoard.constructTx
    dsimp only
    split <;> exact ⟨rfl, rfl, rfl⟩
  obtain ⟨hinvalid, hinvert, hflag⟩ := htx
  unfold constructed at hvalid hbuffer ⊢
  generalize SerialBoard.constructTx board transmitPin inverseLogic raw w = tx at *
  unfold SerialBoard.constructRx at hvalid hbuffer ⊢
  dsimp only at hvalid hbuffer ⊢
  split at hvalid
  · rename_i hclaim
    rw [if_pos hclaim] at hbuffer ⊢
    exact ⟨hbuffer, rfl, hinvert, rfl, rfl, Nat.sub_add_cancel hsize, hflag⟩
  · rw [hinvalid] at hvalid
    cases hvalid

end SoftwareSerial

namespace RxQueue

variable (invert : Bool) (buffSize : Word)

lemma after_concat (ops : List RxOp) (op : RxOp) : after invert buffSize (ops ++ [op]) =
    (RxOp.spec invert (after invert buffSize ops) op).2 := by
  unfold after Mealy.after
  rw [List.foldl_append]
  rfl

lemma capacity_after (ops : List RxOp) :
    (after invert buffSize ops).queue.capacity = buffSize.toNat - 1 := by
  induction ops using List.reverseRecOn with
  | nil => rfl
  | append_singleton ops op ih =>
    rw [after_concat, ← ih]
    cases op with
    | frame b => exact Fifo.capacity_push _ _
    | _ => rfl

lemma dropSinceFlush_concat (ops : List RxOp) (op : RxOp) :
    DropSinceFlush invert buffSize (ops ++ [op]) ↔
      (∃ b, op = .frame b ∧
        (after invert buffSize ops).queue.items.length = buffSize.toNat - 1) ∨
      op ≠ .flush ∧ DropSinceFlush invert buffSize ops := by
  constructor
  · rintro ⟨done, b, rest, hops, hflush, hfull⟩
    induction rest using List.reverseRecOn with
    | nil =>
      obtain ⟨rfl, hop⟩ := List.append_inj' hops rfl
      cases hop
      exact Or.inl ⟨b, rfl, hfull⟩
    | append_singleton rest x _ =>
      rw [← List.cons_append, ← List.append_assoc] at hops
      obtain ⟨rfl, hop⟩ := List.append_inj' hops rfl
      cases hop
      rw [List.mem_append, not_or, List.mem_singleton] at hflush
      exact Or.inr ⟨fun h => hflush.2 h.symm, done, b, rest, rfl, hflush.1, hfull⟩
  · rintro (⟨b, rfl, hfull⟩ | ⟨hop, done, b, rest, rfl, hflush, hfull⟩)
    · exact ⟨ops, b, [], rfl, List.not_mem_nil, hfull⟩
    · refine ⟨done, b, rest ++ [op], by simp, ?_, hfull⟩
      rw [List.mem_append, not_or, List.mem_singleton]
      exact ⟨hflush, fun h => hop h.symm⟩

lemma dropped_ne_nil_iff (ops : List RxOp) :
    (after invert buffSize ops).dropped ≠ [] ↔ DropSinceFlush invert buffSize ops := by
  induction ops using List.reverseRecOn with
  | nil =>
    refine iff_of_false (fun h => h rfl) ?_
    rintro ⟨done, b, rest, hops, -⟩
    simp at hops
  | append_singleton ops op ih =>
    have hcapacity := capacity_after invert buffSize ops
    have hle := (after invert buffSize ops).queue.length_items_le
    rw [after_concat, dropSinceFlush_concat, ← ih]
    cases op with
    | frame b =>
      by_cases hroom : (after invert buffSize ops).queue.items.length <
          (after invert buffSize ops).queue.capacity
      · have hne : (after invert buffSize ops).queue.items.length ≠ buffSize.toNat - 1 := by omega
        rw [RxOp.spec_frame_of_room invert b hroom]
        simp [hne]
      · have heq : (after invert buffSize ops).queue.items.length = buffSize.toNat - 1 := by omega
        rw [RxOp.spec_frame_of_full invert b hroom]
        simp [heq]
    | flush => simp [RxOp.spec]
    | _ => simp [RxOp.spec]

end RxQueue

namespace SoftwareSerial

/-- From its construction on, under any interleaving of accepted frames and calls, the object
answers as a queue with room for `buffSize - 1` bytes does: what `read` returns, and how many bytes
`available` counts. It says that it has overflowed when a frame has found `buffSize - 1` bytes
unread since the last `flush`. -/
theorem receive_buffer_is_queue (board : Board) (this : ℕ) (raw : SoftwareSerial)
    (transmitPin receivePin : Word) (inverseLogic : Bool) (buffSize : Word) (malloc : Bool)
    (w : SerialBoard) (hvalid : (constructed board this raw transmitPin receivePin inverseLogic
      buffSize malloc w).rxValid = true) (hsize : 1 ≤ buffSize.toNat) (ops : List RxOp) :
    ∃ s, Mealy.run RxOp.step (constructed board this raw transmitPin receivePin inverseLogic
        buffSize malloc w) ops =
      some (Mealy.answers (RxOp.spec inverseLogic) (RxQueue.new buffSize) ops, s) ∧
      s.unread = (RxQueue.after inverseLogic buffSize ops).queue.items ∧
      s.available = s.unread.length ∧ s.unread.length ≤ buffSize.toNat - 1 ∧
      (s.overflow = true ↔ RxQueue.DropSinceFlush inverseLogic buffSize ops) := by
  have hstart := holds_constructed board this raw transmitPin receivePin inverseLogic buffSize malloc
    w hvalid hsize
  obtain ⟨s, hrun, h⟩ := Mealy.refines (fun s q op h _ => h.step op) hstart
    (Mealy.allowed_true (RxOp.spec inverseLogic) _ ops)
  have hq : RxQueue.after inverseLogic buffSize ops =
      Mealy.after (RxOp.spec inverseLogic) (RxQueue.new buffSize) ops := rfl
  rw [← hq] at h
  refine ⟨s, hrun, h.unread, available_eq h.inBuffer, ?_, ?_⟩
  · rw [h.unread, ← RxQueue.capacity_after inverseLogic buffSize ops]
    exact Fifo.length_items_le _
  · rw [h.overflow, decide_eq_true_eq]
    exact RxQueue.dropped_ne_nil_iff inverseLogic buffSize ops

/-- A receiver on pin 1 of the board, with a buffer of two bytes, in zeroed memory. -/
def receiverOfTwo : SoftwareSerial :=
  constructed EFM100.board 0 ⟨0, 0, 0, false, false, false, false, false, false, 0, 0, 0, 0, false,
    fun _ => 0, 0⟩ 0 1 false 2 true ⟨EFM100.idle, fun _ => none, fun _ => none⟩

/-- It keeps the first of two frames and drops the second. -/
theorem receive_buffer_is_queue_of_two :
    ∃ s, Mealy.run RxOp.step receiverOfTwo
        [.frame 0x55, .frame 0x0f, .overflow, .available, .read, .flush, .overflow] =
      some ([.void, .void, .bool true, .int 1, .int 0x55, .void, .bool false], s) ∧
      s.unread = [] ∧ s.available = s.unread.length ∧ s.unread.length ≤ 2 - 1 ∧
      (s.overflow = true ↔ RxQueue.DropSinceFlush false 2
        [.frame 0x55, .frame 0x0f, .overflow, .available, .read, .flush, .overflow]) :=
  receive_buffer_is_queue EFM100.board 0 _ 0 1 false 2 true _ (by decide) (by decide)
    [.frame 0x55, .frame 0x0f, .overflow, .available, .read, .flush, .overflow]

end SoftwareSerial

end FrameworkXC32
