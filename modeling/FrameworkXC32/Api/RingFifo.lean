import FrameworkXC32.Api.RingBuffer
import FrameworkXC32.Lib.Fifo
import FrameworkXC32.Lib.Mealy

/-!
# The ring buffer as a queue

`RingBufferN<N>` under any interleaving of the calls of its producer, an interrupt handler, and of
its consumer. It refines a queue with room for `N - 1` bytes.
-/

namespace FrameworkXC32
open Machine

inductive RingOp
  | storeChar (c : Byte)
  | readChar
  | peek
  | available
  | availableForStore
  | isFull
  | clear
deriving DecidableEq, Repr

/-- What a call returns. -/
inductive RingAnswer
  | void
  | int (n : ℤ)
  | bool (b : Bool)
deriving DecidableEq, Repr

namespace RingOp

variable {N : ℕ}

def exec (r : RingBufferN N) : RingOp → RingAnswer × RingBufferN N
  | storeChar c => (.void, r.storeChar c)
  | readChar => (.int r.readChar.1, r.readChar.2)
  | peek => (.int r.peek, r)
  | available => (.int r.available, r)
  | availableForStore => (.int r.availableForStore, r)
  | isFull => (.bool r.isFull, r)
  | clear => (.void, r.clear)

/-- A call as a step of a machine; it always returns. -/
def step (r : RingBufferN N) (op : RingOp) : Option (RingAnswer × RingBufferN N) :=
  some (op.exec r)

/-- The character that a queue offers, `-1` when there is none. -/
def offered (c : Option Byte) : ℤ := c.elim (-1) fun c => c.toNat

/-- What the call does to a queue. -/
def spec (q : Fifo Byte) : RingOp → RingAnswer × Fifo Byte
  | storeChar c => (.void, (q.push c).2)
  | readChar => (.int (offered q.pop.1), q.pop.2)
  | peek => (.int (offered q.items.head?), q)
  | available => (.int q.items.length, q)
  | availableForStore => (.int (q.capacity - q.items.length), q)
  | isFull => (.bool (q.items.length = q.capacity), q)
  | clear => (.void, q.clear)

end RingOp

namespace RingBufferN

variable {N : ℕ}

/-- The ring buffer holds the bytes that wait in the queue, and has its capacity. -/
structure Holds (q : Fifo Byte) (r : RingBufferN N) : Prop where
  contents : r.contents = q.items
  capacity : q.capacity + 1 = N

lemma holds_new (N : ℕ) [NeZero N] : Holds (Fifo.new (N - 1)) (new N) where
  contents := contents_clear (new N)
  capacity := Nat.sub_add_cancel (Nat.pos_of_neZero N)

lemma readChar_eq (r : RingBufferN N) : r.readChar.1 = RingOp.offered r.contents.head? ∧
    r.readChar.2.contents = r.contents.tail := by
  cases h : r.contents with
  | nil =>
    rw [readChar_nil h]
    exact ⟨rfl, h⟩
  | cons c l => exact readChar_cons h

lemma peek_eq (r : RingBufferN N) : r.peek = RingOp.offered r.contents.head? := by
  have hread := (readChar_eq r).1
  rw [← hread]
  unfold peek readChar
  split <;> rfl

lemma offered_eq_neg_one_iff (l : List Byte) : RingOp.offered l.head? = -1 ↔ l = [] := by
  cases l with
  | nil => simp [RingOp.offered]
  | cons c l =>
    have hc : ((c.toNat : ℕ) : ℤ) ≠ -1 := by omega
    simp [RingOp.offered, hc]

/-- Every call does to the ring buffer what it does to the queue. -/
lemma Holds.step {q : Fifo Byte} {r : RingBufferN N} (h : Holds q r) (op : RingOp) :
    (op.exec r).1 = (op.spec q).1 ∧ Holds (op.spec q).2 (op.exec r).2 := by
  obtain ⟨hcontents, hcapacity⟩ := h
  have hlen := q.length_items_le
  cases op with
  | storeChar c =>
    refine ⟨rfl, ?_, by rw [← hcapacity]; exact congrArg (· + 1) (q.capacity_push c)⟩
    rw [RingOp.exec, RingOp.spec, contents_storeChar, Fifo.items_push, hcontents]
    apply if_congr _ rfl rfl
    omega
  | readChar =>
    obtain ⟨hvalue, hrest⟩ := readChar_eq r
    rw [hcontents] at hvalue hrest
    refine ⟨congrArg RingAnswer.int hvalue, ?_, hcapacity⟩
    rw [RingOp.exec, RingOp.spec, hrest, Fifo.pop, Fifo.items_drop, List.drop_one]
  | peek =>
    refine ⟨?_, hcontents, hcapacity⟩
    rw [RingOp.exec, RingOp.spec, peek_eq, hcontents]
  | available =>
    refine ⟨?_, hcontents, hcapacity⟩
    rw [RingOp.exec, RingOp.spec, available_eq, hcontents]
  | availableForStore =>
    have hroom : r.availableForStore = q.capacity - q.items.length := by
      rw [availableForStore_eq, hcontents]
      omega
    exact ⟨congrArg RingAnswer.int hroom, hcontents, hcapacity⟩
  | isFull =>
    have hfull : r.isFull = decide (q.items.length = q.capacity) := by
      rw [Bool.eq_iff_iff, isFull_iff, hcontents, decide_eq_true_iff]
      omega
    exact ⟨congrArg RingAnswer.bool hfull, hcontents, hcapacity⟩
  | clear =>
    refine ⟨rfl, ?_, hcapacity⟩
    rw [RingOp.exec, RingOp.spec, contents_clear, Fifo.items_clear]

/-- What the calls say of a ring buffer with some unread bytes. -/
structure Reports (unread : List Byte) (r : RingBufferN N) : Prop where
  available : r.available = unread.length
  room : r.available + r.availableForStore = N - 1
  isFull : r.isFull = true ↔ r.availableForStore = 0
  dropped : ∀ c, r.storeChar c = r ↔ unread.length = N - 1
  readChar : r.readChar.1 = -1 ↔ unread = []
  peek : r.peek = -1 ↔ unread = []

lemma reports (r : RingBufferN N) : Reports r.contents r where
  available := r.available_eq
  room := by
    rw [available_eq, availableForStore_eq]
    omega
  isFull := by
    have hlt := r.length_contents_lt
    rw [isFull_iff, availableForStore_eq]
    omega
  dropped := by
    intro c
    have hlt := r.length_contents_lt
    have hfull := isFull_iff r
    rw [isFull, decide_eq_true_iff] at hfull
    constructor
    · intro hkept
      have hcontents := contents_storeChar c r
      rw [hkept] at hcontents
      by_contra hroom
      rw [if_pos (by omega)] at hcontents
      exact absurd (congrArg List.length hcontents) (by simp)
    · intro hlen
      unfold storeChar
      dsimp only
      rw [if_neg (not_not.mpr (hfull.mpr (by omega)))]
  readChar := by
    rw [(readChar_eq r).1]
    exact offered_eq_neg_one_iff _
  peek := by
    rw [peek_eq]
    exact offered_eq_neg_one_iff _

/-- In every run of calls the ring buffer answers as a queue with room for `N - 1` bytes, and
behind it holds the bytes that the queue holds. -/
theorem ringBuffer_is_fifo (N : ℕ) [NeZero N] (ops : List RingOp) :
    ∃ r, Mealy.run RingOp.step (new N) ops =
        some (Mealy.answers RingOp.spec (Fifo.new (N - 1)) ops, r) ∧
      Holds (Mealy.after RingOp.spec (Fifo.new (N - 1)) ops) r ∧
      Reports (Mealy.after RingOp.spec (Fifo.new (N - 1)) ops).items r := by
  have hstep : ∀ (r : RingBufferN N) (q : Fifo Byte) (op : RingOp), Holds q r → True →
      ∃ r', RingOp.step r op = some ((op.spec q).1, r') ∧ Holds (op.spec q).2 r' := by
    intro r q op h _
    obtain ⟨hanswer, hholds⟩ := h.step op
    exact ⟨(op.exec r).2, by rw [← hanswer]; rfl, hholds⟩
  have hallowed : Mealy.Allowed RingOp.spec (fun _ _ => True) (Fifo.new (N - 1)) ops :=
    Mealy.allowed_true _ _ _
  obtain ⟨r, hrun, hholds⟩ := Mealy.refines hstep (holds_new N) hallowed
  refine ⟨r, hrun, hholds, ?_⟩
  rw [← hholds.contents]
  exact reports r

/-- With room for one byte, the second of two stores is dropped. -/
theorem ringBuffer_is_fifo_two : ∃ r : RingBufferN 2,
    Mealy.run RingOp.step (new 2)
        [.storeChar 7, .storeChar 9, .readChar, .readChar] =
      some ([.void, .void, .int 7, .int (-1)], r) ∧ Holds ⟨1, [7], 1, by decide, by decide⟩ r ∧
      Reports [] r :=
  ringBuffer_is_fifo 2 [.storeChar 7, .storeChar 9, .readChar, .readChar]

end RingBufferN

end FrameworkXC32
