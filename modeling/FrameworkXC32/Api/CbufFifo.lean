import FrameworkXC32.Api.Cbuf
import FrameworkXC32.Lib.Fifo
import FrameworkXC32.Lib.Mealy

/-!
# `cbuf` as a queue

`cbuf` under any sequence of its calls, against a queue whose bulk operations are repetitions of
its single ones.
-/

namespace FrameworkXC32
open Machine

/-- A call; `resize` and `resizeAdd` come with what `operator new` finds for them. -/
inductive CbufOp
  | writeChar (c : Byte)
  | write (src : List Byte)
  | readChar
  | read (size : Word)
  | peekChar
  | peek (size : Word)
  | remove (size : Word)
  | flush
  | resize (newSize : Word) (fresh : Fresh)
  | resizeAdd (addSize : Word) (fresh : Fresh)

/-- What a call returns, and for the bulk reads what is at `dst`. -/
inductive CbufAnswer
  | void
  | int (n : ℤ)
  | size (n : ℕ)
  | bytes (dst : List Byte)
deriving DecidableEq, Repr

namespace CbufOp

def step (c : Cbuf) : CbufOp → Option (CbufAnswer × Cbuf)
  | writeChar ch => (c.writeChar ch).map fun r => (.size r.1, r.2)
  | write src => (c.write src).map fun r => (.size r.1, r.2)
  | readChar => c.readChar.map fun r => (.int r.1, r.2)
  | read n => (c.read n.toNat).map fun r => (.bytes r.1, r.2)
  | peekChar => c.peekChar.map fun r => (.int r, c)
  | peek n => (c.peek n.toNat).map fun r => (.bytes r, c)
  | remove n => some (.size (c.remove n.toNat).1, (c.remove n.toNat).2)
  | flush => some (.void, c.flush)
  | resize n fresh => (c.resize n.toNat fresh).map fun r => (.size r.1, r.2)
  | resizeAdd n fresh => (c.resizeAdd n.toNat fresh).map fun r => (.size r.1, r.2)

/-- The character that a queue offers, `-1` when there is none. -/
def offered (c : Option Byte) : ℤ := c.elim (-1) BitVec.toInt

/-- The queue gets another capacity where there is memory for it and the waiting bytes fit. -/
def resized (size : ℕ) (fresh : Fresh) (q : Fifo Byte) : Fifo Byte :=
  if fresh.isSome ∧ size + 1 < 2 ^ 32 then q.resize size else q

/-- What the call does to a queue. -/
def spec (q : Fifo Byte) : CbufOp → CbufAnswer × Fifo Byte
  | writeChar ch => (.size (if (q.push ch).1 then 1 else 0), (q.push ch).2)
  | write src => (.size (Fifo.pushAll src q).1, (Fifo.pushAll src q).2)
  | readChar => (.int (offered q.pop.1), q.pop.2)
  | read n => (.bytes (Fifo.popAll n.toNat q).1, (Fifo.popAll n.toNat q).2)
  | peekChar => (.int (offered q.items.head?), q)
  | peek n => (.bytes (Fifo.popAll n.toNat q).1, q)
  | remove n =>
    (.size (Fifo.popAll n.toNat q).2.items.length, (Fifo.popAll n.toNat q).2)
  | flush => (.void, q.clear)
  | resize n fresh =>
    (.size ((resized n.toNat fresh q).capacity + 1), resized n.toNat fresh q)
  | resizeAdd n fresh =>
    let size := (q.capacity + 1 + n.toNat) % 2 ^ 32
    (.size ((resized size fresh q).capacity + 1), resized size fresh q)

/-- `operator new` does not find a block of exactly the unread bytes. -/
def fits (size : ℕ) (fresh : Fresh) (q : Fifo Byte) : Prop :=
  fresh.isSome → (size + 1) % 2 ^ 32 ≠ q.items.length

instance (size : ℕ) (fresh : Fresh) (q : Fifo Byte) : Decidable (fits size fresh q) :=
  inferInstanceAs (Decidable (_ → _))

/-- A call that resizes does not get a block of exactly the unread bytes. -/
def ok (q : Fifo Byte) : CbufOp → Prop
  | resize n fresh => fits n.toNat fresh q
  | resizeAdd n fresh => fits ((q.capacity + 1 + n.toNat) % 2 ^ 32) fresh q
  | _ => True

instance (q : Fifo Byte) : ∀ op : CbufOp, Decidable (ok q op)
  | resize n fresh => inferInstanceAs (Decidable (fits n.toNat fresh q))
  | resizeAdd n fresh =>
    inferInstanceAs (Decidable (fits ((q.capacity + 1 + n.toNat) % 2 ^ 32) fresh q))
  | writeChar _ | write _ | readChar | read _ | peekChar | peek _ | remove _ | flush =>
    inferInstanceAs (Decidable True)

end CbufOp

namespace Cbuf

/-- The buffer holds the bytes that wait in the queue, and has its capacity. -/
structure Represents (q : Fifo Byte) (c : Cbuf) : Prop where
  holds : Holds q.items q.capacity c
  balance : c.available + c.room = c.size - 1

lemma Holds.represents {q : Fifo Byte} {c : Cbuf} (h : Holds q.items q.capacity c) :
    Represents q c where
  holds := h
  balance := by
    rw [h.available, h.room, h.size, Nat.add_sub_cancel]
    exact Nat.add_sub_cancel' h.length_le

lemma Holds.cast {l l' : List Byte} {n n' : ℕ} {c : Cbuf} (h : Holds l n c) (hl : l = l')
    (hn : n = n') : Holds l' n' c := by
  subst hl hn
  exact h

lemma Holds.resized {q : Fifo Byte} {c : Cbuf} (h : Holds q.items q.capacity c) {size : ℕ}
    (hword : size < 2 ^ 32) {fresh : Fresh} (hfits : CbufOp.fits size fresh q) :
    ∃ c', c.resize size fresh = some ((CbufOp.resized size fresh q).capacity + 1, c') ∧
      Holds (CbufOp.resized size fresh q).items (CbufOp.resized size fresh q).capacity c' := by
  obtain ⟨c', hresize, hholds⟩ := h.resize hword fresh hfits
  have hitems : (CbufOp.resized size fresh q).items = q.items := by
    unfold CbufOp.resized
    split
    · exact q.items_resize size
    · rfl
  have hcapacity : (CbufOp.resized size fresh q).capacity =
      if fresh.isSome ∧ size + 1 < 2 ^ 32 ∧ q.items.length ≤ size then size else q.capacity := by
    unfold CbufOp.resized
    split
    · rename_i hmemory
      rw [Fifo.capacity_resize]
      apply if_congr _ rfl rfl
      exact ⟨fun hlen => ⟨hmemory.1, hmemory.2, hlen⟩, fun hall => hall.2.2⟩
    · rename_i hmemory
      rw [if_neg fun hall => hmemory ⟨hall.1, hall.2.1⟩]
  rw [← hcapacity] at hholds
  refine ⟨c', ?_, hholds.cast hitems.symm rfl⟩
  rw [hresize, hholds.size]

/-- Every call does to the buffer what it does to the queue. -/
lemma Holds.step {q : Fifo Byte} {c : Cbuf} (h : Holds q.items q.capacity c) {op : CbufOp}
    (hok : op.ok q) : ∃ c', op.step c = some ((op.spec q).1, c') ∧
      Holds (op.spec q).2.items (op.spec q).2.capacity c' := by
  cases op with
  | writeChar ch =>
    obtain ⟨c', hwrite, hholds⟩ := h.writeChar ch
    refine ⟨c', ?_, hholds.cast (q.items_push ch).symm (q.capacity_push ch).symm⟩
    rw [CbufOp.step, hwrite, CbufOp.spec, Fifo.push_fst]
    simp only [Option.map_some, decide_eq_true_eq]
  | write src =>
    obtain ⟨c', hwrite, hholds⟩ := h.write src
    obtain ⟨hcount, hitems, hcapacity⟩ := q.pushAll_spec src
    refine ⟨c', ?_, hholds.cast hitems.symm hcapacity.symm⟩
    rw [CbufOp.step, hwrite, CbufOp.spec, hcount]
    rfl
  | readChar =>
    obtain ⟨c', hread, hholds⟩ := h.readChar
    refine ⟨c', ?_, hholds.cast (q.items_drop 1).symm rfl⟩
    rw [CbufOp.step, hread]
    rfl
  | read n =>
    obtain ⟨c', hread, hholds⟩ := h.read n.toNat
    obtain ⟨hbytes, hitems, hcapacity⟩ := q.popAll_spec n.toNat
    refine ⟨c', ?_, hholds.cast hitems.symm hcapacity.symm⟩
    rw [CbufOp.step, hread, CbufOp.spec, hbytes]
    rfl
  | peekChar =>
    refine ⟨c, ?_, h⟩
    rw [CbufOp.step, h.peekChar]
    rfl
  | peek n =>
    refine ⟨c, ?_, h⟩
    rw [CbufOp.step, h.peek, CbufOp.spec, (q.popAll_spec n.toNat).1]
    rfl
  | remove n =>
    obtain ⟨hcount, hholds⟩ := h.remove n.toNat
    obtain ⟨-, hitems, hcapacity⟩ := q.popAll_spec n.toNat
    refine ⟨_, ?_, hholds.cast hitems.symm hcapacity.symm⟩
    rw [CbufOp.step, CbufOp.spec, hcount, hitems]
  | flush => exact ⟨c.flush, rfl, h.flush.cast q.items_clear.symm rfl⟩
  | resize n fresh =>
    obtain ⟨c', hresize, hholds⟩ := h.resized n.isLt hok
    refine ⟨c', ?_, hholds⟩
    rw [CbufOp.step, hresize]
    rfl
  | resizeAdd n fresh =>
    obtain ⟨c', hresize, hholds⟩ := h.resized (Nat.mod_lt _ (by decide)) hok
    refine ⟨c', ?_, hholds⟩
    rw [CbufOp.step, Cbuf.resizeAdd, h.size, hresize]
    rfl

/-- A call that gets a block of exactly the unread bytes leaves `_end` outside. -/
lemma Holds.step_wrong {q : Fifo Byte} {c c' : Cbuf} (h : Holds q.items q.capacity c)
    {op : CbufOp} (hok : ¬op.ok q) {answer : CbufAnswer}
    (hstep : op.step c = some (answer, c')) : ¬c'.endAt < c'.bufend := by
  have hwrong : ∀ (size : ℕ) (fresh : Fresh), ¬CbufOp.fits size fresh q →
      ((c.resize size fresh).map fun r => (CbufAnswer.size r.1, r.2)) = some (answer, c') →
        ¬c'.endAt < c'.bufend := by
    intro size fresh hfits hresize
    obtain ⟨⟨n, c₁⟩, hr, heq⟩ := Option.map_eq_some_iff.mp hresize
    obtain ⟨-, rfl⟩ := Prod.mk.inj heq
    unfold CbufOp.fits at hfits
    push Not at hfits
    exact (h.endAt_resize hfits.1 hfits.2 hr).not_lt
  cases op with
  | resize n fresh => exact hwrong n.toNat fresh hok hstep
  | resizeAdd n fresh =>
    rw [CbufOp.step, Cbuf.resizeAdd, h.size] at hstep
    exact hwrong _ fresh hok hstep
  | writeChar _ | write _ | readChar | read _ | peekChar | peek _ | remove _ | flush =>
    exact absurd trivial hok

/-- The queue made by the constructor and a sequence of calls. -/
def queueAfter (size : Word) (ops : List CbufOp) : Fifo Byte :=
  Mealy.after CbufOp.spec (Fifo.new size.toNat) ops

/-- `cbuf` answers as a queue all along a sequence of calls, with its pointers inside of its block,
if and only if the constructor gets its block and no call gets a block of exactly the unread
bytes. -/
theorem cbuf_is_fifo_iff (size : Word) (fresh : Fresh) (ops : List CbufOp) :
    (∀ pre, pre <+: ops → ∃ c, Mealy.run CbufOp.step (new size fresh) pre =
        some (Mealy.answers CbufOp.spec (Fifo.new size.toNat) pre, c) ∧
      Represents (queueAfter size pre) c) ↔
      (fresh.isSome ∧ size.toNat + 1 < 2 ^ 32) ∧
        Mealy.Allowed CbufOp.spec CbufOp.ok (Fifo.new size.toNat) ops := by
  have hstep : ∀ (c : Cbuf) (q : Fifo Byte) (op : CbufOp), Represents q c → op.ok q →
      ∃ c', op.step c = some ((op.spec q).1, c') ∧ Represents (op.spec q).2 c' := by
    intro c q op h hok
    obtain ⟨c', hc', hholds⟩ := h.holds.step hok
    exact ⟨c', hc', hholds.represents⟩
  have hwrong : ∀ (c : Cbuf) (q : Fifo Byte) (op : CbufOp), Represents q c → ¬op.ok q →
      ∀ c', op.step c = some ((op.spec q).1, c') → ¬Represents (op.spec q).2 c' := by
    intro c q op h hok c' hc' h'
    exact h.holds.step_wrong hok hc' h'.holds.endAt
  constructor
  · intro hall
    have hnew : fresh.isSome ∧ size.toNat + 1 < 2 ^ 32 := by
      obtain ⟨c, hrun, h⟩ := hall [] List.nil_prefix
      obtain ⟨-, rfl⟩ := Prod.mk.inj (Option.some.inj hrun)
      have hsize : (size.toNat + 1) % 2 ^ 32 = size.toNat + 1 := h.holds.size
      have hlt := h.holds.size_lt
      refine ⟨?_, by omega⟩
      cases fresh with
      | none => exact absurd h.holds.buf (by simp [new, Fresh.block])
      | some raw => rfl
    refine ⟨hnew, (Mealy.refines_iff hstep hwrong ?_).mp hall⟩
    exact (holds_new hnew.1 hnew.2).represents (q := Fifo.new size.toNat)
  · rintro ⟨hnew, hallowed⟩
    apply (Mealy.refines_iff hstep hwrong _).mpr hallowed
    exact (holds_new hnew.1 hnew.2).represents (q := Fifo.new size.toNat)

/-- Three bytes are moved to a block of three, and another one is written. -/
def tightResize : List CbufOp :=
  [.write [1, 2, 3], .resize 2 (some fun _ => 0), .writeChar 4]

/-- There the fourth byte is written behind the block. -/
theorem byte_behind_block :
    Mealy.run CbufOp.step (new 4 (some fun _ => 0)) tightResize = none ∧
    ¬∀ pre, pre <+: tightResize → ∃ c,
      Mealy.run CbufOp.step (new 4 (some fun _ => 0)) pre =
        some (Mealy.answers CbufOp.spec (Fifo.new 4) pre, c) ∧ Represents (queueAfter 4 pre) c := by
  have hrun : Mealy.run CbufOp.step (new 4 (some fun _ => 0)) tightResize = none := by
    decide +kernel
  refine ⟨hrun, ?_⟩
  intro hall
  obtain ⟨c, hc, -⟩ := hall _ (List.prefix_refl _)
  rw [hrun] at hc
  cases hc

end Cbuf

end FrameworkXC32
