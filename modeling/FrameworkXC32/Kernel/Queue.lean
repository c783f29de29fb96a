import FrameworkXC32.Lib.Circular
import FrameworkXC32.Lib.Word

/-!
# The kernel's queues

`prvCopyDataToQueue` and `prvCopyDataFromQueue` of `queue.c`: items are copied into a ring of bytes
and out of it. Pointers into the ring are offsets from `pcHead`. A semaphore is a queue whose items
have no bytes; a mutex, which has no ring, is not one of these.
-/

namespace FrameworkXC32
open Machine Circular

/-- What a queue copies in and out. -/
abbrev QueueItem (uxItemSize : ℕ) := Fin uxItemSize → Byte

inductive CopyPosition
  | sendToBack | sendToFront | overwrite
deriving DecidableEq, Repr

structure Queue (uxItemSize : ℕ) where
  storage : ℕ → Byte
  pcWriteTo : ℕ
  pcTail : ℕ
  pcReadFrom : ℕ
  uxMessagesWaiting : ℕ
  uxLength : ℕ

namespace Queue

variable {uxItemSize : ℕ}

/-- The item whose bytes start at `p`. -/
def itemAt (storage : ℕ → Byte) (p : ℕ) : QueueItem uxItemSize := fun i => storage (p + i)

/-- `memcpy` of an item to `p`. -/
def putItem (storage : ℕ → Byte) (p : ℕ) (item : QueueItem uxItemSize) : ℕ → Byte := fun a =>
  if h : p ≤ a ∧ a - p < uxItemSize then item ⟨a - p, h.2⟩ else storage a

/-- `prvInitialiseNewQueue`, with what is found in its memory. -/
def create (uxItemSize uxLength : ℕ) (storage : ℕ → Byte) : Queue uxItemSize where
  storage := storage
  pcWriteTo := 0
  pcTail := uxLength * uxItemSize
  pcReadFrom := (uxLength - 1) * uxItemSize
  uxMessagesWaiting := 0
  uxLength := uxLength

def prvCopyDataToQueue (q : Queue uxItemSize) (item : QueueItem uxItemSize) (pos : CopyPosition) :
    Queue uxItemSize :=
  if uxItemSize = 0 then { q with uxMessagesWaiting := q.uxMessagesWaiting + 1 }
  else match pos with
    | .sendToBack =>
      { q with
        storage := putItem q.storage q.pcWriteTo item
        pcWriteTo :=
          if q.pcTail ≤ q.pcWriteTo + uxItemSize then 0 else q.pcWriteTo + uxItemSize
        uxMessagesWaiting := q.uxMessagesWaiting + 1 }
    | pos =>
      { q with
        storage := putItem q.storage q.pcReadFrom item
        -- `pcReadFrom - uxItemSize` is in front of `pcHead`
        pcReadFrom :=
          if q.pcReadFrom < uxItemSize then q.pcTail - uxItemSize else q.pcReadFrom - uxItemSize
        uxMessagesWaiting :=
          if pos = .overwrite then q.uxMessagesWaiting - 1 + 1 else q.uxMessagesWaiting + 1 }

/-- The item, and the queue with its read pointer moved on. -/
def prvCopyDataFromQueue (q : Queue uxItemSize) : QueueItem uxItemSize × Queue uxItemSize :=
  let read :=
    if uxItemSize = 0 then q.pcReadFrom
    else if q.pcTail ≤ q.pcReadFrom + uxItemSize then 0
    else q.pcReadFrom + uxItemSize
  (itemAt q.storage read, { q with pcReadFrom := read })

/-- `prvCopyDataFromQueue`, and one message less. -/
def takeItem (q : Queue uxItemSize) : QueueItem uxItemSize × Queue uxItemSize :=
  let (item, q) := q.prvCopyDataFromQueue
  (item, { q with uxMessagesWaiting := q.uxMessagesWaiting - 1 })

def prvIsQueueEmpty (q : Queue uxItemSize) : Bool := q.uxMessagesWaiting = 0

def prvIsQueueFull (q : Queue uxItemSize) : Bool := q.uxMessagesWaiting = q.uxLength

/-! ## The ring -/

/-- The places of the items. -/
def slots (q : Queue uxItemSize) : ℕ → QueueItem uxItemSize := fun k =>
  itemAt q.storage (k * uxItemSize)

/-- The items of the queue, the one that is received next first. -/
def contents (q : Queue uxItemSize) : List (QueueItem uxItemSize) :=
  span q.slots q.uxLength (q.pcReadFrom / uxItemSize + 1) q.uxMessagesWaiting

/-- The read pointer is at the place `r`, and the write pointer behind the last item. -/
structure RingAt (q : Queue uxItemSize) (r : ℕ) : Prop where
  tail : q.pcTail = q.uxLength * uxItemSize
  lt : r < q.uxLength
  read : q.pcReadFrom = r * uxItemSize
  write : q.pcWriteTo = (r + 1 + q.uxMessagesWaiting) % q.uxLength * uxItemSize
  fits : q.uxMessagesWaiting ≤ q.uxLength

/-- The pointers of a queue in good order. -/
def Ring (q : Queue uxItemSize) : Prop := ∃ r, q.RingAt r

variable {q : Queue uxItemSize} {r : ℕ}

@[simp] lemma length_contents (q : Queue uxItemSize) : q.contents.length = q.uxMessagesWaiting :=
  length_span _ _ _ _

lemma eq_of_length {items items' : List (QueueItem uxItemSize)} (hs : uxItemSize = 0)
    (h : items.length = items'.length) : items = items' := by
  subst hs
  apply List.ext_getElem h
  intro i _ _
  exact Subsingleton.elim _ _

lemma RingAt.contents_eq (h : q.RingAt r) :
    q.contents = span q.slots q.uxLength (r + 1) q.uxMessagesWaiting := by
  by_cases hs : uxItemSize = 0
  · apply eq_of_length hs
    rw [length_contents, length_span]
  · rw [contents, h.read, Nat.mul_div_cancel _ (Nat.pos_of_ne_zero hs)]

@[simp] lemma uxLength_copyDataToQueue (q : Queue uxItemSize) (item : QueueItem uxItemSize)
    (pos : CopyPosition) : (q.prvCopyDataToQueue item pos).uxLength = q.uxLength := by
  unfold prvCopyDataToQueue
  split
  · rfl
  · cases pos <;> rfl

lemma create_ring (uxItemSize : ℕ) {uxLength : ℕ} (h : 0 < uxLength) (storage : ℕ → Byte) :
    (create uxItemSize uxLength storage).Ring := by
  refine ⟨uxLength - 1, rfl, ?_, rfl, ?_, Nat.zero_le _⟩
  · change uxLength - 1 < uxLength
    omega
  · change 0 = (uxLength - 1 + 1 + 0) % uxLength * uxItemSize
    rw [Nat.add_zero, Nat.sub_add_cancel h, Nat.mod_self, Nat.zero_mul]

@[simp] lemma contents_create (uxItemSize uxLength : ℕ) (storage : ℕ → Byte) :
    (create uxItemSize uxLength storage).contents = [] := rfl

lemma slots_putItem (storage : ℕ → Byte) (k : ℕ) (item : QueueItem uxItemSize) :
    (fun j => itemAt (putItem storage (k * uxItemSize) item) (j * uxItemSize)) =
      Function.update (fun j => itemAt storage (j * uxItemSize)) k item := by
  funext j i
  have hi := i.isLt
  unfold itemAt putItem
  by_cases hj : j = k
  · subst hj
    rw [Function.update_self, dif_pos ⟨Nat.le_add_right _ _, by omega⟩]
    congr 1
    apply Fin.ext
    exact Nat.add_sub_cancel_left _ _
  · rw [Function.update_of_ne hj, dif_neg]
    rintro ⟨hle, hlt⟩
    rcases Nat.lt_or_gt_of_ne hj with hless | hmore
    · have hnext : (j + 1) * uxItemSize ≤ k * uxItemSize := Nat.mul_le_mul_right _ hless
      rw [Nat.add_mul, Nat.one_mul] at hnext
      omega
    · have hnext : (k + 1) * uxItemSize ≤ j * uxItemSize := Nat.mul_le_mul_right _ hmore
      rw [Nat.add_mul, Nat.one_mul] at hnext
      omega

lemma advance_eq {size : ℕ} {k length : ℕ} (hs : 0 < size) (hk : k < length) :
    (if length * size ≤ k * size + size then 0 else k * size + size) =
      (k + 1) % length * size := by
  have hnext : k * size + size = (k + 1) * size := (Nat.succ_mul k size).symm
  rw [hnext]
  by_cases hend : k + 1 = length
  · rw [hend, Nat.mod_self, if_pos le_rfl, Nat.zero_mul]
  · have hlt : (k + 1) * size < length * size := Nat.mul_lt_mul_of_pos_right (by omega) hs
    rw [if_neg (by omega), Nat.mod_eq_of_lt (by omega)]

end Queue

/-- What a send makes of the items. -/
def CopyPosition.enter {α : Type} (item : α) (items : List α) : CopyPosition → List α
  | sendToBack => items ++ [item]
  | sendToFront => item :: items
  | overwrite => item :: items.tail

namespace Queue

variable {uxItemSize : ℕ} {q : Queue uxItemSize} {r : ℕ}

lemma RingAt.sendToBack (h : q.RingAt r) (hs : 0 < uxItemSize)
    (hroom : q.uxMessagesWaiting < q.uxLength) (item : QueueItem uxItemSize) :
    (q.prvCopyDataToQueue item .sendToBack).RingAt r ∧
      (q.prvCopyDataToQueue item .sendToBack).contents = q.contents ++ [item] := by
  have hwrite : (r + 1 + q.uxMessagesWaiting) % q.uxLength < q.uxLength :=
    Nat.mod_lt _ (by omega)
  have hcopy : q.prvCopyDataToQueue item .sendToBack =
      { q with
        storage := putItem q.storage q.pcWriteTo item
        pcWriteTo := (r + 1 + (q.uxMessagesWaiting + 1)) % q.uxLength * uxItemSize
        uxMessagesWaiting := q.uxMessagesWaiting + 1 } := by
    unfold prvCopyDataToQueue
    rw [if_neg hs.ne', h.tail, h.write, advance_eq hs hwrite, Nat.mod_add_mod]
    rfl
  have hring : (q.prvCopyDataToQueue item .sendToBack).RingAt r := by
    rw [hcopy]
    exact ⟨h.tail, h.lt, h.read, rfl, hroom⟩
  refine ⟨hring, ?_⟩
  rw [hring.contents_eq, h.contents_eq, hcopy, h.write]
  change span (fun k => itemAt (putItem q.storage _ item) (k * uxItemSize)) q.uxLength (r + 1)
    (q.uxMessagesWaiting + 1) = _
  rw [slots_putItem, span_update_end _ _ hroom]
  rfl

lemma retreat_eq {size : ℕ} {k length : ℕ} (hs : 0 < size) (hk : k < length) :
    (if k * size < size then length * size - size else k * size - size) =
      (k + length - 1) % length * size := by
  cases k with
  | zero =>
    rw [Nat.zero_mul, if_pos hs, Nat.zero_add, Nat.mod_eq_of_lt (by omega), Nat.sub_mul,
      Nat.one_mul]
  | succ k =>
    have hmod : (k + 1 + length - 1) % length = k := by
      rw [Nat.add_right_comm, Nat.add_sub_cancel, Nat.add_mod_right, Nat.mod_eq_of_lt (by omega)]
    rw [hmod, Nat.succ_mul, if_neg (by omega), Nat.add_sub_cancel]

lemma retreat_next {length : ℕ} (hr : r < length) :
    ((r + length - 1) % length + 1) % length = r := by
  rw [Nat.mod_add_mod, Nat.sub_add_cancel (by omega), Nat.add_mod_right, Nat.mod_eq_of_lt hr]

lemma span_retreat {α : Type} (mem : ℕ → α) {length n : ℕ} (hr : r < length) (hn : n < length)
    (item : α) :
    span (Function.update mem r item) length ((r + length - 1) % length + 1) (n + 1) =
      item :: span mem length (r + 1) n := by
  have hstart : ((r + length - 1) % length + 1) % length = r % length := by
    rw [retreat_next hr, Nat.mod_eq_of_lt hr]
  have hfront := span_update_front mem r hn item
  rw [Nat.mod_eq_of_lt hr] at hfront
  rw [span_congr hstart, hfront]

/-- The queue behind a send to the front, or one that overwrites. -/
def sentToFront (q : Queue uxItemSize) (r n : ℕ) (item : QueueItem uxItemSize) :
    Queue uxItemSize :=
  { q with
    storage := putItem q.storage (r * uxItemSize) item
    pcReadFrom := (r + q.uxLength - 1) % q.uxLength * uxItemSize
    uxMessagesWaiting := n + 1 }

lemma RingAt.contents_sentToFront (h : q.RingAt r) {n : ℕ} (hn : n < q.uxLength)
    (item : QueueItem uxItemSize)
    (hring : (q.sentToFront r n item).RingAt ((r + q.uxLength - 1) % q.uxLength)) :
    (q.sentToFront r n item).contents = item :: span q.slots q.uxLength (r + 1) n := by
  rw [hring.contents_eq]
  change span (fun k => itemAt (putItem q.storage _ item) (k * uxItemSize)) q.uxLength
    _ (n + 1) = _
  rw [slots_putItem, span_retreat _ h.lt hn]
  rfl

lemma RingAt.sendToFront (h : q.RingAt r) (hs : 0 < uxItemSize)
    (hroom : q.uxMessagesWaiting < q.uxLength) (item : QueueItem uxItemSize) :
    (q.prvCopyDataToQueue item .sendToFront).Ring ∧
      (q.prvCopyDataToQueue item .sendToFront).contents = item :: q.contents := by
  have hcopy : q.prvCopyDataToQueue item .sendToFront =
      q.sentToFront r q.uxMessagesWaiting item := by
    unfold prvCopyDataToQueue sentToFront
    have hpos : CopyPosition.sendToFront ≠ .overwrite := by decide
    rw [if_neg hs.ne']
    dsimp only
    rw [if_neg hpos, h.read, h.tail, retreat_eq hs h.lt]
  have hring : (q.sentToFront r q.uxMessagesWaiting item).RingAt
      ((r + q.uxLength - 1) % q.uxLength) := by
    refine ⟨h.tail, Nat.mod_lt _ (by omega), rfl, ?_, hroom⟩
    change q.pcWriteTo = ((r + q.uxLength - 1) % q.uxLength + 1 + (q.uxMessagesWaiting + 1)) %
      q.uxLength * uxItemSize
    rw [h.write, ← Nat.mod_add_mod ((r + q.uxLength - 1) % q.uxLength + 1), retreat_next h.lt,
      Nat.add_assoc, Nat.add_comm 1]
  rw [hcopy, h.contents_eq]
  exact ⟨⟨_, hring⟩, h.contents_sentToFront hroom item hring⟩

lemma RingAt.overwrite (h : q.RingAt r) (hs : 0 < uxItemSize) (hone : q.uxLength = 1)
    (item : QueueItem uxItemSize) :
    (q.prvCopyDataToQueue item .overwrite).Ring ∧
      (q.prvCopyDataToQueue item .overwrite).contents = item :: q.contents.tail := by
  have hfits := h.fits
  have hnone : q.uxMessagesWaiting - 1 = 0 := by omega
  have hcopy : q.prvCopyDataToQueue item .overwrite = q.sentToFront r 0 item := by
    unfold prvCopyDataToQueue sentToFront
    rw [if_neg hs.ne']
    dsimp only
    rw [if_pos rfl, h.read, h.tail, retreat_eq hs h.lt, hnone]
  have hring : (q.sentToFront r 0 item).RingAt ((r + q.uxLength - 1) % q.uxLength) := by
    refine ⟨h.tail, Nat.mod_lt _ (by omega), rfl, ?_, (by omega : 0 + 1 ≤ q.uxLength)⟩
    change q.pcWriteTo = _ % q.uxLength * uxItemSize
    rw [h.write, hone, Nat.mod_one, Nat.mod_one]
  have htail : q.contents.tail = [] := by
    apply List.eq_nil_of_length_eq_zero
    rw [List.length_tail, length_contents, hnone]
  rw [hcopy, htail]
  exact ⟨⟨_, hring⟩, h.contents_sentToFront (by omega) item hring⟩

/-- What the callers have made sure of: there is room, or the only item is overwritten. -/
structure Accepts (q : Queue uxItemSize) (pos : CopyPosition) : Prop where
  room : q.uxMessagesWaiting < q.uxLength ∨ pos = .overwrite
  one : pos = .overwrite → q.uxLength = 1 ∧ 0 < uxItemSize

lemma length_enter {α : Type} (item : α) (items : List α) {pos : CopyPosition}
    (h : pos ≠ .overwrite) : (pos.enter item items).length = items.length + 1 := by
  cases pos with
  | sendToBack => exact List.length_append
  | sendToFront => rfl
  | overwrite => exact absurd rfl h

/-- Copying an item in keeps the ring, and enters the item at its end of the queue. -/
theorem contents_copyDataToQueue (h : q.Ring) {pos : CopyPosition} (hpos : q.Accepts pos)
    (item : QueueItem uxItemSize) : (q.prvCopyDataToQueue item pos).Ring ∧
      (q.prvCopyDataToQueue item pos).contents = pos.enter item q.contents := by
  obtain ⟨r, hr⟩ := h
  rcases Nat.eq_zero_or_pos uxItemSize with hs | hs
  · have hne : pos ≠ .overwrite := fun hover => absurd (hpos.one hover).2 (by omega)
    have hroom : q.uxMessagesWaiting < q.uxLength := hpos.room.resolve_right hne
    have hcopy : q.prvCopyDataToQueue item pos =
        { q with uxMessagesWaiting := q.uxMessagesWaiting + 1 } := if_pos hs
    rw [hcopy]
    refine ⟨⟨r, hr.tail, hr.lt, hr.read, ?_, hroom⟩, ?_⟩
    · have hzero : ∀ k, k * uxItemSize = 0 := fun k => by rw [hs, Nat.mul_zero]
      change q.pcWriteTo = _ * uxItemSize
      rw [hr.write, hzero, hzero]
    · apply eq_of_length hs
      rw [length_enter _ _ hne, length_contents, length_contents]
  · cases pos with
    | sendToBack =>
      obtain ⟨hring, hcontents⟩ := hr.sendToBack hs (hpos.room.resolve_right (by decide)) item
      exact ⟨⟨r, hring⟩, hcontents⟩
    | sendToFront => exact hr.sendToFront hs (hpos.room.resolve_right (by decide)) item
    | overwrite => exact hr.overwrite hs (hpos.one rfl).1 item

lemma RingAt.copyDataFromQueue (h : q.RingAt r) :
    q.prvCopyDataFromQueue =
      (q.slots ((r + 1) % q.uxLength), { q with
        pcReadFrom := (r + 1) % q.uxLength * uxItemSize }) := by
  unfold prvCopyDataFromQueue slots
  rcases Nat.eq_zero_or_pos uxItemSize with hs | hs
  · have hzero : ∀ k, k * uxItemSize = 0 := fun k => by rw [hs, Nat.mul_zero]
    dsimp only
    rw [if_pos hs, h.read, hzero, hzero]
  · dsimp only
    rw [if_neg hs.ne', h.read, h.tail, advance_eq hs h.lt]

/-- Taking an item out keeps the ring, and gives the first one. -/
theorem contents_takeItem (h : q.Ring) {item : QueueItem uxItemSize}
    {items : List (QueueItem uxItemSize)} (hcontents : q.contents = item :: items) :
    q.takeItem.1 = item ∧ q.takeItem.2.Ring ∧ q.takeItem.2.contents = items := by
  obtain ⟨r, hr⟩ := h
  obtain ⟨n, hn⟩ : ∃ n, q.uxMessagesWaiting = n + 1 := by
    have hlength := q.length_contents
    rw [hcontents, List.length_cons] at hlength
    exact ⟨_, hlength.symm⟩
  have hfits := hr.fits
  have htake : q.takeItem = (q.slots ((r + 1) % q.uxLength),
      { q with
        pcReadFrom := (r + 1) % q.uxLength * uxItemSize
        uxMessagesWaiting := n }) := by
    unfold takeItem
    rw [hr.copyDataFromQueue]
    dsimp only
    rw [hn, Nat.add_sub_cancel]
  have hring : q.takeItem.2.RingAt ((r + 1) % q.uxLength) := by
    rw [htake]
    refine ⟨hr.tail, Nat.mod_lt _ (by omega), rfl, ?_, (by omega : n ≤ q.uxLength)⟩
    change q.pcWriteTo = ((r + 1) % q.uxLength + 1 + n) % q.uxLength * uxItemSize
    rw [hr.write, hn, Nat.add_assoc _ 1 n, Nat.mod_add_mod, Nat.add_comm 1 n]
  rw [hr.contents_eq, hn, span_succ] at hcontents
  obtain ⟨hitem, hitems⟩ := List.cons.inj hcontents
  refine ⟨?_, ⟨_, hring⟩, ?_⟩
  · rw [htake, ← hitem]
  · rw [hring.contents_eq, htake, ← hitems]
    change span q.slots q.uxLength ((r + 1) % q.uxLength + 1) n = _
    apply span_congr
    rw [Nat.mod_add_mod]

end Queue

end FrameworkXC32
