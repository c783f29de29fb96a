import FrameworkXC32.Lib.Circular
import FrameworkXC32.Lib.Word

/-!
# `RingBufferN`

The ring buffer of `RingBuffer.h`. Its indices are below `N` by their type.
-/

namespace FrameworkXC32
open Machine Circular

structure RingBufferN (N : ℕ) where
  aucBuffer : Fin N → Byte
  iHead : Fin N
  iTail : Fin N

/-- `SERIAL_BUFFER_SIZE` is 256. -/
abbrev RingBuffer := RingBufferN 256

namespace RingBufferN

variable {N : ℕ}

def nextIndex (index : Fin N) : Fin N := next index

def storeChar (c : Byte) (r : RingBufferN N) : RingBufferN N :=
  let i := nextIndex r.iHead
  if i ≠ r.iTail then
    { r with aucBuffer := Function.update r.aucBuffer r.iHead c, iHead := i }
  else r

def clear (r : RingBufferN N) : RingBufferN N :=
  { r with iHead := ⟨0, Fin.pos r.iHead⟩, iTail := ⟨0, Fin.pos r.iHead⟩ }

/-- The constructor. -/
def new (N : ℕ) [NeZero N] : RingBufferN N where
  aucBuffer := fun _ => 0
  iHead := 0
  iTail := 0

def readChar (r : RingBufferN N) : ℤ × RingBufferN N :=
  if r.iTail = r.iHead then (-1, r)
  else ((r.aucBuffer r.iTail).toNat, { r with iTail := nextIndex r.iTail })

def available (r : RingBufferN N) : ℤ :=
  let delta : ℤ := r.iHead.val - r.iTail.val
  if delta < 0 then N + delta else delta

def availableForStore (r : RingBufferN N) : ℤ :=
  if r.iHead ≥ r.iTail then N - 1 - r.iHead.val + r.iTail.val
  else r.iTail.val - r.iHead.val - 1

def peek (r : RingBufferN N) : ℤ :=
  if r.iTail = r.iHead then -1 else (r.aucBuffer r.iTail).toNat

def isFull (r : RingBufferN N) : Bool := nextIndex r.iHead = r.iTail

/-! ### The queue that a ring buffer holds -/

/-- The stored bytes, oldest first. -/
def contents (r : RingBufferN N) : List Byte :=
  window r.aucBuffer r.iTail (gap r.iTail r.iHead)

lemma length_contents (r : RingBufferN N) : r.contents.length = gap r.iTail r.iHead :=
  length_window _ _ _

lemma length_contents_lt (r : RingBufferN N) : r.contents.length < N := by
  rw [length_contents]
  exact gap_lt _ _

lemma available_eq (r : RingBufferN N) : r.available = r.contents.length := by
  have hhead := r.iHead.isLt
  have htail := r.iTail.isLt
  rw [length_contents]
  unfold available gap
  dsimp only
  split <;> split <;> omega

lemma available_pos_iff (r : RingBufferN N) : r.available > 0 ↔ r.contents ≠ [] := by
  rw [available_eq, ← List.length_pos_iff]
  omega

lemma toNat_available (r : RingBufferN N) : r.available.toNat = r.contents.length := by
  rw [available_eq, Int.toNat_natCast]

lemma availableForStore_eq (r : RingBufferN N) :
    r.availableForStore = N - 1 - r.contents.length := by
  have hhead := r.iHead.isLt
  have htail := r.iTail.isLt
  rw [length_contents]
  unfold availableForStore gap
  simp only [ge_iff_le, Fin.le_def]
  split <;> omega

lemma isFull_iff (r : RingBufferN N) : r.isFull = true ↔ r.contents.length + 1 = N := by
  rw [length_contents, isFull, decide_eq_true_iff]
  exact next_head_eq_tail_iff _ _

@[simp] lemma contents_clear (r : RingBufferN N) : r.clear.contents = [] := by
  have hzero : gap r.clear.iTail r.clear.iHead = 0 := gap_eq_zero.mpr rfl
  unfold contents
  rw [hzero]
  rfl

lemma contents_storeChar (c : Byte) (r : RingBufferN N) : (r.storeChar c).contents =
    if r.contents.length + 1 < N then r.contents ++ [c] else r.contents := by
  have hlt := r.length_contents_lt
  have hfull := next_head_eq_tail_iff r.iTail r.iHead
  rw [← length_contents] at hfull
  unfold storeChar
  dsimp only [nextIndex]
  by_cases h : next r.iHead = r.iTail
  · rw [if_neg (not_not.mpr h), if_neg (by rw [hfull] at h; omega)]
  · rw [if_pos h, if_pos (by rw [hfull] at h; omega)]
    unfold contents
    dsimp only
    rw [gap_next_head h]
    exact window_push _ _ _ _

lemma readChar_cons {r : RingBufferN N} {c : Byte} {l : List Byte} (h : r.contents = c :: l) :
    (r.readChar).1 = c.toNat ∧ (r.readChar).2.contents = l := by
  have hne : r.iTail ≠ r.iHead := by
    intro he
    have hlen := congrArg List.length h
    rw [length_contents, gap_eq_zero.mpr he] at hlen
    simp at hlen
  unfold contents at h
  rw [window_pop _ hne] at h
  obtain ⟨hc, hl⟩ := List.cons.inj h
  unfold readChar
  rw [if_neg hne]
  refine ⟨by rw [hc], hl⟩

lemma readChar_nil {r : RingBufferN N} (h : r.contents = []) : r.readChar = (-1, r) := by
  have he : r.iTail = r.iHead := by
    rw [← gap_eq_zero, ← length_contents, h]
    rfl
  unfold readChar
  rw [if_pos he]

end RingBufferN

end FrameworkXC32
