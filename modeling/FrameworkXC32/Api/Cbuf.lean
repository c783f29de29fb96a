import FrameworkXC32.Api.Heap
import FrameworkXC32.Lib.Circular

/-!
# `cbuf`

The circular buffer of `cbuf.h`. Its pointers are offsets from `_buf`; an access that leaves the
block behind `_buf` is refused, so that an operation that makes one is `none`.
-/

namespace FrameworkXC32
open Machine Circular

structure Cbuf where
  size : ℕ
  /-- The block behind `_buf`, if that is not the null pointer. -/
  buf : Option (List Byte)
  bufend : ℕ
  beginAt : ℕ
  endAt : ℕ
deriving DecidableEq, Repr

namespace Cbuf

/-- The constructor. -/
def new (size : Word) (fresh : Fresh) : Cbuf where
  size := (size.toNat + 1) % 2 ^ 32
  buf := fresh.block ((size.toNat + 1) % 2 ^ 32)
  bufend := (size.toNat + 1) % 2 ^ 32
  beginAt := 0
  endAt := 0

def block (c : Cbuf) : List Byte := c.buf.getD []

def empty (c : Cbuf) : Bool := c.beginAt = c.endAt

def wrapIfBufend (c : Cbuf) (p : ℕ) : ℕ := if p = c.bufend then 0 else p

def full (c : Cbuf) : Bool := c.wrapIfBufend (c.endAt + 1) = c.beginAt

def available (c : Cbuf) : ℕ :=
  if c.endAt ≥ c.beginAt then sizeSub c.endAt c.beginAt
  else sizeSub c.size (sizeSub c.beginAt c.endAt)

def room (c : Cbuf) : ℕ :=
  if c.endAt ≥ c.beginAt then sizeSub (sizeSub c.size (sizeSub c.endAt c.beginAt)) 1
  else sizeSub (sizeSub c.beginAt c.endAt) 1

/-- `peek()`; `char` is signed. -/
def peekChar (c : Cbuf) : Option ℤ :=
  if c.empty then some (-1)
  else (Block.load c.block c.beginAt).map BitVec.toInt

/-- `read()` -/
def readChar (c : Cbuf) : Option (ℤ × Cbuf) :=
  if c.empty then some (-1, c)
  else (Block.load c.block c.beginAt).map fun result =>
    (result.toInt, { c with beginAt := c.wrapIfBufend (c.beginAt + 1) })

/-- `peek(dst, size)`: what is copied to `dst`. -/
def peek (size : ℕ) (c : Cbuf) : Option (List Byte) :=
  let bytesAvailable := c.available
  let sizeToRead := if size < bytesAvailable then size else bytesAvailable
  if c.endAt < c.beginAt ∧ sizeToRead > sizeSub c.bufend c.beginAt then
    let topSize := sizeSub c.bufend c.beginAt
    (Block.copyOut c.block c.beginAt topSize).bind fun top =>
      (Block.copyOut c.block 0 (sizeToRead - topSize)).map fun rest => top ++ rest
  else Block.copyOut c.block c.beginAt sizeToRead

/-- The last lines of `read(dst, size)`: one `memcpy` and the step of `_begin`. -/
def readPiece (sizeToRead : ℕ) (c : Cbuf) : Option (List Byte × Cbuf) :=
  (Block.copyOut c.block c.beginAt sizeToRead).map fun l =>
    (l, { c with beginAt := c.wrapIfBufend (c.beginAt + sizeToRead) })

/-- `read(dst, size)`: what is copied to `dst`. -/
def read (size : ℕ) (c : Cbuf) : Option (List Byte × Cbuf) :=
  let bytesAvailable := c.available
  let sizeToRead := if size < bytesAvailable then size else bytesAvailable
  if c.endAt < c.beginAt ∧ sizeToRead > sizeSub c.bufend c.beginAt then
    let topSize := sizeSub c.bufend c.beginAt
    (Block.copyOut c.block c.beginAt topSize).bind fun top =>
      (readPiece (sizeToRead - topSize) { c with beginAt := 0 }).map fun r => (top ++ r.1, r.2)
  else readPiece sizeToRead c

/-- `write(c)` -/
def writeChar (ch : Byte) (c : Cbuf) : Option (ℕ × Cbuf) :=
  if c.full then some (0, c)
  else (Block.store c.block c.endAt ch).map fun block =>
    (1, { c with buf := some block, endAt := c.wrapIfBufend (c.endAt + 1) })

/-- The last lines of `write(src, size)`: one `memcpy` and the step of `_end`. -/
def writePiece (src : List Byte) (c : Cbuf) : Option Cbuf :=
  (Block.copyIn c.block c.endAt src).map fun block =>
    { c with buf := some block, endAt := c.wrapIfBufend (c.endAt + src.length) }

/-- `write(src, size)`, where `size` is the length of `src`. -/
def write (src : List Byte) (c : Cbuf) : Option (ℕ × Cbuf) :=
  let bytesAvailable := c.room
  let sizeToWrite := if src.length < bytesAvailable then src.length else bytesAvailable
  if c.endAt ≥ c.beginAt ∧ sizeToWrite > sizeSub c.bufend c.endAt then
    let topSize := sizeSub c.bufend c.endAt
    (Block.copyIn c.block c.endAt (src.take topSize)).bind fun block =>
      (writePiece ((src.drop topSize).take (sizeToWrite - topSize))
        { c with buf := some block, endAt := 0 }).map fun c => (sizeToWrite, c)
  else (writePiece (src.take sizeToWrite) c).map fun c => (sizeToWrite, c)

def flush (c : Cbuf) : Cbuf := { c with beginAt := 0, endAt := 0 }

def remove (size : ℕ) (c : Cbuf) : ℕ × Cbuf :=
  let bytesAvailable := c.available
  if size ≥ bytesAvailable then (0, c.flush)
  else
    let sizeToRemove := if size < bytesAvailable then size else bytesAvailable
    let topSize := sizeSub c.bufend c.beginAt
    let c :=
      if c.endAt < c.beginAt ∧ sizeToRemove > topSize then
        { c with beginAt := c.wrapIfBufend (0 + (sizeToRemove - topSize)) }
      else { c with beginAt := c.wrapIfBufend (c.beginAt + sizeToRemove) }
    (c.available, c)

/-- What `resize` leaves in the new block: the unread bytes and zeros behind them, or what was in
it where there is no old block. -/
def relocate (bytesAvailable newSize : ℕ) (newbuf : List Byte) (c : Cbuf) : Option (List Byte) :=
  match c.buf with
  | none => some newbuf
  | some _ =>
    (c.read bytesAvailable).bind fun r =>
      (Block.copyIn newbuf 0 r.1).bind fun newbuf =>
        Block.copyIn newbuf bytesAvailable
          (List.replicate (sizeSub newSize bytesAvailable) 0)

def resize (newSize : ℕ) (fresh : Fresh) (c : Cbuf) : Option (ℕ × Cbuf) :=
  let bytesAvailable := c.available
  let newSize := (newSize + 1) % 2 ^ 32
  if newSize < bytesAvailable ∨ newSize = c.size then some (c.size, c)
  else
    match fresh.block newSize with
    | none => some (c.size, c)
    | some newbuf =>
      (c.relocate bytesAvailable newSize newbuf).map fun newbuf =>
        (newSize, {
          size := newSize
          buf := some newbuf
          bufend := newSize
          beginAt := 0
          endAt := bytesAvailable })

def resizeAdd (addSize : ℕ) (fresh : Fresh) (c : Cbuf) : Option (ℕ × Cbuf) :=
  c.resize ((c.size + addSize) % 2 ^ 32) fresh

/-! ### The bytes that a buffer holds -/

/-- The buffer holds some unread bytes, oldest first, and at most `capacity` of them. One byte of
its block stays free, and the pointers stay inside of the block. -/
structure Holds (unread : List Byte) (capacity : ℕ) (c : Cbuf) : Prop where
  size : c.size = capacity + 1
  size_lt : c.size < 2 ^ 32
  bufend : c.bufend = c.size
  buf : c.buf = some c.block
  block : c.block.length = c.size
  beginAt : c.beginAt < c.bufend
  endAt : c.endAt < c.bufend
  count : unread.length = if c.endAt ≥ c.beginAt then c.endAt - c.beginAt
    else c.size - (c.beginAt - c.endAt)
  bytes : arc c.block c.beginAt unread.length = unread

section Holds

variable {unread : List Byte} {capacity : ℕ} {c : Cbuf}

lemma Holds.available (h : Holds unread capacity c) : c.available = unread.length := by
  have hlt := h.size_lt
  have hend := h.endAt
  have hbegin := h.beginAt
  rw [h.bufend] at hend hbegin
  rw [h.count]
  unfold Cbuf.available
  split
  · exact sizeSub_eq (by omega) (by omega)
  · rw [sizeSub_eq (a := c.beginAt) (by omega) (by omega), sizeSub_eq (by omega) hlt]

lemma Holds.length_le (h : Holds unread capacity c) : unread.length ≤ capacity := by
  have hcount := h.count
  have hsize := h.size
  have hend := h.endAt
  have hbegin := h.beginAt
  rw [h.bufend] at hend hbegin
  split at hcount <;> omega

lemma Holds.room (h : Holds unread capacity c) : c.room = capacity - unread.length := by
  have hlt := h.size_lt
  have hsize := h.size
  have hend := h.endAt
  have hbegin := h.beginAt
  have hcount := h.count
  rw [h.bufend] at hend hbegin
  unfold Cbuf.room
  split at hcount
  · rename_i hle
    rw [if_pos hle, sizeSub_eq hle (by omega), sizeSub_eq (by omega) hlt,
      sizeSub_eq (by omega) (by omega)]
    omega
  · rename_i hle
    rw [if_neg hle, sizeSub_eq (a := c.beginAt) (by omega) (by omega),
      sizeSub_eq (by omega) (by omega)]
    omega

lemma Holds.empty (h : Holds unread capacity c) : c.empty = decide (unread = []) := by
  have hend := h.endAt
  have hbegin := h.beginAt
  have hcount := h.count
  rw [h.bufend] at hend hbegin
  unfold Cbuf.empty
  apply decide_eq_decide.mpr
  rw [← List.length_eq_zero_iff, hcount]
  split <;> omega

lemma Holds.full (h : Holds unread capacity c) :
    c.full = decide (unread.length = capacity) := by
  have hsize := h.size
  have hend := h.endAt
  have hbegin := h.beginAt
  have hcount := h.count
  have hbufend := h.bufend
  rw [h.bufend] at hend hbegin
  unfold Cbuf.full wrapIfBufend
  apply decide_eq_decide.mpr
  split at hcount <;> split <;> omega

lemma Holds.advance (h : Holds unread capacity c) {k : ℕ} (hk : k ≤ unread.length)
    (hfit : c.beginAt + k ≤ c.bufend) :
    Holds (unread.drop k) capacity { c with beginAt := c.wrapIfBufend (c.beginAt + k) } := by
  have hsize := h.size
  have hend := h.endAt
  have hcount := h.count
  have hbufend := h.bufend
  have hblock := h.block
  have hle := h.length_le
  refine ⟨h.size, h.size_lt, h.bufend, h.buf, h.block, ?_, h.endAt, ?_, ?_⟩
  · unfold wrapIfBufend
    dsimp only
    split <;> omega
  · rw [List.length_drop]
    unfold wrapIfBufend
    dsimp only
    split at hcount <;> split <;> split <;> omega
  · rw [List.length_drop]
    change arc c.block (c.wrapIfBufend (c.beginAt + k)) (unread.length - k) = unread.drop k
    have hwrap : c.wrapIfBufend (c.beginAt + k) % c.block.length =
        (c.beginAt + k) % c.block.length := by
      unfold wrapIfBufend
      split
      · rename_i heq
        rw [heq, hbufend, hblock, Nat.mod_self, Nat.zero_mod]
      · rfl
    have hdrop := drop_arc c.block (k := k) (n := unread.length - k) c.beginAt (by omega)
    rw [arc_congr hwrap, ← hdrop, Nat.add_sub_cancel' hk, h.bytes]

lemma Holds.copyOut (h : Holds unread capacity c) {k : ℕ} (hk : k ≤ unread.length)
    (hfit : c.beginAt + k ≤ c.bufend) :
    Block.copyOut c.block c.beginAt k = some (unread.take k) := by
  have hfit' : c.beginAt + k ≤ c.block.length := by
    rw [h.block, ← h.bufend]
    exact hfit
  rw [Block.copyOut_eq hfit', ← arc_eq_take_drop hfit', ← take_arc c.block c.beginAt hk, h.bytes]

lemma Holds.readPiece (h : Holds unread capacity c) {k : ℕ} (hk : k ≤ unread.length)
    (hfit : c.beginAt + k ≤ c.bufend) : ∃ c', c.readPiece k = some (unread.take k, c') ∧
      Holds (unread.drop k) capacity c' := by
  refine ⟨_, ?_, h.advance hk hfit⟩
  unfold Cbuf.readPiece
  rw [h.copyOut hk hfit]
  rfl

lemma Holds.writePiece (h : Holds unread capacity c) (src : List Byte)
    (hroom : unread.length + src.length ≤ capacity) (hfit : c.endAt + src.length ≤ c.bufend) :
    ∃ c', c.writePiece src = some c' ∧ Holds (unread ++ src) capacity c' := by
  have hsize := h.size
  have hbegin := h.beginAt
  have hcount := h.count
  have hbufend := h.bufend
  have hblock := h.block
  have hfit' : c.endAt + src.length ≤ c.block.length := by
    rw [h.block, ← h.bufend]
    exact hfit
  refine ⟨{ c with
    buf := some (Block.overwrite c.block c.endAt src)
    endAt := c.wrapIfBufend (c.endAt + src.length) }, ?_, h.size, h.size_lt, h.bufend, rfl, ?_,
    h.beginAt, ?_, ?_, ?_⟩
  · unfold Cbuf.writePiece
    rw [Block.copyIn_eq hfit']
    rfl
  · exact (Block.length_overwrite hfit').trans h.block
  · have hend := h.endAt
    unfold wrapIfBufend
    dsimp only
    split <;> omega
  · rw [List.length_append]
    unfold wrapIfBufend
    dsimp only
    split at hcount <;> split <;> split <;> omega
  · have hstop : (c.beginAt + unread.length) % c.block.length = c.endAt % c.block.length := by
      split at hcount
      · rw [hcount, Nat.add_sub_cancel' (by assumption)]
      · have hround : c.beginAt + unread.length = c.endAt + c.block.length := by omega
        rw [hround, Nat.add_mod_right]
    rw [List.length_append]
    change arc (Block.overwrite c.block c.endAt src) c.beginAt (unread.length + src.length) = _
    rw [arc_overwrite hstop hfit' (by omega), h.bytes]

/-! The same of each operation. -/

lemma holds_new {size : Word} {fresh : Fresh} (hfresh : fresh.isSome)
    (hsize : size.toNat + 1 < 2 ^ 32) : Holds [] size.toNat (new size fresh) := by
  obtain ⟨raw, rfl⟩ := Option.isSome_iff_exists.mp hfresh
  have hword : (size.toNat + 1) % 2 ^ 32 = size.toNat + 1 := Nat.mod_eq_of_lt hsize
  refine ⟨hword, ?_, rfl, rfl, ?_, ?_, ?_, ?_, rfl⟩
  · exact Nat.mod_lt _ (by decide)
  · change ((List.range _).map raw).length = _
    rw [List.length_map, List.length_range]
    rfl
  · change 0 < (size.toNat + 1) % 2 ^ 32
    omega
  · change 0 < (size.toNat + 1) % 2 ^ 32
    omega
  · rfl

lemma Holds.load (h : Holds unread capacity c) {b : Byte} {l : List Byte} (hl : unread = b :: l) :
    Block.load c.block c.beginAt = some b := by
  subst hl
  have hbegin := h.beginAt
  have hhead := h.copyOut (k := 1) (Nat.succ_pos _) hbegin
  rw [Block.copyOut_eq (by rw [h.block, ← h.bufend]; exact hbegin)] at hhead
  rw [Block.load, ← List.head?_drop]
  have hfirst := congrArg List.head? (Option.some.inj hhead)
  rw [List.head?_take] at hfirst
  exact hfirst

lemma Holds.peekChar (h : Holds unread capacity c) :
    c.peekChar = some (unread.head?.elim (-1) BitVec.toInt) := by
  unfold Cbuf.peekChar
  rw [h.empty]
  cases unread with
  | nil => rfl
  | cons b l =>
    rw [h.load rfl]
    rfl

lemma Holds.readChar (h : Holds unread capacity c) : ∃ c',
    c.readChar = some (unread.head?.elim (-1) BitVec.toInt, c') ∧
      Holds (unread.drop 1) capacity c' := by
  unfold Cbuf.readChar
  rw [h.empty]
  cases unread with
  | nil => exact ⟨c, rfl, h⟩
  | cons b l =>
    rw [h.load rfl]
    exact ⟨_, rfl, h.advance (k := 1) (Nat.succ_pos _) h.beginAt⟩

/-- The pieces before and behind the end of the block, where the bytes to read lie on both sides
of it. -/
lemma Holds.split (h : Holds unread capacity c) {k : ℕ} (hk : k ≤ unread.length)
    (hwrap : c.endAt < c.beginAt ∧ k > sizeSub c.bufend c.beginAt) :
    Block.copyOut c.block c.beginAt (sizeSub c.bufend c.beginAt) =
        some (unread.take (sizeSub c.bufend c.beginAt)) ∧
      Holds (unread.drop (sizeSub c.bufend c.beginAt)) capacity { c with beginAt := 0 } ∧
      k - sizeSub c.bufend c.beginAt ≤ (unread.drop (sizeSub c.bufend c.beginAt)).length ∧
      0 + (k - sizeSub c.bufend c.beginAt) ≤ c.bufend := by
  have hsize := h.size
  have hle := h.length_le
  have hbegin := h.beginAt
  have hlt := h.size_lt
  have hbufend := h.bufend
  have htop : sizeSub c.bufend c.beginAt = c.bufend - c.beginAt := sizeSub_eq (by omega) (by omega)
  rw [htop] at hwrap ⊢
  have hend : c.wrapIfBufend (c.beginAt + (c.bufend - c.beginAt)) = 0 := by
    unfold wrapIfBufend
    rw [if_pos (by omega)]
  have hadvance := h.advance (k := c.bufend - c.beginAt) (by omega) (by omega)
  rw [hend] at hadvance
  refine ⟨h.copyOut (by omega) (by omega), hadvance, ?_, by omega⟩
  rw [List.length_drop]
  omega

lemma Holds.fits_of_not_split (h : Holds unread capacity c) {k : ℕ} (hk : k ≤ unread.length)
    (hwrap : ¬(c.endAt < c.beginAt ∧ k > sizeSub c.bufend c.beginAt)) :
    c.beginAt + k ≤ c.bufend := by
  have hbegin := h.beginAt
  have hend := h.endAt
  have hlt := h.size_lt
  have hbufend := h.bufend
  have hcount := h.count
  rw [sizeSub_eq (by omega) (by omega)] at hwrap
  split at hcount <;> omega

lemma take_if_lt {α : Type*} (l : List α) (n : ℕ) :
    l.take (if n < l.length then n else l.length) = l.take n := by
  split
  · rfl
  · rw [List.take_of_length_le (Nat.le_refl _), List.take_of_length_le (by omega)]

lemma drop_if_lt {α : Type*} (l : List α) (n : ℕ) :
    l.drop (if n < l.length then n else l.length) = l.drop n := by
  split
  · rfl
  · rw [List.drop_of_length_le (Nat.le_refl _), List.drop_of_length_le (by omega)]

lemma Holds.read (h : Holds unread capacity c) (size : ℕ) : ∃ c',
    c.read size = some (unread.take size, c') ∧ Holds (unread.drop size) capacity c' := by
  rw [← take_if_lt, ← drop_if_lt]
  unfold Cbuf.read
  rw [h.available]
  dsimp only
  have hk : (if size < unread.length then size else unread.length) ≤ unread.length := by
    split <;> omega
  generalize (if size < unread.length then size else unread.length) = k at hk ⊢
  split
  · rename_i hwrap
    obtain ⟨htop, hrest, hle, hfit⟩ := h.split hk hwrap
    obtain ⟨c', hread, hholds⟩ := hrest.readPiece hle hfit
    rw [htop, Option.bind_some, hread]
    rw [List.drop_drop, Nat.add_sub_cancel' (by omega)] at hholds
    refine ⟨c', ?_, hholds⟩
    rw [Option.map_some, ← List.take_add, Nat.add_sub_cancel' (by omega)]
  · rename_i hwrap
    exact h.readPiece hk (h.fits_of_not_split hk hwrap)

lemma Holds.peek (h : Holds unread capacity c) (size : ℕ) :
    c.peek size = some (unread.take size) := by
  rw [← take_if_lt]
  unfold Cbuf.peek
  rw [h.available]
  dsimp only
  have hk : (if size < unread.length then size else unread.length) ≤ unread.length := by
    split <;> omega
  generalize (if size < unread.length then size else unread.length) = k at hk ⊢
  split
  · rename_i hwrap
    obtain ⟨htop, hrest, hle, hfit⟩ := h.split hk hwrap
    have hsame : Block.copyOut c.block 0 (k - sizeSub c.bufend c.beginAt) =
        some ((unread.drop (sizeSub c.bufend c.beginAt)).take (k - sizeSub c.bufend c.beginAt)) :=
      hrest.copyOut hle hfit
    rw [htop, Option.bind_some, hsame, Option.map_some, ← List.take_add,
      Nat.add_sub_cancel' (by omega)]
  · rename_i hwrap
    exact h.copyOut hk (h.fits_of_not_split hk hwrap)

lemma Holds.writeChar (h : Holds unread capacity c) (ch : Byte) : ∃ c',
    c.writeChar ch = some (if unread.length < capacity then 1 else 0, c') ∧
      Holds (if unread.length < capacity then unread ++ [ch] else unread) capacity c' := by
  have hle := h.length_le
  unfold Cbuf.writeChar
  rw [h.full]
  by_cases hroom : unread.length < capacity
  · obtain ⟨c', hwrite, hholds⟩ := h.writePiece [ch] hroom h.endAt
    rw [if_pos hroom, if_pos hroom, decide_eq_false (by omega)]
    refine ⟨c', ?_, hholds⟩
    obtain ⟨block, hblock, rfl⟩ := Option.map_eq_some_iff.mp hwrite
    unfold Block.store
    rw [hblock]
    rfl
  · rw [if_neg hroom, if_neg hroom, decide_eq_true (by omega)]
    exact ⟨c, rfl, h⟩

lemma Holds.writeSplit (h : Holds unread capacity c) {src : List Byte} {k : ℕ}
    (hroom : unread.length + k ≤ capacity) (hsrc : k ≤ src.length) (hbehind : c.beginAt ≤ c.endAt)
    (hsplit : c.bufend - c.endAt < k) :
    ∃ c', ((Block.copyIn c.block c.endAt (src.take (c.bufend - c.endAt))).bind fun block =>
        Cbuf.writePiece ((src.drop (c.bufend - c.endAt)).take (k - (c.bufend - c.endAt)))
          { c with buf := some block, endAt := 0 }) = some c' ∧
      Holds (unread ++ src.take k) capacity c' := by
  have hsize := h.size
  have hbufend := h.bufend
  have hbegin := h.beginAt
  have hend := h.endAt
  have hcount := h.count
  rw [if_pos hbehind] at hcount
  have hlen : (src.take (c.bufend - c.endAt)).length = c.bufend - c.endAt := by
    rw [List.length_take]
    omega
  have hrest : ((src.drop (c.bufend - c.endAt)).take (k - (c.bufend - c.endAt))).length =
      k - (c.bufend - c.endAt) := by
    rw [List.length_take, List.length_drop]
    omega
  obtain ⟨c₁, hfirst, hholds⟩ := h.writePiece (src.take (c.bufend - c.endAt)) (by omega)
    (by omega)
  obtain ⟨block, hblock, rfl⟩ := Option.map_eq_some_iff.mp hfirst
  have hzero : c.wrapIfBufend (c.endAt + (src.take (c.bufend - c.endAt)).length) = 0 := by
    unfold wrapIfBufend
    rw [if_pos (by omega)]
  rw [hzero] at hholds
  obtain ⟨c', hsecond, hholds'⟩ := hholds.writePiece
    ((src.drop (c.bufend - c.endAt)).take (k - (c.bufend - c.endAt)))
    (by rw [List.length_append]; omega) (by rw [hrest]; dsimp only; omega)
  rw [List.append_assoc, ← List.take_add, Nat.add_sub_cancel' (by omega)] at hholds'
  rw [hblock, Option.bind_some]
  exact ⟨c', hsecond, hholds'⟩

lemma Holds.write (h : Holds unread capacity c) (src : List Byte) : ∃ c',
    c.write src = some (min src.length (capacity - unread.length), c') ∧
      Holds (unread ++ src.take (capacity - unread.length)) capacity c' := by
  have hle := h.length_le
  have hsize := h.size
  have hlt := h.size_lt
  have hbufend := h.bufend
  have hbegin := h.beginAt
  have hend := h.endAt
  have hcount := h.count
  have hk : (if src.length < capacity - unread.length then src.length
      else capacity - unread.length) = min src.length (capacity - unread.length) := by
    split <;> omega
  have hbytes : src.take (capacity - unread.length) =
      src.take (min src.length (capacity - unread.length)) := by
    rw [Nat.min_comm]
    exact List.take_eq_take_min
  have htop : sizeSub c.bufend c.endAt = c.bufend - c.endAt := sizeSub_eq (by omega) (by omega)
  unfold Cbuf.write
  rw [h.room, htop]
  dsimp only
  rw [hk, hbytes]
  have hroom : min src.length (capacity - unread.length) ≤ capacity - unread.length :=
    Nat.min_le_right _ _
  have hsrc : min src.length (capacity - unread.length) ≤ src.length := Nat.min_le_left _ _
  generalize min src.length (capacity - unread.length) = k at hroom hsrc ⊢
  split
  · rename_i hwrap
    obtain ⟨c', hsplit, hholds⟩ := h.writeSplit (by omega) hsrc hwrap.1 hwrap.2
    have hwrite := congrArg (Option.map fun c => (k, c)) hsplit
    rw [Option.map_bind] at hwrite
    exact ⟨c', hwrite, hholds⟩
  · rename_i hwrap
    have hlen : (src.take k).length = k := by
      rw [List.length_take]
      omega
    obtain ⟨c', hwrite, hholds⟩ := h.writePiece (src.take k) (by omega)
      (by split at hcount <;> omega)
    rw [hwrite]
    exact ⟨c', rfl, hholds⟩

lemma Holds.flush (h : Holds unread capacity c) : Holds [] capacity c.flush :=
  ⟨h.size, h.size_lt, h.bufend, h.buf, h.block, Nat.zero_lt_of_lt h.beginAt,
    Nat.zero_lt_of_lt h.beginAt, rfl, rfl⟩

lemma Holds.remove (h : Holds unread capacity c) (size : ℕ) :
    (c.remove size).1 = (unread.drop size).length ∧
      Holds (unread.drop size) capacity (c.remove size).2 := by
  unfold Cbuf.remove
  rw [h.available]
  dsimp only
  by_cases hall : size ≥ unread.length
  · rw [if_pos hall, List.drop_of_length_le hall]
    exact ⟨rfl, h.flush⟩
  · rw [if_neg hall, if_pos (Nat.not_le.mp hall)]
    have hk : size ≤ unread.length := by omega
    have hholds : Holds (unread.drop size) capacity
        (if c.endAt < c.beginAt ∧ size > sizeSub c.bufend c.beginAt then
          { c with beginAt := c.wrapIfBufend (0 + (size - sizeSub c.bufend c.beginAt)) }
        else { c with beginAt := c.wrapIfBufend (c.beginAt + size) }) := by
      split
      · rename_i hwrap
        obtain ⟨-, hrest, hle, hfit⟩ := h.split hk hwrap
        have hadvance := hrest.advance hle hfit
        rw [List.drop_drop, Nat.add_sub_cancel' (by omega)] at hadvance
        exact hadvance
      · rename_i hwrap
        exact h.advance hk (h.fits_of_not_split hk hwrap)
    exact ⟨hholds.available, hholds⟩

lemma Holds.relocate (h : Holds unread capacity c) {newbuf : List Byte} {newSize : ℕ}
    (hnew : newbuf.length = newSize) (hlt : newSize < 2 ^ 32) (hfit : unread.length ≤ newSize) :
    c.relocate unread.length newSize newbuf =
      some (unread ++ List.replicate (newSize - unread.length) 0) := by
  obtain ⟨c', hread, -⟩ := h.read unread.length
  unfold Cbuf.relocate
  rw [h.buf]
  dsimp only
  rw [hread, sizeSub_eq hfit hlt, Option.bind_some, List.take_length]
  dsimp only
  rw [Block.copyIn_eq (by omega), Option.bind_some]
  have hlen : (Block.overwrite newbuf 0 unread).length = newbuf.length :=
    Block.length_overwrite (by omega)
  rw [Block.copyIn_eq (by rw [hlen, List.length_replicate]; omega)]
  unfold Block.overwrite
  rw [List.length_replicate, Nat.add_sub_cancel' hfit, List.take_zero, List.nil_append,
    Nat.zero_add, List.take_left, List.drop_of_length_le, List.append_nil]
  rw [List.length_append, List.length_drop]
  omega

lemma holds_relocated {size : ℕ} (hlt : size + 1 < 2 ^ 32) (hfit : unread.length ≤ size) :
    Holds unread size {
      size := size + 1
      buf := some (unread ++ List.replicate (size + 1 - unread.length) 0)
      bufend := size + 1
      beginAt := 0
      endAt := unread.length } := by
  refine ⟨rfl, hlt, rfl, rfl, ?_, Nat.succ_pos _, Nat.lt_succ_of_le hfit,
    (if_pos (Nat.zero_le _)).symm, ?_⟩
  · change (unread ++ List.replicate (size + 1 - unread.length) 0).length = size + 1
    rw [List.length_append, List.length_replicate]
    omega
  · change arc (unread ++ List.replicate (size + 1 - unread.length) 0) 0 unread.length = unread
    rw [arc, List.rotate_zero, List.take_left]

lemma Holds.resize (h : Holds unread capacity c) {size : ℕ} (hword : size < 2 ^ 32) (fresh : Fresh)
    (hfit : fresh.isSome → (size + 1) % 2 ^ 32 ≠ unread.length) : ∃ c',
    c.resize size fresh = some (c'.size, c') ∧ Holds unread
      (if fresh.isSome ∧ size + 1 < 2 ^ 32 ∧ unread.length ≤ size then size
      else capacity) c' := by
  have hle := h.length_le
  have hsize := h.size
  have hlt := h.size_lt
  unfold Cbuf.resize
  rw [h.available]
  dsimp only
  split
  · rename_i hkeep
    have hsame : (if fresh.isSome ∧ size + 1 < 2 ^ 32 ∧ unread.length ≤ size
        then size else capacity) = capacity := by
      split <;> omega
    rw [hsame]
    exact ⟨c, rfl, h⟩
  · rename_i hkeep
    cases fresh with
    | none =>
      refine ⟨c, rfl, ?_⟩
      rw [if_neg fun hnone => Bool.noConfusion hnone.1]
      exact h
    | some raw =>
      have hne := hfit rfl
      have hnew : (size + 1) % 2 ^ 32 = size + 1 := Nat.mod_eq_of_lt (by omega)
      rw [hnew] at hkeep hne ⊢
      have hblock : ((List.range (size + 1)).map raw).length = size + 1 := by
        rw [List.length_map, List.length_range]
      unfold Fresh.block
      rw [Option.map_some]
      dsimp only
      rw [h.relocate hblock (by omega) (by omega), if_pos ⟨rfl, by omega, by omega⟩]
      exact ⟨_, rfl, holds_relocated (by omega) (by omega)⟩

lemma Holds.endAt_resize (h : Holds unread capacity c) {size n : ℕ} {fresh : Fresh} {c' : Cbuf}
    (hfresh : fresh.isSome) (heq : (size + 1) % 2 ^ 32 = unread.length)
    (hresize : c.resize size fresh = some (n, c')) : c'.endAt = c'.bufend := by
  obtain ⟨raw, rfl⟩ := Option.isSome_iff_exists.mp hfresh
  have hle := h.length_le
  have hsize := h.size
  unfold Cbuf.resize at hresize
  rw [h.available, heq] at hresize
  dsimp only at hresize
  rw [if_neg (by omega)] at hresize
  obtain ⟨newbuf, -, hmade⟩ := Option.map_eq_some_iff.mp hresize
  obtain ⟨-, rfl⟩ := Prod.mk.inj hmade
  rfl

end Holds

end Cbuf

end FrameworkXC32
