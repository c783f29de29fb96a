import FrameworkXC32.Lib.Block
import Mathlib.Algebra.Ring.Nat
import Mathlib.Data.Fin.Basic
import Mathlib.Data.List.Rotate
import Mathlib.Data.Nat.ModEq
import Mathlib.Logic.Function.Basic
import Mathlib.Tactic.SplitIfs

/-!
# Windows of a circular memory

A memory of `N` cells whose last cell is followed by the first. The cells from a tail up to a head
are a window on it; writing at the head and advancing it appends to the window, advancing the tail
removes its first cell.
-/

namespace Circular

variable {α : Type*} {N : ℕ}

def next (i : Fin N) : Fin N := ⟨(i.val + 1) % N, Nat.mod_lt _ (Fin.pos i)⟩

/-- The number of cells from `tail` up to `head`. -/
def gap (tail head : Fin N) : ℕ :=
  if tail.val ≤ head.val then head.val - tail.val else N - tail.val + head.val

/-- The `n` cells from `tail` on. -/
def window (mem : Fin N → α) : Fin N → ℕ → List α
  | _, 0 => []
  | tail, n + 1 => mem tail :: window mem (next tail) n

lemma val_next (i : Fin N) : (next i).val = if i.val + 1 = N then 0 else i.val + 1 := by
  have hi := i.isLt
  unfold next
  split
  · rename_i h
    simp [h]
  · exact Nat.mod_eq_of_lt (by omega)

lemma gap_lt (tail head : Fin N) : gap tail head < N := by
  have ht := tail.isLt
  have hh := head.isLt
  unfold gap
  split <;> omega

lemma gap_eq_zero {tail head : Fin N} : gap tail head = 0 ↔ tail = head := by
  have ht := tail.isLt
  rw [Fin.ext_iff]
  unfold gap
  split <;> omega

lemma gap_next_tail {tail head : Fin N} (h : tail ≠ head) :
    gap tail head = gap (next tail) head + 1 := by
  have ht := tail.isLt
  have hh := head.isLt
  have hne : tail.val ≠ head.val := fun he => h (Fin.ext he)
  unfold gap
  rw [val_next]
  split_ifs <;> omega

lemma gap_next_head {tail head : Fin N} (h : next head ≠ tail) :
    gap tail (next head) = gap tail head + 1 := by
  have ht := tail.isLt
  have hh := head.isLt
  have hne : (next head).val ≠ tail.val := fun he => h (Fin.ext he)
  unfold gap
  rw [val_next] at hne ⊢
  split_ifs at hne ⊢ <;> omega

lemma next_head_eq_tail_iff (tail head : Fin N) : next head = tail ↔ gap tail head + 1 = N := by
  have ht := tail.isLt
  have hh := head.isLt
  rw [Fin.ext_iff, val_next]
  unfold gap
  split <;> split <;> omega

@[simp] lemma length_window (mem : Fin N → α) (tail : Fin N) (n : ℕ) :
    (window mem tail n).length = n := by
  induction n generalizing tail with
  | zero => rfl
  | succ n ih => simp [window, ih]

lemma window_update (mem : Fin N → α) {tail head : Fin N} (a : α) {n : ℕ}
    (h : n ≤ gap tail head) :
    window (Function.update mem head a) tail n = window mem tail n := by
  induction n generalizing tail with
  | zero => rfl
  | succ n ih =>
    have hne : tail ≠ head := by
      intro he
      rw [gap_eq_zero.mpr he] at h
      omega
    have hgap := gap_next_tail hne
    rw [window, window, Function.update_of_ne hne, ih (by omega)]

lemma window_concat (mem : Fin N → α) {tail head : Fin N} {n : ℕ} (h : gap tail head = n) :
    window mem tail (n + 1) = window mem tail n ++ [mem head] := by
  induction n generalizing tail with
  | zero =>
    rw [gap_eq_zero.mp h]
    rfl
  | succ n ih =>
    have hne : tail ≠ head := by
      intro he
      rw [gap_eq_zero.mpr he] at h
      omega
    have hgap := gap_next_tail hne
    have hnext : window mem (next tail) (n + 1) = window mem (next tail) n ++ [mem head] := by
      apply ih
      omega
    rw [window, hnext, window, List.cons_append]

/-- Writing at the head and taking it in appends to the window. -/
theorem window_push (mem : Fin N → α) (tail head : Fin N) (a : α) :
    window (Function.update mem head a) tail (gap tail head + 1) =
      window mem tail (gap tail head) ++ [a] := by
  rw [window_concat _ rfl, window_update _ _ (Nat.le_refl _), Function.update_self]

/-- A window that is not empty starts with its tail cell. -/
theorem window_pop (mem : Fin N → α) {tail head : Fin N} (h : tail ≠ head) :
    window mem tail (gap tail head) =
      mem tail :: window mem (next tail) (gap (next tail) head) := by
  rw [gap_next_tail h, window]

/-! ### Memories indexed by numbers -/

/-- The `n` cells from `start` on in a memory of `size` cells. -/
def span (mem : ℕ → α) (size start n : ℕ) : List α :=
  (List.range n).map fun i => mem ((start + i) % size)

@[simp] lemma span_zero (mem : ℕ → α) (size start : ℕ) : span mem size start 0 = [] := rfl

@[simp] lemma length_span (mem : ℕ → α) (size start n : ℕ) :
    (span mem size start n).length = n := by
  unfold span
  rw [List.length_map, List.length_range]

lemma span_succ (mem : ℕ → α) (size start n : ℕ) :
    span mem size start (n + 1) = mem (start % size) :: span mem size (start + 1) n := by
  unfold span
  rw [List.range_succ_eq_map, List.map_cons, List.map_map]
  congr 1
  apply List.map_congr_left
  intro i _
  rw [Function.comp_apply, Nat.succ_eq_add_one, Nat.add_assoc, Nat.add_comm 1 i]

lemma span_congr {mem : ℕ → α} {size start start' : ℕ} (h : start % size = start' % size) (n : ℕ) :
    span mem size start n = span mem size start' n := by
  unfold span
  apply List.map_congr_left
  intro i _
  rw [Nat.add_mod, h, ← Nat.add_mod]

/-- A cursor that wraps may stand for one that does not. -/
lemma span_mod (mem : ℕ → α) (size start n : ℕ) :
    span mem size (start % size) n = span mem size start n :=
  span_congr (Nat.mod_mod start size) n

lemma span_update_end (mem : ℕ → α) {size : ℕ} (start : ℕ) {n : ℕ} (hn : n < size) (c : α) :
    span (Function.update mem ((start + n) % size) c) size start (n + 1) =
      span mem size start n ++ [c] := by
  unfold span
  rw [List.range_succ, List.map_append, List.map_singleton, Function.update_self]
  congr 1
  apply List.map_congr_left
  intro i hi
  have hin : i < n := List.mem_range.mp hi
  apply Function.update_of_ne
  intro heq
  have hmod : (start + i) % size = (start + n) % size := heq
  have hdiff : n - i ≡ 0 [MOD size] := by
    have hsum : start + i + (n - i) ≡ start + i + 0 [MOD size] := by
      have hsplit : start + i + (n - i) = start + n := by omega
      rw [hsplit, Nat.add_zero]
      exact hmod.symm
    exact Nat.ModEq.add_left_cancel' _ hsum
  have hzero : n - i = 0 := by
    have hmod0 : (n - i) % size = 0 % size := hdiff
    rwa [Nat.mod_eq_of_lt (by omega), Nat.zero_mod] at hmod0
  omega

lemma span_update_front (mem : ℕ → α) {size : ℕ} (start : ℕ) {n : ℕ} (hn : n < size) (c : α) :
    span (Function.update mem (start % size) c) size start (n + 1) =
      c :: span mem size (start + 1) n := by
  rw [span_succ, Function.update_self]
  congr 1
  apply List.map_congr_left
  intro i hi
  have hin : i < n := List.mem_range.mp hi
  apply Function.update_of_ne
  intro heq
  have hdiff : 1 + i ≡ 0 [MOD size] := by
    have hsum : start + (1 + i) ≡ start + 0 [MOD size] := by
      rw [← Nat.add_assoc, Nat.add_zero]
      exact heq
    exact Nat.ModEq.add_left_cancel' _ hsum
  have hzero : (1 + i) % size = 0 % size := hdiff
  rw [Nat.mod_eq_of_lt (by omega), Nat.zero_mod] at hzero
  omega

/-! ### Memories that are blocks -/

/-- The `n` cells from `start` on in a block. -/
def arc (mem : List α) (start n : ℕ) : List α := (mem.rotate start).take n

lemma arc_congr {mem : List α} {start start' : ℕ} (h : start % mem.length = start' % mem.length)
    (n : ℕ) : arc mem start n = arc mem start' n := by
  unfold arc
  rw [← List.rotate_mod, h, List.rotate_mod]

lemma arc_eq_take_drop {mem : List α} {start n : ℕ} (h : start + n ≤ mem.length) :
    arc mem start n = (mem.drop start).take n := by
  unfold arc
  rw [List.rotate_eq_drop_append_take (by omega)]
  apply List.take_append_of_le_length
  rw [List.length_drop]
  omega

lemma take_arc (mem : List α) (start : ℕ) {k n : ℕ} (h : k ≤ n) :
    (arc mem start n).take k = arc mem start k := by
  unfold arc
  rw [List.take_take, Nat.min_eq_left h]

lemma drop_arc (mem : List α) {k n : ℕ} (start : ℕ) (h : k + n ≤ mem.length) :
    (arc mem start (k + n)).drop k = arc mem (start + k) n := by
  have hk : k ≤ (mem.rotate start).length := by
    rw [List.length_rotate]
    omega
  unfold arc
  rw [← List.rotate_rotate, List.rotate_eq_drop_append_take hk, List.drop_take,
    Nat.add_sub_cancel_left, List.take_append_of_le_length]
  rw [List.length_drop, List.length_rotate]
  omega

lemma rotate_add {mem : List α} {n : ℕ} (start : ℕ) (hn : n ≤ mem.length) :
    mem.rotate (start + n) = (mem.rotate start).drop n ++ (mem.rotate start).take n := by
  rw [← List.rotate_rotate, List.rotate_eq_drop_append_take]
  rw [List.length_rotate]
  exact hn

lemma arc_overwrite {mem src : List α} {start n stop : ℕ}
    (hstop : (start + n) % mem.length = stop % mem.length) (hroom : stop + src.length ≤ mem.length)
    (hn : n + src.length ≤ mem.length) :
    arc (Block.overwrite mem stop src) start (n + src.length) = arc mem start n ++ src := by
  have hlen : (Block.overwrite mem stop src).length = mem.length := Block.length_overwrite hroom
  have hold : mem.rotate stop = mem.rotate (start + n) := by
    rw [← List.rotate_mod, ← hstop, List.rotate_mod]
  have hmoved : (Block.overwrite mem stop src).rotate stop =
      (Block.overwrite mem stop src).rotate (start + n) := by
    rw [← List.rotate_mod, hlen, ← hstop, ← hlen, List.rotate_mod]
  -- seen from behind the arc, the new cells come first and the arc comes last
  have hnew : (Block.overwrite mem stop src).rotate stop =
      src ++ (mem.rotate stop).drop src.length := by
    rw [List.rotate_eq_drop_append_take (by omega), List.rotate_eq_drop_append_take (by omega),
      Block.drop_overwrite (by omega), Block.take_overwrite _ (by omega), List.append_assoc,
      List.drop_append_of_le_length, List.drop_drop]
    rw [List.length_drop]
    omega
  rw [hmoved, hold, rotate_add start (by omega), rotate_add start (by omega),
    List.drop_append_of_le_length, List.drop_drop, ← List.append_assoc] at hnew
  · obtain ⟨hbehind, harc⟩ := List.append_inj' hnew (by
      rw [List.length_take, List.length_take, List.length_rotate, List.length_rotate, hlen])
    unfold arc
    rw [List.take_add, harc, hbehind, List.take_left]
  · rw [List.length_drop, List.length_rotate]
    omega

end Circular
