import Mathlib.Data.List.Basic
import Mathlib.Data.List.TakeDrop

/-!
# Blocks of memory

A block is the list of its cells. Reading and writing several cells at once is refused when one
of them lies outside.
-/

namespace Block

variable {α : Type*}

/-- The `n` cells from `start` on. -/
def copyOut (block : List α) (start n : ℕ) : Option (List α) :=
  if start + n ≤ block.length then some ((block.drop start).take n) else none

/-- The cells from `start` on are overwritten. -/
def overwrite (block : List α) (start : ℕ) (src : List α) : List α :=
  block.take start ++ src ++ block.drop (start + src.length)

def copyIn (block : List α) (start : ℕ) (src : List α) : Option (List α) :=
  if start + src.length ≤ block.length then some (overwrite block start src) else none

def load (block : List α) (i : ℕ) : Option α := block[i]?

def store (block : List α) (i : ℕ) (a : α) : Option (List α) := copyIn block i [a]

lemma copyOut_eq {block : List α} {start n : ℕ} (h : start + n ≤ block.length) :
    copyOut block start n = some ((block.drop start).take n) :=
  if_pos h

lemma copyIn_eq {block : List α} {start : ℕ} {src : List α} (h : start + src.length ≤ block.length) :
    copyIn block start src = some (overwrite block start src) :=
  if_pos h

lemma length_overwrite {block : List α} {start : ℕ} {src : List α}
    (h : start + src.length ≤ block.length) : (overwrite block start src).length = block.length := by
  unfold overwrite
  rw [List.length_append, List.length_append, List.length_take, List.length_drop]
  omega

lemma take_overwrite {block : List α} {start : ℕ} (src : List α) (h : start ≤ block.length) :
    (overwrite block start src).take start = block.take start := by
  have hlen : (block.take start).length = start := by rw [List.length_take, Nat.min_eq_left h]
  unfold overwrite
  rw [List.append_assoc]
  exact List.take_left' hlen

lemma take_overwrite_of_le {block : List α} {i start : ℕ} {src : List α} (hi : i ≤ start)
    (h : start ≤ block.length) : (overwrite block start src).take i = block.take i := by
  have htake := congrArg (List.take i) (take_overwrite src h)
  rwa [List.take_take, List.take_take, Nat.min_eq_left hi] at htake

lemma drop_overwrite {block : List α} {start : ℕ} {src : List α} (h : start ≤ block.length) :
    (overwrite block start src).drop start = src ++ block.drop (start + src.length) := by
  have hlen : (block.take start).length = start := by rw [List.length_take, Nat.min_eq_left h]
  unfold overwrite
  rw [List.append_assoc]
  exact List.drop_left' hlen

lemma overwrite_append {x y z src : List α} (h : src.length ≤ y.length) :
    overwrite (x ++ y ++ z) x.length src = x ++ src ++ (y.drop src.length ++ z) := by
  unfold overwrite
  rw [List.append_assoc x y z, List.take_left, ← List.drop_drop, List.drop_left,
    List.drop_append_of_le_length h]

lemma overwrite_cell (x : List α) (a b : α) (z : List α) :
    overwrite (x ++ a :: z) x.length [b] = x ++ b :: z := by
  have h : overwrite (x ++ [a] ++ z) x.length [b] = x ++ [b] ++ z :=
    overwrite_append (Nat.le_refl 1)
  rwa [List.append_assoc, List.append_assoc] at h

lemma overwrite_zero (block src : List α) :
    overwrite block 0 src = src ++ block.drop src.length := by
  unfold overwrite
  rw [List.take_zero, List.nil_append, Nat.zero_add]

lemma overwrite_of_shown {block src : List α} (h : src <+: block) :
    overwrite block 0 src = block := by
  obtain ⟨rest, rfl⟩ := h
  rw [overwrite_zero, List.drop_left]

/-- A block whose size its type says. -/
structure Field (α : Type*) (n : ℕ) where
  cells : List α
  size : cells.length = n
deriving DecidableEq, Repr

namespace Field

variable {n : ℕ}

def copyIn (f : Field α n) (start : ℕ) (src : List α) : Option (Field α n) :=
  if h : start + src.length ≤ f.cells.length then
    some ⟨overwrite f.cells start src, (length_overwrite h).trans f.size⟩
  else none

def store (f : Field α n) (i : ℕ) (a : α) : Option (Field α n) := f.copyIn i [a]

lemma copyIn_eq (f : Field α n) {start : ℕ} {src : List α} (h : start + src.length ≤ n) :
    ∃ g, f.copyIn start src = some g ∧ g.cells = overwrite f.cells start src := by
  have hroom : start + src.length ≤ f.cells.length := by rwa [f.size]
  exact ⟨_, dif_pos hroom, rfl⟩

lemma copyIn_store (f : Field α n) {src : List α} (h : src.length < n) (a : α) :
    ∃ g k, f.copyIn 0 src = some g ∧ g.store src.length a = some k ∧
      k.cells = src ++ a :: f.cells.drop (src.length + 1) := by
  have hinside : src.length < f.cells.length := by rwa [f.size]
  obtain ⟨g, hg, hgcells⟩ := f.copyIn_eq (show 0 + src.length ≤ n by omega)
  obtain ⟨k, hk, hkcells⟩ := g.copyIn_eq (show src.length + [a].length ≤ n from h)
  refine ⟨g, k, hg, hk, ?_⟩
  rw [hkcells, hgcells, overwrite_zero, List.drop_eq_getElem_cons hinside, overwrite_cell]

end Field

end Block
