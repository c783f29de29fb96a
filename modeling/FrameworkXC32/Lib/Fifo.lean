import Mathlib.Data.List.Basic
import Mathlib.Data.List.TakeDrop
import Mathlib.Data.Nat.Init

/-!
# Bounded queues

A queue is kept as its history: the items accepted so far, oldest first, and how many of them have
gone. The items that wait are the accepted ones behind those, so that items leave in the order in
which they came and each of them once, whatever the operations.
-/

structure Fifo (α : Type*) where
  capacity : ℕ
  accepted : List α
  gone : ℕ
  gone_le : gone ≤ accepted.length
  fits : accepted.length - gone ≤ capacity

namespace Fifo

variable {α : Type*}

/-- The items that wait, oldest first. -/
def items (q : Fifo α) : List α := q.accepted.drop q.gone

def new (capacity : ℕ) : Fifo α where
  capacity := capacity
  accepted := []
  gone := 0
  gone_le := Nat.le_refl 0
  fits := Nat.zero_le capacity

lemma length_items (q : Fifo α) : q.items.length = q.accepted.length - q.gone :=
  List.length_drop

lemma length_items_le (q : Fifo α) : q.items.length ≤ q.capacity := by
  rw [length_items]
  exact q.fits

/-- An item is taken in unless the queue is full. -/
def push (a : α) (q : Fifo α) : Bool × Fifo α :=
  if h : q.accepted.length - q.gone < q.capacity then
    (true, { q with
      accepted := q.accepted ++ [a]
      gone_le := by
        have hle := q.gone_le
        rw [List.length_append]
        omega
      fits := by
        have hle := q.gone_le
        rw [List.length_append, List.length_singleton]
        omega })
  else (false, q)

/-- The `n` oldest items go, or all that there are. -/
def drop (n : ℕ) (q : Fifo α) : Fifo α where
  capacity := q.capacity
  accepted := q.accepted
  gone := min (q.gone + n) q.accepted.length
  gone_le := Nat.min_le_right _ _
  fits := by
    have hfits := q.fits
    omega

def pop (q : Fifo α) : Option α × Fifo α := (q.items.head?, q.drop 1)

def clear (q : Fifo α) : Fifo α := q.drop q.items.length

/-- The capacity changes where the waiting items fit. -/
def resize (capacity : ℕ) (q : Fifo α) : Fifo α :=
  if h : q.accepted.length - q.gone ≤ capacity then { q with capacity := capacity, fits := h }
  else q

/-- Items are pushed one by one; the number that was taken in. -/
def pushAll : List α → Fifo α → ℕ × Fifo α
  | [], q => (0, q)
  | a :: l, q =>
    let (ok, q) := q.push a
    let (n, q) := pushAll l q
    ((if ok then 1 else 0) + n, q)

/-- Items are popped one by one. -/
def popAll : ℕ → Fifo α → List α × Fifo α
  | 0, q => ([], q)
  | n + 1, q =>
    let (a, q) := q.pop
    let (l, q) := popAll n q
    (a.toList ++ l, q)

section Items

variable (q : Fifo α)

lemma push_fst (a : α) : (q.push a).1 = decide (q.items.length < q.capacity) := by
  rw [length_items]
  unfold push
  split
  · rename_i h
    exact (decide_eq_true h).symm
  · rename_i h
    exact (decide_eq_false h).symm

lemma items_push (a : α) : (q.push a).2.items =
    if q.items.length < q.capacity then q.items ++ [a] else q.items := by
  have hle := q.gone_le
  rw [length_items]
  unfold push
  split
  · exact List.drop_append_of_le_length hle
  · rfl

@[simp] lemma capacity_push (a : α) : (q.push a).2.capacity = q.capacity := by
  unfold push
  split <;> rfl

@[simp] lemma items_drop (n : ℕ) : (q.drop n).items = q.items.drop n := by
  unfold items drop
  dsimp only
  rw [List.drop_drop]
  by_cases h : q.gone + n ≤ q.accepted.length
  · rw [Nat.min_eq_left h]
  · rw [Nat.min_eq_right (by omega), List.drop_length, List.drop_eq_nil_of_le (by omega)]

@[simp] lemma capacity_drop (n : ℕ) : (q.drop n).capacity = q.capacity := rfl

@[simp] lemma items_clear : q.clear.items = [] := by
  rw [clear, items_drop, List.drop_length]

lemma items_resize (n : ℕ) : (q.resize n).items = q.items := by
  unfold resize
  split <;> rfl

lemma capacity_resize (n : ℕ) : (q.resize n).capacity =
    if q.items.length ≤ n then n else q.capacity := by
  rw [length_items]
  unfold resize
  split <;> rfl

lemma pushAll_spec (l : List α) : (pushAll l q).1 = min l.length (q.capacity - q.items.length) ∧
    (pushAll l q).2.items = q.items ++ l.take (q.capacity - q.items.length) ∧
    (pushAll l q).2.capacity = q.capacity := by
  induction l generalizing q with
  | nil => simp [pushAll]
  | cons a l ih =>
    obtain ⟨hcount, hitems, hcapacity⟩ := ih (q.push a).2
    rw [capacity_push] at hcount hitems hcapacity
    simp only [pushAll, hcount, hitems, hcapacity, push_fst, items_push]
    by_cases h : q.items.length < q.capacity
    · obtain ⟨room, hroom⟩ : ∃ room, q.capacity - q.items.length = room + 1 :=
        Nat.exists_eq_succ_of_ne_zero (by omega)
      have hleft : q.capacity - (q.items.length + 1) = room := by omega
      simp [h, hroom, hleft]
      omega
    · have hfull : q.capacity - q.items.length = 0 := by omega
      simp [h, hfull]

lemma popAll_spec (n : ℕ) : (popAll n q).1 = q.items.take n ∧
    (popAll n q).2.items = q.items.drop n ∧ (popAll n q).2.capacity = q.capacity := by
  induction n generalizing q with
  | zero => simp [popAll]
  | succ n ih =>
    obtain ⟨hitems, hrest, hcapacity⟩ := ih (q.drop 1)
    simp only [popAll, pop, hitems, hrest, hcapacity, items_drop, capacity_drop]
    cases q.items <;> simp

end Items

end Fifo
