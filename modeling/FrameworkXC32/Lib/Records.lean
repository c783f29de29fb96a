import Mathlib.Data.List.Basic
import Mathlib.Data.List.TakeWhile

/-!
# Records in a list

A record is read from the front of a list up to an item that stops it, which is taken away with it,
or up to a length. What has been joined with such an item behind every record is read apart again.
-/

namespace Records

variable {α : Type*}

/-- The items that are read: up to one that stops, and at most `n`. -/
def record (stops : α → Bool) (n : ℕ) (l : List α) : List α :=
  (l.takeWhile fun a => !stops a).take n

/-- What is left. An item that stops is taken away unless the record is full before it. -/
def rest (stops : α → Bool) (n : ℕ) (l : List α) : List α :=
  l.drop (if (record stops n l).length = n then n else (record stops n l).length + 1)

/-- One record after the other, each of them at most as long as its entry says. -/
def split (stops : α → Bool) : List ℕ → List α → List (List α)
  | [], _ => []
  | n :: ns, l => record stops n l :: split stops ns (rest stops n l)

/-- What is left behind them. -/
def behind (stops : α → Bool) : List ℕ → List α → List α
  | [], l => l
  | n :: ns, l => behind stops ns (rest stops n l)

/-- Every record with the item behind it. -/
def join (stop : α) (records : List (List α)) : List α := (records.map (· ++ [stop])).flatten

variable {stops : α → Bool} {stop : α} {l r : List α} {n : ℕ}

@[simp] lemma record_zero (stops : α → Bool) (l : List α) : record stops 0 l = [] :=
  List.take_zero

@[simp] lemma rest_zero (stops : α → Bool) (l : List α) : rest stops 0 l = l := by
  rw [rest, record_zero, List.length_nil, if_pos rfl, List.drop_zero]

@[simp] lemma record_nil (stops : α → Bool) (n : ℕ) : record stops n [] = [] := List.take_nil

@[simp] lemma rest_nil (stops : α → Bool) (n : ℕ) : rest stops n [] = [] := List.drop_nil

lemma record_stop {a : α} (ha : stops a = true) (n : ℕ) (l : List α) :
    record stops n (a :: l) = [] := by
  rw [record, List.takeWhile_cons_of_neg (by simp [ha]), List.take_nil]

lemma rest_stop {a : α} (ha : stops a = true) (n : ℕ) (l : List α) :
    rest stops (n + 1) (a :: l) = l := by
  rw [rest, record_stop ha, List.length_nil, if_neg (by omega), List.drop_succ_cons, List.drop_zero]

lemma record_pass {a : α} (ha : stops a = false) (n : ℕ) (l : List α) :
    record stops (n + 1) (a :: l) = a :: record stops n l := by
  rw [record, List.takeWhile_cons_of_pos (by simp [ha]), List.take_succ_cons]
  rfl

lemma rest_pass {a : α} (ha : stops a = false) (n : ℕ) (l : List α) :
    rest stops (n + 1) (a :: l) = rest stops n l := by
  rw [rest, rest, record_pass ha, List.length_cons]
  by_cases hfull : (record stops n l).length = n
  · rw [if_pos (by omega), if_pos hfull, List.drop_succ_cons]
  · rw [if_neg (by omega), if_neg hfull, List.drop_succ_cons]

lemma record_append (hr : ∀ a ∈ r, stops a = false) (hstop : stops stop = true)
    (hn : r.length < n) (l : List α) :
    record stops n (r ++ stop :: l) = r ∧ rest stops n (r ++ stop :: l) = l := by
  induction r generalizing n with
  | nil =>
    obtain ⟨m, rfl⟩ : ∃ m, n = m + 1 := ⟨n - 1, by rw [List.length_nil] at hn; omega⟩
    exact ⟨record_stop hstop _ l, rest_stop hstop m l⟩
  | cons a r ih =>
    obtain ⟨m, rfl⟩ : ∃ m, n = m + 1 := ⟨n - 1, by omega⟩
    obtain ⟨ha, hr⟩ := List.forall_mem_cons.mp hr
    obtain ⟨hrecord, hrest⟩ := ih hr (Nat.succ_lt_succ_iff.mp hn)
    rw [List.cons_append, record_pass ha, rest_pass ha, hrecord, hrest]
    exact ⟨rfl, rfl⟩

/-- Records that have been joined are read apart again, if there is room for each of them. -/
theorem split_join (hstop : stops stop = true) {records : List (List α)} {ns : List ℕ}
    (hrecords : List.Forall₂ (fun r n => (∀ a ∈ r, stops a = false) ∧ r.length < n) records ns)
    (l : List α) : split stops ns (join stop records ++ l) = records ∧
      behind stops ns (join stop records ++ l) = l := by
  induction hrecords with
  | nil => exact ⟨rfl, rfl⟩
  | @cons r n records ns hr _ ih =>
    obtain ⟨hrecord, hrest⟩ := record_append hr.1 hstop hr.2 (join stop records ++ l)
    have hjoin : join stop (r :: records) ++ l = r ++ stop :: (join stop records ++ l) := by
      simp [join]
    rw [hjoin, split, behind, hrecord, hrest, ih.1, ih.2]
    exact ⟨rfl, rfl⟩

end Records
