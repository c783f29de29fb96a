import Mathlib.Data.List.Basic
import Mathlib.Order.MinMax

/-!
# Waiting in a list of polls

A loop that polls while a condition holds, and the place in the list where it stops. Several such
loops with a common way out, one after the other, stop at that way out or go on.
-/

namespace Polling

variable {α : Type*}

/-- The loop with the current poll at the head of the list: the number of polls that it takes, and
the list from its last one on; `none` when it has not stopped at the end of the list. -/
def waitWhile (busy : α → Bool) : List α → Option (ℕ × List α)
  | [] => none
  | a :: l => if busy a then (waitWhile busy l).map fun r => (r.1 + 1, r.2) else some (0, a :: l)

/-- The first place from `j` on with an item that has the property, or the length. -/
def nextIdx (p : α → Bool) (j : ℕ) (l : List α) : ℕ := j + (l.drop j).findIdx p

variable {p q : α → Bool} {j k : ℕ} {l : List α}

lemma le_nextIdx : j ≤ nextIdx p j l := Nat.le_add_right _ _

lemma nextIdx_le_length (hj : j ≤ l.length) : nextIdx p j l ≤ l.length := by
  have hle : (l.drop j).findIdx p ≤ (l.drop j).length := List.findIdx_le_length
  rw [List.length_drop] at hle
  unfold nextIdx
  omega

lemma nextIdx_eq_self (hj : j < l.length) : nextIdx p j l = j ↔ p l[j] = true := by
  unfold nextIdx
  rw [List.drop_eq_getElem_cons hj, List.findIdx_cons]
  cases p l[j] with
  | true => exact iff_of_true rfl rfl
  | false =>
    refine iff_of_false ?_ Bool.false_ne_true
    simp only [cond_false]
    omega

lemma nextIdx_succ (hj : j < l.length) (hp : p l[j] = false) :
    nextIdx p j l = nextIdx p (j + 1) l := by
  unfold nextIdx
  rw [List.drop_eq_getElem_cons hj, List.findIdx_cons, hp, cond_false]
  omega

lemma nextIdx_holds (h : nextIdx p j l < l.length) : p l[nextIdx p j l] = true := by
  have hlt : (l.drop j).findIdx p < (l.drop j).length := by
    rw [List.length_drop]
    unfold nextIdx at h
    omega
  have hholds := List.findIdx_getElem (w := hlt)
  rw [List.getElem_drop] at hholds
  exact hholds

lemma nextIdx_fails (hj : j ≤ k) (hk : k < nextIdx p j l) (hlen : k < l.length) :
    p l[k] = false := by
  have hlt : k - j < (l.drop j).findIdx p := by
    unfold nextIdx at hk
    omega
  have hfails := List.not_of_lt_findIdx hlt
  rw [List.getElem_drop] at hfails
  have hindex : j + (k - j) = k := by omega
  simpa only [hindex] using hfails

lemma nextIdx_of_le (hj : j ≤ k) (hk : k ≤ nextIdx p j l) (hlen : k ≤ l.length) :
    nextIdx p k l = nextIdx p j l := by
  obtain ⟨n, rfl⟩ := Nat.exists_eq_add_of_le hj
  clear hj
  induction n with
  | zero => rfl
  | succ n ih =>
    have hlt : j + n < l.length := hlen
    have hfails := nextIdx_fails (Nat.le_add_right j n) hk hlt
    rw [← ih (Nat.le_of_succ_le hk) (Nat.le_of_succ_le hlen), nextIdx_succ hlt hfails]
    rfl

lemma nextIdx_or (p q : α → Bool) (j : ℕ) (l : List α) :
    nextIdx (fun a => p a || q a) j l = min (nextIdx p j l) (nextIdx q j l) := by
  have hor : ∀ l : List α, l.findIdx (fun a => p a || q a) = min (l.findIdx p) (l.findIdx q) := by
    intro l
    induction l with
    | nil => rfl
    | cons a l ih =>
      rw [List.findIdx_cons, List.findIdx_cons, List.findIdx_cons, ih]
      cases p a with
      | true => rw [Bool.true_or, cond_true, cond_true, Nat.zero_min]
      | false =>
        rw [Bool.false_or, cond_false]
        cases q a with
        | true => rw [cond_true, cond_true, Nat.min_zero]
        | false => rw [cond_false, cond_false, Nat.add_min_add_right]
  unfold nextIdx
  rw [hor, Nat.add_min_add_left]

/-- A second search, begun where the first one or the way out `d` came, up to the way out. -/
lemma min_nextIdx_min (i d : ℕ) : min (nextIdx p (min i d) l) d = min (nextIdx p i l) d := by
  rcases Nat.le_total i d with h | h
  · rw [Nat.min_eq_left h]
  · rw [Nat.min_eq_right h, Nat.min_eq_right le_nextIdx, Nat.min_eq_right (h.trans le_nextIdx)]

lemma waitWhile_eq (busy : α → Bool) (l : List α) : waitWhile busy l =
    if l.findIdx (fun a => !busy a) < l.length then
      some (l.findIdx (fun a => !busy a), l.drop (l.findIdx fun a => !busy a))
    else none := by
  induction l with
  | nil => rfl
  | cons a l ih =>
    rw [waitWhile, List.findIdx_cons, ih, List.length_cons]
    cases busy a with
    | false => rfl
    | true =>
      rw [if_pos rfl, Bool.not_true, cond_false]
      by_cases h : l.findIdx (fun a => !busy a) < l.length
      · rw [if_pos h, if_pos (Nat.succ_lt_succ h)]
        rfl
      · rw [if_neg h, if_neg (fun h' => h (Nat.lt_of_succ_lt_succ h'))]
        rfl

lemma waitWhile_drop (busy : α → Bool) (hj : j ≤ l.length) : waitWhile busy (l.drop j) =
    if nextIdx (fun a => !busy a) j l < l.length then
      some (nextIdx (fun a => !busy a) j l - j, l.drop (nextIdx (fun a => !busy a) j l))
    else none := by
  have hiff : (l.drop j).findIdx (fun a => !busy a) < (l.drop j).length ↔
      nextIdx (fun a => !busy a) j l < l.length := by
    rw [List.length_drop]
    unfold nextIdx
    omega
  rw [waitWhile_eq, List.drop_drop]
  simp only [hiff]
  unfold nextIdx
  rw [Nat.add_sub_cancel_left]

end Polling
