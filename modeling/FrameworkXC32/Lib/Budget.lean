import Mathlib.Data.List.Basic
import Mathlib.Data.Nat.Find

/-!
# Polling with a budget

A loop that polls a device while it is busy, for as many polls as its budget allows. What the polls
see depends on the state that the ones before have left.
-/

namespace Budget

variable {α β : Type*} (poll : β → α × β)

/-- The state after `n` polls. -/
def after : ℕ → β → β
  | 0, b => b
  | n + 1, b => after n (poll b).2

/-- What the first `n` polls see. -/
def seen : ℕ → β → List α
  | 0, _ => []
  | n + 1, b => (poll b).1 :: seen n (poll b).2

variable (busy : α → Bool)

/-- The loop: what is left of the budget, `none` when all the polls were busy. -/
def spend : ℕ → β → Option ℕ × β
  | 0, b => (none, b)
  | T + 1, b => if busy (poll b).1 then spend T (poll b).2 else (some T, (poll b).2)

/-- The poll with the number `k` finds the device busy. -/
def BusyAt (b : β) (k : ℕ) : Prop := busy (poll (after poll k b)).1 = true

instance (b : β) : DecidablePred (BusyAt poll busy b) :=
  fun k => inferInstanceAs (Decidable (busy (poll (after poll k b)).1 = true))

variable {poll busy}

@[simp] lemma length_seen (n : ℕ) (b : β) : (seen poll n b).length = n := by
  induction n generalizing b with
  | zero => rfl
  | succ n ih => rw [seen, List.length_cons, ih]

lemma seen_succ (n : ℕ) (b : β) :
    seen poll (n + 1) b = seen poll n b ++ [(poll (after poll n b)).1] := by
  induction n generalizing b with
  | zero => rfl
  | succ n ih =>
    rw [seen, ih, seen, after]
    rfl

lemma busy_of_mem_seen {n : ℕ} {b : β} (h : ∀ k < n, BusyAt poll busy b k) :
    ∀ a ∈ seen poll n b, busy a = true := by
  induction n with
  | zero =>
    intro a ha
    cases ha
  | succ n ih =>
    intro a ha
    rw [seen_succ, List.mem_append, List.mem_singleton] at ha
    rcases ha with ha | rfl
    · exact ih (fun k hk => h k (Nat.lt_succ_of_lt hk)) a ha
    · exact h n (Nat.lt_succ_self n)

lemma spend_of_busy {T : ℕ} {b : β} (h : ∀ k < T, BusyAt poll busy b k) :
    spend poll busy T b = (none, after poll T b) := by
  induction T generalizing b with
  | zero => rfl
  | succ T ih =>
    have hfirst : busy (poll b).1 = true := h 0 (Nat.succ_pos T)
    rw [spend, if_pos hfirst, ih fun k hk => h (k + 1) (Nat.succ_lt_succ hk), after]

lemma spend_of_idle {T k : ℕ} {b : β} (hk : k < T) (hbefore : ∀ j < k, BusyAt poll busy b j)
    (hidle : ¬BusyAt poll busy b k) :
    spend poll busy T b = (some (T - 1 - k), after poll (k + 1) b) := by
  induction k generalizing T b with
  | zero =>
    have hfirst : ¬busy (poll b).1 = true := hidle
    obtain ⟨T, rfl⟩ := Nat.exists_eq_add_of_lt hk
    rw [Nat.zero_add, spend, if_neg hfirst]
    rfl
  | succ k ih =>
    cases T with
    | zero => exact absurd hk (Nat.not_lt_zero _)
    | succ T =>
      have hfirst : busy (poll b).1 = true := hbefore 0 (Nat.succ_pos k)
      have hrest := ih (T := T) (b := (poll b).2) (by omega)
        (fun j hj => hbefore (j + 1) (Nat.succ_lt_succ hj)) hidle
      rw [spend, if_pos hfirst, hrest, Nat.add_sub_cancel, Nat.sub_sub, Nat.add_comm 1 k]
      rfl

/-- A loop over more of the state than its polls look at. -/
lemma spend_proj {γ : Type*} {poll' : γ → α × γ} (f : γ → β)
    (h : ∀ c, poll (f c) = ((poll' c).1, f (poll' c).2)) (T : ℕ) (c : γ) :
    spend poll busy T (f c) = ((spend poll' busy T c).1, f (spend poll' busy T c).2) := by
  induction T generalizing c with
  | zero => rfl
  | succ T ih =>
    rw [spend, spend, h c]
    split
    · exact ih _
    · rfl

lemma busy_or_first (T : ℕ) (b : β) : (∀ k < T, BusyAt poll busy b k) ∨
    ∃ k < T, (∀ j < k, BusyAt poll busy b j) ∧ ¬BusyAt poll busy b k := by
  by_cases h : ∃ k < T, ¬BusyAt poll busy b k
  · have hex : ∃ k, ¬BusyAt poll busy b k := h.imp fun _ hk => hk.2
    obtain ⟨k, hk, hidle⟩ := h
    refine .inr ⟨Nat.find hex, Nat.lt_of_le_of_lt (Nat.find_min' hex hidle) hk, fun j hj => ?_,
      Nat.find_spec hex⟩
    exact not_not.mp (Nat.find_min hex hj)
  · refine .inl fun k hk => ?_
    by_contra hidle
    exact h ⟨k, hk, hidle⟩

lemma first_unique {b : β} {j k : ℕ} (hj : ∀ i < j, BusyAt poll busy b i)
    (hj' : ¬BusyAt poll busy b j) (hk : ∀ i < k, BusyAt poll busy b i)
    (hk' : ¬BusyAt poll busy b k) : j = k := by
  rcases Nat.lt_trichotomy j k with h | h | h
  · exact absurd (hk j h) hj'
  · exact h
  · exact absurd (hj k h) hk'

end Budget
