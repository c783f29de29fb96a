import Mathlib.Data.List.Range
import Mathlib.Tactic.Ring

/-!
# Countdowns

A countdown that stands at `r` expires once `r` units have passed; one with a period starts
again from it each time. `once` and `instants` are the instants at which it expires within `e`
units. A pass of time that reaches no expiry moves neither the instants nor what is left.
-/

namespace Countdown

/-- The instants, within `e` units, at which a countdown that is not restarted expires. -/
def once (r e : ℕ) : List ℕ := if r ≤ e then [r] else []

/-- How often a countdown of the given period expires within `e` units. -/
def expiries (period r e : ℕ) : ℕ := if r ≤ e then (e - r) / period + 1 else 0

def instants (period r e : ℕ) : List ℕ := (List.range (expiries period r e)).map (r + period * ·)

/-- Where it stands after them. -/
def leftover (period r e : ℕ) : ℕ := r + period * expiries period r e - e

lemma expiries_of_le {r e : ℕ} (period : ℕ) (h : r ≤ e) :
    expiries period r e = (e - r) / period + 1 := if_pos h

lemma expiries_of_lt {r e : ℕ} (period : ℕ) (h : e < r) : expiries period r e = 0 :=
  if_neg (by omega)

lemma instants_of_lt {r e : ℕ} (period : ℕ) (h : e < r) : instants period r e = [] := by
  simp [instants, expiries_of_lt period h]

lemma leftover_of_lt {r e : ℕ} (period : ℕ) (h : e < r) : leftover period r e = r - e := by
  simp [leftover, expiries_of_lt period h]

lemma lt_add_expiries {period : ℕ} (hp : 0 < period) (r e : ℕ) :
    e < r + period * expiries period r e := by
  by_cases h : r ≤ e
  · have hlt := Nat.lt_mul_div_succ (e - r) hp
    rw [expiries_of_le period h]
    omega
  · omega

section Shift

variable {r e d : ℕ} (hr : d ≤ r) (he : d ≤ e)
include hr he

lemma expiries_sub (period : ℕ) : expiries period (r - d) (e - d) = expiries period r e := by
  have hle : r - d ≤ e - d ↔ r ≤ e := by omega
  have hsub : e - d - (r - d) = e - r := by omega
  simp only [expiries, hle, hsub]

lemma instants_sub (period : ℕ) :
    (instants period (r - d) (e - d)).map (d + ·) = instants period r e := by
  unfold instants
  rw [expiries_sub hr he, List.map_map]
  apply List.map_congr_left
  intro k _
  simp only [Function.comp_apply]
  omega

lemma leftover_sub (period : ℕ) : leftover period (r - d) (e - d) = leftover period r e := by
  unfold leftover
  rw [expiries_sub hr he]
  omega

lemma once_sub : (once (r - d) (e - d)).map (d + ·) = once r e := by
  have hle : r - d ≤ e - d ↔ r ≤ e := by omega
  unfold once
  by_cases h : r ≤ e
  · rw [if_pos h, if_pos (hle.mpr h)]
    simp
    omega
  · rw [if_neg h, if_neg (mt hle.mp h)]
    rfl

end Shift

section Expire

variable {period r e : ℕ} (hp : 0 < period) (h : r ≤ e)
include hp h

lemma expiries_expire : expiries period r e = expiries period period (e - r) + 1 := by
  rw [expiries_of_le period h]
  by_cases hnext : period ≤ e - r
  · rw [expiries_of_le period hnext, Nat.div_eq_sub_div hp hnext]
  · rw [expiries_of_lt period (by omega), Nat.div_eq_of_lt (by omega)]

lemma instants_expire :
    instants period r e = r :: (instants period period (e - r)).map (r + ·) := by
  unfold instants
  rw [expiries_expire hp h, List.range_succ_eq_map]
  simp only [List.map_cons, List.map_map, Nat.mul_zero, Nat.add_zero]
  congr 1
  apply List.map_congr_left
  intro k _
  simp only [Function.comp_apply, Nat.succ_eq_add_one]
  ring

lemma leftover_expire : leftover period r e = leftover period period (e - r) := by
  unfold leftover
  rw [expiries_expire hp h, Nat.mul_add, Nat.mul_one]
  omega

end Expire

end Countdown
