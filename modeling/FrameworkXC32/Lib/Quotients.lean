import Mathlib.Algebra.BigOperators.Group.List.Basic
import Mathlib.Algebra.Order.Round
import Mathlib.Data.List.Infix
import Mathlib.Data.Nat.ModEq
import Mathlib.Data.Rat.Floor
import Mathlib.Tactic.Linarith
import Mathlib.Tactic.Ring

/-!
# Counting in whole units

A counter that adds `a / t` for every amount `a` and drops the remainder agrees with the total
divided by `t` for as long as the dropped remainders add up to less than one unit. A quotient is
rounded by adding half of the divisor first.
-/

namespace Quotients

lemma sum_eq_quotients_add_remainders (t : ℕ) (l : List ℕ) :
    l.sum = t * (l.map (· / t)).sum + (l.map (· % t)).sum := by
  induction l with
  | nil => simp
  | cons a l ih =>
    have ha := Nat.div_add_mod a t
    simp only [List.map_cons, List.sum_cons, Nat.mul_add]
    omega

/-- The total in whole units: what was counted, and what the dropped remainders make up. -/
theorem sum_div_eq {t : ℕ} (ht : 0 < t) (l : List ℕ) :
    l.sum / t = (l.map (· / t)).sum + (l.map (· % t)).sum / t := by
  rw [sum_eq_quotients_add_remainders t l, Nat.mul_add_div ht]

lemma sum_remainders_prefix_le (t : ℕ) {p l : List ℕ} (h : p <+: l) :
    (p.map (· % t)).sum ≤ (l.map (· % t)).sum := by
  obtain ⟨q, rfl⟩ := h
  rw [List.map_append, List.sum_append]
  exact Nat.le_add_right _ _

/-- When the dropped remainders reach a unit, some prefix is behind by exactly one. -/
lemma exists_prefix_behind {t : ℕ} (ht : 0 < t) {l : List ℕ} (h : t ≤ (l.map (· % t)).sum) :
    ∃ p, p <+: l ∧ p.sum / t = (p.map (· / t)).sum + 1 := by
  induction l using List.reverseRecOn with
  | nil =>
    simp at h
    omega
  | append_singleton l a ih =>
    by_cases hl : t ≤ (l.map (· % t)).sum
    · obtain ⟨p, hp, hbehind⟩ := ih hl
      exact ⟨p, hp.trans (List.prefix_append l [a]), hbehind⟩
    · -- the remainder of `a` completes the first unit
      refine ⟨l ++ [a], List.prefix_rfl, ?_⟩
      have ha := Nat.mod_lt a ht
      rw [sum_div_eq ht]
      have hone : ((l ++ [a]).map (· % t)).sum / t = 1 := by
        rw [Nat.div_eq_iff ht]
        simp only [List.map_append, List.sum_append, List.map_cons, List.map_nil,
          List.sum_singleton] at h ⊢
        omega
      rw [hone]

/-- The counter is right at every moment, even read modulo `n`, exactly when the remainders it
has dropped stay below one unit. -/
theorem counts_every_prefix_iff {t n : ℕ} (ht : 0 < t) (hn : 1 < n) (l : List ℕ) :
    (∀ p, p <+: l → (p.map (· / t)).sum % n = p.sum / t % n) ↔ (l.map (· % t)).sum < t := by
  constructor
  · intro h
    by_contra hge
    obtain ⟨p, hp, hbehind⟩ := exists_prefix_behind ht (Nat.le_of_not_lt hge)
    have hmod := h p hp
    rw [hbehind] at hmod
    -- a number and its successor differ modulo `n`
    have hdvd : n ∣ (p.map (· / t)).sum + 1 - (p.map (· / t)).sum :=
      (Nat.modEq_iff_dvd' (Nat.le_succ _)).mp hmod
    rw [Nat.add_sub_cancel_left] at hdvd
    have hone := Nat.le_of_dvd Nat.one_pos hdvd
    omega
  · intro h p hp
    have hlt := (sum_remainders_prefix_le t hp).trans_lt h
    rw [sum_div_eq ht, Nat.div_eq_of_lt hlt, Nat.add_zero]

lemma div_sub_div_lt_iff {x y d n : ℕ} (hd : 0 < d) (hn : 0 < n) :
    y / d - x / d < n ↔ x % d + (y - x) < n * d := by
  have hx := Nat.div_add_mod x d
  have hlt := Nat.mod_lt x hd
  rcases Nat.le_total x y with hle | hle
  · have hsplit : y / d - x / d = (x % d + (y - x)) / d := by
      have hy : y = d * (x / d) + (x % d + (y - x)) := by omega
      have hdiv := Nat.mul_add_div hd (x / d) (x % d + (y - x))
      rw [← hy] at hdiv
      rw [hdiv, Nat.add_sub_cancel_left]
    rw [hsplit, Nat.div_lt_iff_lt_mul hd]
  · have hdiv := Nat.div_le_div_right (c := d) hle
    have hone : d ≤ n * d := Nat.le_mul_of_pos_left d hn
    omega

lemma quotient_exact_iff {p d n : ℕ} (hd : 0 < d) :
    0 < p / d ∧ p / d ≤ n ∧ p ≤ d * (p / d) ↔ d ∣ p ∧ 0 < p ∧ p ≤ d * n := by
  have hdivmod := Nat.div_add_mod p d
  constructor
  · intro h
    have hp : d * (p / d) = p := by omega
    have hle : d * (p / d) ≤ d * n := Nat.mul_le_mul_left d h.2.1
    have hpos : 0 < d * (p / d) := Nat.mul_pos hd h.1
    exact ⟨⟨p / d, hp.symm⟩, by omega, by omega⟩
  · intro h
    obtain ⟨k, rfl⟩ := h.1
    have hk : 0 < k := Nat.pos_of_mul_pos_left h.2.1
    have hkn : k ≤ n := Nat.le_of_mul_le_mul_left h.2.2 hd
    rw [Nat.mul_div_cancel_left k hd]
    exact ⟨hk, hkn, Nat.le_refl _⟩

/-! ### Rounded quotients -/

/-- Half of the divisor, added first, rounds a quotient to the nearest integer. -/
lemma round_natCast_div (a : ℕ) {b : ℕ} (hb : 0 < b) :
    round ((a : ℚ) / b) = ((a + b / 2) / b : ℕ) := by
  have hpos : (0 : ℚ) < b := Nat.cast_pos.mpr hb
  have hmod := Nat.mod_lt (a + b / 2) hb
  have hdiv := Nat.div_add_mod (a + b / 2) b
  have hlow : 2 * (b * ((a + b / 2) / b)) ≤ 2 * a + b := by omega
  have hhigh : 2 * a < 2 * (b * ((a + b / 2) / b)) + b := by omega
  have hlow' : (2 * (b * ((a + b / 2) / b : ℕ)) : ℚ) ≤ 2 * a + b := by exact_mod_cast hlow
  have hhigh' : (2 * a : ℚ) < 2 * (b * ((a + b / 2) / b : ℕ)) + b := by exact_mod_cast hhigh
  rw [round_eq_iff, Set.mem_Ico, le_div_iff₀ hpos, div_lt_iff₀ hpos, Int.cast_natCast]
  constructor
  · linarith
  · linarith

end Quotients
