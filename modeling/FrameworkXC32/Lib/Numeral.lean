import Mathlib.Data.List.Induction
import Mathlib.Data.Nat.Digits.Defs

/-!
# Numerals

The digits of a number in a base, most significant first and without leading zeros, and the value of
a list of digits.
-/

namespace Numeral

/-- The number zero has one digit. -/
def numeral (base n : ℕ) : List ℕ := if n = 0 then [0] else (Nat.digits base n).reverse

def value (base : ℕ) (ds : List ℕ) : ℕ := ds.foldl (fun v d => v * base + d) 0

@[simp] lemma value_nil (base : ℕ) : value base [] = 0 := rfl

lemma value_concat (base : ℕ) (ds : List ℕ) (d : ℕ) :
    value base (ds ++ [d]) = value base ds * base + d := by
  rw [value, List.foldl_append]
  rfl

lemma value_le_append {base : ℕ} (hpos : 1 ≤ base) (ds es : List ℕ) :
    value base ds ≤ value base (ds ++ es) := by
  induction es using List.reverseRecOn with
  | nil => rw [List.append_nil]
  | append_singleton es e ih =>
    rw [← List.append_assoc, value_concat]
    calc value base ds ≤ value base (ds ++ es) := ih
      _ ≤ value base (ds ++ es) * base := Nat.le_mul_of_pos_right _ hpos
      _ ≤ value base (ds ++ es) * base + e := Nat.le_add_right _ _

variable {base : ℕ}

lemma numeral_of_lt {n : ℕ} (h : n < base) : numeral base n = [n] := by
  unfold numeral
  by_cases hn : n = 0
  · rw [if_pos hn, hn]
  · rw [if_neg hn, Nat.digits_of_lt base n hn h, List.reverse_singleton]

variable (hbase : 2 ≤ base)
include hbase

lemma numeral_of_le {n : ℕ} (h : base ≤ n) :
    numeral base n = numeral base (n / base) ++ [n % base] := by
  have hn : 0 < n := by omega
  have hquot : n / base ≠ 0 := Nat.ne_of_gt (Nat.div_pos h (by omega))
  unfold numeral
  rw [if_neg (Nat.ne_of_gt hn), if_neg hquot, Nat.digits_def' hbase hn, List.reverse_cons]

/-- An induction along the digits of a number. -/
lemma numeral_induction {P : ℕ → Prop} (small : ∀ n < base, P n)
    (more : ∀ n, base ≤ n → P (n / base) → P n) (n : ℕ) : P n := by
  induction n using Nat.strong_induction_on with
  | _ n ih =>
    by_cases h : n < base
    · exact small n h
    · exact more n (by omega) (ih (n / base) (Nat.div_lt_self (by omega) hbase))

theorem value_numeral (n : ℕ) : value base (numeral base n) = n := by
  induction n using numeral_induction hbase with
  | small n h =>
    rw [numeral_of_lt h, ← List.nil_append [n], value_concat, value_nil, Nat.zero_mul,
      Nat.zero_add]
  | more n h ih =>
    rw [numeral_of_le hbase h, value_concat, ih]
    exact Nat.div_add_mod' n base

lemma lt_of_mem_numeral {n d : ℕ} (hd : d ∈ numeral base n) : d < base := by
  induction n using numeral_induction hbase with
  | small n h =>
    rw [numeral_of_lt h, List.mem_singleton] at hd
    omega
  | more n h ih =>
    rw [numeral_of_le hbase h, List.mem_append, List.mem_singleton] at hd
    rcases hd with hd | rfl
    · exact ih hd
    · exact Nat.mod_lt n (by omega)

lemma numeral_ne_nil (n : ℕ) : numeral base n ≠ [] := by
  induction n using numeral_induction hbase with
  | small n h =>
    rw [numeral_of_lt h]
    exact List.cons_ne_nil _ _
  | more n h _ =>
    rw [numeral_of_le hbase h]
    simp

lemma head_numeral {n : ℕ} (hn : n ≠ 0) : (numeral base n).head? ≠ some 0 := by
  induction n using numeral_induction hbase with
  | small n h =>
    rw [numeral_of_lt h]
    simpa using hn
  | more n h ih =>
    have hquot : n / base ≠ 0 := Nat.ne_of_gt (Nat.div_pos h (by omega))
    rw [numeral_of_le hbase h]
    cases hds : numeral base (n / base) with
    | nil => exact absurd hds (numeral_ne_nil hbase _)
    | cons d ds =>
      rw [hds] at ih
      exact ih hquot

lemma length_numeral_le {k n : ℕ} (hk : 0 < k) (h : n < base ^ k) :
    (numeral base n).length ≤ k := by
  induction n using numeral_induction hbase generalizing k with
  | small n hn =>
    rw [numeral_of_lt hn]
    exact hk
  | more n hn ih =>
    obtain ⟨k, rfl⟩ : ∃ j, k = j + 1 := Nat.exists_eq_succ_of_ne_zero (by omega)
    have hlt : n / base < base ^ k := by
      rw [Nat.div_lt_iff_lt_mul (by omega), ← Nat.pow_succ]
      exact h
    have hpos : 0 < k := by
      by_contra hzero
      obtain rfl : k = 0 := by omega
      have hquot := Nat.div_pos hn (by omega)
      rw [Nat.pow_zero] at hlt
      omega
    rw [numeral_of_le hbase hn, List.length_append]
    exact Nat.succ_le_succ (ih hpos hlt)

end Numeral
