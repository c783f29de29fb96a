import Mathlib.Data.List.Infix

/-!
# Occurrences of a pattern in a list

A pattern occurs at `n` when it is a prefix of the list without its first `n` items. The first
occurrence, how many there are from left to right that do not overlap, and what comes of replacing
them from right to left.
-/

namespace Search

variable {α : Type*} [DecidableEq α]

def firstIn (pat : List α) : List α → Option ℕ
  | [] => if pat <+: [] then some 0 else none
  | a :: l => if pat <+: a :: l then some 0 else (firstIn pat l).map (· + 1)

/-- The occurrences from left to right, at most `fuel` of them. -/
def occurrencesIn (pat : List α) : ℕ → List α → ℕ
  | 0, _ => 0
  | fuel + 1, l =>
    match firstIn pat l with
    | none => 0
    | some n => occurrencesIn pat fuel (l.drop (n + pat.length)) + 1

def occurrences (pat l : List α) : ℕ := occurrencesIn pat (l.length + 1) l

/-- The occurrences from left to right are replaced, at most `fuel` of them. -/
def replaceLeftIn (pat new : List α) : ℕ → List α → List α
  | 0, l => l
  | fuel + 1, l =>
    match firstIn pat l with
    | none => l
    | some n => l.take n ++ new ++ replaceLeftIn pat new fuel (l.drop (n + pat.length))

/-- The occurrences that start before `bound` are replaced, the last one first. What has been
replaced is searched again as far as it lies before the next bound. -/
def replaceRight (pat new : List α) : ℕ → List α → List α
  | 0, l => l
  | bound + 1, l =>
    if pat <+: l.drop bound then
      replaceRight pat new bound (l.take bound ++ new ++ l.drop (bound + pat.length))
    else replaceRight pat new bound l

lemma firstIn_some {pat l : List α} {n : ℕ} (h : firstIn pat l = some n) :
    pat <+: l.drop n ∧ ∀ m, m < n → ¬pat <+: l.drop m := by
  induction l generalizing n with
  | nil =>
    rw [firstIn] at h
    split at h
    · rename_i hpat
      cases h
      exact ⟨hpat, fun m hm => absurd hm (Nat.not_lt_zero m)⟩
    · cases h
  | cons a l ih =>
    rw [firstIn] at h
    split at h
    · rename_i hpat
      cases h
      exact ⟨hpat, fun m hm => absurd hm (Nat.not_lt_zero m)⟩
    · rename_i hpat
      obtain ⟨k, hk, rfl⟩ := Option.map_eq_some_iff.mp h
      obtain ⟨hat, hbefore⟩ := ih hk
      refine ⟨hat, ?_⟩
      intro m hm
      cases m with
      | zero => exact hpat
      | succ m => exact hbefore m (by omega)

lemma firstIn_none {pat l : List α} (h : firstIn pat l = none) (n : ℕ) : ¬pat <+: l.drop n := by
  induction l generalizing n with
  | nil =>
    rw [firstIn] at h
    split at h
    · cases h
    · rename_i hpat
      rwa [List.drop_nil]
  | cons a l ih =>
    rw [firstIn] at h
    split at h
    · cases h
    · rename_i hpat
      cases n with
      | zero => exact hpat
      | succ n => exact ih (Option.map_eq_none_iff.mp h) n

omit [DecidableEq α] in
lemma le_of_occurs {pat l : List α} {n : ℕ} (hpat : pat ≠ []) (h : pat <+: l.drop n) :
    n + pat.length ≤ l.length := by
  have hle := h.length_le
  have hpos := List.length_pos_of_ne_nil hpat
  rw [List.length_drop] at hle
  omega

lemma length_rest_lt {pat l : List α} {n : ℕ} (hpat : pat ≠ []) (h : firstIn pat l = some n) :
    (l.drop (n + pat.length)).length < l.length := by
  have hle := le_of_occurs hpat (firstIn_some h).1
  have hpos := List.length_pos_of_ne_nil hpat
  rw [List.length_drop]
  omega

lemma occurrencesIn_eq {pat : List α} (hpat : pat ≠ []) {fuel fuel' : ℕ} {l : List α}
    (h : l.length < fuel) (h' : l.length < fuel') :
    occurrencesIn pat fuel l = occurrencesIn pat fuel' l := by
  induction fuel generalizing fuel' l with
  | zero => exact absurd h (Nat.not_lt_zero _)
  | succ fuel ih =>
    cases fuel' with
    | zero => exact absurd h' (Nat.not_lt_zero _)
    | succ fuel' =>
      rw [occurrencesIn, occurrencesIn]
      cases hfirst : firstIn pat l with
      | none => rfl
      | some n =>
        have hlt := length_rest_lt hpat hfirst
        dsimp only
        have hrest : (l.drop (n + pat.length)).length < fuel' := by omega
        rw [ih (by omega) hrest]

/-- The last of the occurrences that start before a bound, `-1` when there is none. -/
def IsLast (pat l : List α) (bound : ℕ) (found : ℤ) : Prop :=
  (found = -1 ∧ ∀ q, q < bound → ¬pat <+: l.drop q) ∨
    ∃ i : ℕ, found = i ∧ i < bound ∧ pat <+: l.drop i ∧
      ∀ q, i < q → q < bound → ¬pat <+: l.drop q

omit [DecidableEq α] in
lemma IsLast.extend {pat l : List α} {bound bound' : ℕ} {found : ℤ}
    (h : IsLast pat l bound found) (hle : bound ≤ bound')
    (hnone : ∀ q, bound ≤ q → q < bound' → ¬pat <+: l.drop q) : IsLast pat l bound' found := by
  rcases h with ⟨rfl, hno⟩ | ⟨i, rfl, hi, hat, hno⟩
  · refine .inl ⟨rfl, fun q hq => ?_⟩
    by_cases hlt : q < bound
    · exact hno q hlt
    · exact hnone q (by omega) hq
  · refine .inr ⟨i, rfl, by omega, hat, fun q hiq hq => ?_⟩
    by_cases hlt : q < bound
    · exact hno q hiq hlt
    · exact hnone q (by omega) hq

lemma firstIn_nil {pat : List α} (hpat : pat ≠ []) : firstIn pat [] = none := by
  rw [firstIn, if_neg]
  rwa [List.prefix_nil]

lemma replaceRight_skip {pat : List α} (new : List α) {l : List α} {j k : ℕ} (hjk : j ≤ k)
    (h : ∀ p, j ≤ p → p < k → ¬pat <+: l.drop p) :
    replaceRight pat new k l = replaceRight pat new j l := by
  induction k with
  | zero =>
    rw [Nat.le_zero.mp hjk]
  | succ k ih =>
    by_cases heq : j = k + 1
    · rw [heq]
    · rw [replaceRight, if_neg (h k (by omega) (Nat.lt_succ_self k))]
      exact ih (by omega) fun p hp hlt => h p hp (by omega)

lemma replaceRight_at {pat : List α} (new : List α) {l : List α} {n : ℕ} (h : pat <+: l.drop n) :
    replaceRight pat new (n + 1) l =
      replaceRight pat new n (l.take n ++ new ++ l.drop (n + pat.length)) := by
  rw [replaceRight, if_pos h]

omit [DecidableEq α] in
lemma length_replaced {pat : List α} (new : List α) {l : List α} {n : ℕ}
    (h : n + pat.length ≤ l.length) :
    (l.take n ++ new ++ l.drop (n + pat.length)).length + pat.length =
      l.length + new.length := by
  rw [List.length_append, List.length_append, List.length_take, List.length_drop]
  omega

lemma length_le_replaceRight {pat new : List α} (hpat : pat ≠ []) (hle : pat.length ≤ new.length)
    (k : ℕ) (l : List α) : l.length ≤ (replaceRight pat new k l).length := by
  induction k generalizing l with
  | zero => exact Nat.le_refl _
  | succ k ih =>
    rw [replaceRight]
    split
    · rename_i hocc
      have hlen := length_replaced new (le_of_occurs hpat hocc)
      have hrest := ih (l.take k ++ new ++ l.drop (k + pat.length))
      omega
    · exact ih l

omit [DecidableEq α] in
lemma notMem_replaced {a : α} {l new : List α} (hl : a ∉ l) (hnew : a ∉ new) (n m : ℕ) :
    a ∉ l.take n ++ new ++ l.drop m := by
  intro h
  rcases List.mem_append.mp h with h | h
  · rcases List.mem_append.mp h with h | h
    · exact hl (List.mem_of_mem_take h)
    · exact hnew h
  · exact hl (List.mem_of_mem_drop h)

end Search
