import Mathlib.Data.List.Infix
import Mathlib.Data.Nat.Find

/-!
# Searches that read the text once

Such a search keeps, for every pattern, how much of it the text ends with so far. What this becomes
with the next item can be told from the pattern alone: a shorter beginning that the text ends with
is one that the longest ends with, a border of it.
-/

namespace Search

variable {α : Type*} [DecidableEq α] {pat text : List α} {c : α}

/-- The length of the longest beginning of the pattern that the text ends with. -/
def longestEnd (pat text : List α) : ℕ :=
  Nat.findGreatest (fun j => pat.take j <:+ text) pat.length

lemma longestEnd_le (pat text : List α) : longestEnd pat text ≤ pat.length :=
  Nat.findGreatest_le _

lemma take_longestEnd_suffix (pat text : List α) :
    pat.take (longestEnd pat text) <:+ text := by
  have hempty : pat.take 0 <:+ text := List.nil_suffix
  exact Nat.findGreatest_spec (P := fun j => pat.take j <:+ text) (Nat.zero_le _) hempty

lemma le_longestEnd {j : ℕ} (hj : j ≤ pat.length) (h : pat.take j <:+ text) :
    j ≤ longestEnd pat text :=
  Nat.le_findGreatest hj h

@[simp] lemma longestEnd_nil (pat : List α) : longestEnd pat [] = 0 := by
  have h := take_longestEnd_suffix pat []
  rw [List.suffix_nil, List.take_eq_nil_iff] at h
  rcases h with h | h
  · exact h
  · exact Nat.le_zero.mp (by simpa [h] using longestEnd_le pat [])

lemma longestEnd_eq_length_iff : longestEnd pat text = pat.length ↔ pat <:+ text := by
  constructor
  · intro h
    have hsuffix := take_longestEnd_suffix pat text
    rwa [h, List.take_length] at hsuffix
  · intro h
    rw [← List.take_length (l := pat)] at h
    exact le_antisymm (longestEnd_le pat text) (le_longestEnd le_rfl h)

omit [DecidableEq α] in
lemma take_succ_suffix_concat_iff {j : ℕ} (hj : j < pat.length) :
    pat.take (j + 1) <:+ text ++ [c] ↔ pat.take j <:+ text ∧ pat[j]? = some c := by
  rw [List.take_succ_eq_append_getElem hj, List.getElem?_eq_getElem hj]
  constructor
  · rintro ⟨front, hfront⟩
    rw [← List.append_assoc] at hfront
    obtain ⟨hfront, hc⟩ := List.append_inj' hfront rfl
    exact ⟨⟨front, hfront⟩, congrArg some (List.singleton_inj.mp hc)⟩
  · rintro ⟨⟨front, hfront⟩, hc⟩
    refine ⟨front, ?_⟩
    rw [← hfront, Option.some.inj hc, List.append_assoc]

/-- A beginning that the text ends with was one shorter before the last item. -/
lemma of_longestEnd_concat {j : ℕ} (h : longestEnd pat (text ++ [c]) = j + 1) :
    j ≤ longestEnd pat text ∧ pat[j]? = some c := by
  have hj : j < pat.length := by
    have hle := longestEnd_le pat (text ++ [c])
    omega
  have hsuffix := take_longestEnd_suffix pat (text ++ [c])
  rw [h, take_succ_suffix_concat_iff hj] at hsuffix
  exact ⟨le_longestEnd hj.le hsuffix.1, hsuffix.2⟩

lemma longestEnd_concat_match (h : pat[longestEnd pat text]? = some c) :
    longestEnd pat (text ++ [c]) = longestEnd pat text + 1 := by
  have hlt : longestEnd pat text < pat.length := (List.getElem?_eq_some_iff.mp h).1
  apply le_antisymm
  · cases hnew : longestEnd pat (text ++ [c]) with
    | zero => exact Nat.zero_le _
    | succ j => exact Nat.succ_le_succ (of_longestEnd_concat hnew).1
  · exact le_longestEnd hlt ((take_succ_suffix_concat_iff hlt).mpr
      ⟨take_longestEnd_suffix pat text, h⟩)

/-- Where the next item does not fit, only shorter beginnings can be followed by it. -/
lemma longestEnd_concat_mismatch (hlt : longestEnd pat text < pat.length)
    (h : pat[longestEnd pat text]? ≠ some c) : longestEnd pat (text ++ [c]) =
      Nat.findGreatest (fun j => pat.take j <:+ text ++ [c]) (longestEnd pat text) := by
  have hle : longestEnd pat (text ++ [c]) ≤ longestEnd pat text := by
    cases hnew : longestEnd pat (text ++ [c]) with
    | zero => exact Nat.zero_le _
    | succ j =>
      obtain ⟨hj, hc⟩ := of_longestEnd_concat hnew
      have hne : j ≠ longestEnd pat text := by
        rintro rfl
        exact h hc
      omega
  apply le_antisymm
  · exact Nat.le_findGreatest hle (take_longestEnd_suffix pat (text ++ [c]))
  · exact Nat.findGreatest_mono_right _ hlt.le

omit [DecidableEq α] in
/-- A beginning of a pattern that a longer one ends with repeats it at their distance. -/
lemma take_suffix_take_iff {j k : ℕ} (hj : j ≤ k) (hk : k ≤ pat.length) :
    pat.take j <:+ pat.take k ↔ ∀ i < j, pat[i]? = pat[i + (k - j)]? := by
  have hlen : (pat.take k).length - (pat.take j).length = k - j := by
    rw [List.length_take, List.length_take]
    omega
  rw [List.suffix_iff_eq_drop, hlen]
  constructor
  · intro h i hi
    have hi' := congrArg (fun l : List α => l[i]?) h
    simp only [List.getElem?_take, List.getElem?_drop, if_pos hi] at hi'
    rw [hi', if_pos (by omega), Nat.add_comm]
  · intro h
    apply List.ext_getElem?
    intro i
    simp only [List.getElem?_take, List.getElem?_drop]
    by_cases hi : i < j
    · rw [if_pos hi, if_pos (by omega), h i hi, Nat.add_comm]
    · rw [if_neg hi, if_neg (by omega)]

lemma take_suffix_iff {j : ℕ} (hj : j ≤ longestEnd pat text) : pat.take j <:+ text ↔
    ∀ i < j, pat[i]? = pat[i + (longestEnd pat text - j)]? := by
  have hk := longestEnd_le pat text
  rw [← take_suffix_take_iff hj hk]
  constructor
  · intro h
    apply List.suffix_of_suffix_length_le h (take_longestEnd_suffix pat text)
    rw [List.length_take, List.length_take]
    omega
  · exact fun h => h.trans (take_longestEnd_suffix pat text)

section Several

/-! ### The first of several patterns -/

omit [DecidableEq α]

lemma infix_iff_ends : pat <:+: text ↔ ∃ e ≤ text.length, pat <:+ text.take e := by
  rw [List.infix_iff_suffix_prefix]
  constructor
  · rintro ⟨front, hends, hfront⟩
    refine ⟨front.length, hfront.length_le, ?_⟩
    rwa [← List.prefix_iff_eq_take.mp hfront]
  · rintro ⟨e, -, hends⟩
    exact ⟨text.take e, hends, List.take_prefix e text⟩

/-- At `e` an occurrence ends, earlier none does, and the first pattern of which one ends there is
the one at `i`. -/
structure FirstEnd (pats : List (List α)) (text : List α) (i e : ℕ) : Prop where
  within : e ≤ text.length
  occurs : ∃ pat, pats[i]? = some pat ∧ pat <:+ text.take e
  earliest : ∀ e' < e, ∀ pat ∈ pats, ¬pat <:+ text.take e'
  lowest : ∀ i' < i, ∀ pat, pats[i']? = some pat → ¬pat <:+ text.take e

lemma exists_firstEnd {pats : List (List α)} (h : ∃ pat ∈ pats, pat <:+: text) :
    ∃ i e, FirstEnd pats text i e := by
  classical
  have hends : ∃ e, e ≤ text.length ∧ ∃ pat ∈ pats, pat <:+ text.take e := by
    obtain ⟨pat, hpat, hinfix⟩ := h
    obtain ⟨e, he, hsuffix⟩ := infix_iff_ends.mp hinfix
    exact ⟨e, he, pat, hpat, hsuffix⟩
  obtain ⟨hwithin, pat, hpat, hsuffix⟩ := Nat.find_spec hends
  have hlow : ∃ i : ℕ, ∃ pat, pats[i]? = some pat ∧ pat <:+ text.take (Nat.find hends) := by
    obtain ⟨i, hi⟩ := List.getElem?_of_mem hpat
    exact ⟨i, pat, hi, hsuffix⟩
  refine ⟨Nat.find hlow, Nat.find hends, hwithin, Nat.find_spec hlow, ?_, ?_⟩
  · intro e he pat hpat hsuffix
    exact Nat.find_min hends he ⟨by omega, pat, hpat, hsuffix⟩
  · intro i hi pat hpat hsuffix
    exact Nat.find_min hlow hi ⟨pat, hpat, hsuffix⟩

end Several

end Search
