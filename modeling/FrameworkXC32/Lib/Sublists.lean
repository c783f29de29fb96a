import Mathlib.Data.List.Nodup
import Mathlib.Tactic.Push

/-!
# Parts of a list without repetitions

The entries of a list without repetitions that lie in a sublist of it are that sublist.
-/

namespace Sublists

variable {α : Type*} [DecidableEq α] {l l' : List α}

lemma filter_mem_eq (h : l'.Sublist l) (hl : l.Nodup) : l.filter (fun a => a ∈ l') = l' := by
  induction h with
  | slnil => rfl
  | @cons m l a hml ih =>
    obtain ⟨ha, hl⟩ := List.nodup_cons.mp hl
    have hnot : a ∉ m := fun ham => ha (hml.subset ham)
    rw [List.filter_cons_of_neg (by simpa using hnot)]
    exact ih hl
  | @cons_cons m l a hml ih =>
    obtain ⟨ha, hl⟩ := List.nodup_cons.mp hl
    rw [List.filter_cons_of_pos (by simp)]
    congr 1
    rw [← ih hl]
    apply List.filter_congr
    intro b hb
    have hba : b ≠ a := fun h => ha (h ▸ hb)
    simp [hba, ih hl]

lemma filter_mem_append {m m' : List α} (h : l'.Sublist l) (h' : m'.Sublist m)
    (hnodup : (l ++ m).Nodup) : l.filter (fun a => a ∈ l' ++ m') = l' := by
  obtain ⟨hl, -, hdisjoint⟩ := List.nodup_append.mp hnodup
  rw [← filter_mem_eq h hl]
  apply List.filter_congr
  intro a ha
  have hnot : a ∉ m' := fun ham => hdisjoint a ha a (h'.subset ham) rfl
  simp [hnot, filter_mem_eq h hl]

lemma filter_mem_of_subset {n : List α} (h : l' ⊆ l) :
    n.filter (fun a => a ∈ l') = (n.filter fun a => a ∈ l).filter fun a => a ∈ l' := by
  rw [List.filter_filter]
  apply List.filter_congr
  intro a _
  by_cases ha : a ∈ l'
  · simp [ha, h ha]
  · simp [ha]

omit [DecidableEq α] in
lemma eraseP_around {P : α → Bool} {a : α} {m : List α} (h : (l ++ a :: m).find? P ≠ some a) :
    ∃ k k', k.Sublist l ∧ k'.Sublist m ∧ (l ++ a :: m).eraseP P = k ++ a :: k' := by
  by_cases hbefore : ∃ b ∈ l, P b = true
  · obtain ⟨b, hb, hPb⟩ := hbefore
    exact ⟨l.eraseP P, m, List.eraseP_sublist, List.Sublist.refl m,
      List.eraseP_append_left hPb (a :: m) hb⟩
  · push Not at hbefore
    have ha : ¬ P a = true := by
      intro hPa
      apply h
      rw [List.find?_append, List.find?_eq_none.mpr hbefore, List.find?_cons_of_pos hPa]
      rfl
    refine ⟨l, m.eraseP P, List.Sublist.refl l, List.eraseP_sublist, ?_⟩
    rw [List.eraseP_append_right (a :: m) hbefore, List.eraseP_cons_of_neg ha]

end Sublists
