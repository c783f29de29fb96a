import FrameworkXC32.Lib.Runs
import Mathlib.Data.List.Basic
import Mathlib.Data.Option.Basic

/-!
# Independent cells

A system that is observed as a family of cells. An operation says of each cell whether it sets it,
and to what; the cells that it does not set keep their value. After a list of operations a cell
holds what the last operation that sets it has set, whatever happened to the other cells.
-/

namespace Cells

variable {σ α ι β γ : Type*}

/-- What the last operation that sets the cell `i` sets it to. -/
def last (sets : α → ι → Option β) : List α → ι → Option β
  | [], _ => none
  | a :: as, i => (last sets as i).or (sets a i)

section Last

variable (sets : α → ι → Option β)

@[simp] lemma last_nil (i : ι) : last sets [] i = none := rfl

lemma last_cons (a : α) (as : List α) (i : ι) :
    last sets (a :: as) i = (last sets as i).or (sets a i) := rfl

lemma last_append (as bs : List α) (i : ι) :
    last sets (as ++ bs) i = (last sets bs i).or (last sets as i) := by
  induction as with
  | nil =>
    rw [List.nil_append, last_nil, Option.or_none]
  | cons a as ih =>
    rw [List.cons_append, last_cons, ih, last_cons, Option.or_assoc]

lemma last_concat (as : List α) (a : α) (i : ι) :
    last sets (as ++ [a]) i = (sets a i).or (last sets as i) := by
  rw [last_append, last_cons, last_nil, Option.none_or]

lemma last_eq_none (as : List α) (i : ι) :
    last sets as i = none ↔ ∀ a ∈ as, sets a i = none := by
  induction as with
  | nil => simp
  | cons a as ih => rw [last_cons, Option.or_eq_none_iff, ih, List.forall_mem_cons, and_comm]

lemma exists_of_last {as : List α} {i : ι} {b : β} (h : last sets as i = some b) :
    ∃ a ∈ as, sets a i = some b := by
  induction as with
  | nil => cases h
  | cons a as ih =>
    rw [last_cons, Option.or_eq_some_iff] at h
    rcases h with htail | ⟨-, hhead⟩
    · obtain ⟨a', ha', hset⟩ := ih htail
      exact ⟨a', List.mem_cons_of_mem a ha', hset⟩
    · exact ⟨a, List.mem_cons_self, hhead⟩

lemma last_congr {κ : Type*} {sets' : α → κ → Option β} {i : ι} {j : κ} {as : List α}
    (h : ∀ a ∈ as, sets a i = sets' a j) : last sets as i = last sets' as j := by
  induction as with
  | nil => rfl
  | cons a as ih =>
    have htail := ih fun b hb => h b (List.mem_cons_of_mem a hb)
    rw [last_cons, last_cons, htail, h a List.mem_cons_self]

lemma last_map (f : β → γ) (as : List α) (i : ι) :
    last (fun a i => (sets a i).map f) as i = (last sets as i).map f := by
  induction as with
  | nil => rfl
  | cons a as ih => rw [last_cons, ih, last_cons, Option.map_or]

end Last

variable {sets : α → ι → Option β} {observe : σ → ι → β} {next : σ → α → σ}

/-- When every step sets the cells that its operation names and keeps the others, a cell holds
what was last set there, or its first value. -/
theorem observe_foldl (hstep : ∀ s a i, observe (next s a) i = (sets a i).getD (observe s i))
    (s : σ) (as : List α) (i : ι) :
    observe (as.foldl next s) i = (last sets as i).getD (observe s i) := by
  induction as generalizing s with
  | nil => rfl
  | cons a as ih => rw [List.foldl_cons, ih, hstep, last_cons, Option.getD_or]

/-- The same where steps may fail, after a run that none of them ends. -/
theorem observe_run {step : σ → α → Option σ}
    (hstep : ∀ s a t i, step s a = some t → observe t i = (sets a i).getD (observe s i))
    {s t : σ} {as : List α} (h : Runs.run step s as = some t) (i : ι) :
    observe t i = (last sets as i).getD (observe s i) := by
  induction as generalizing s with
  | nil =>
    cases h
    rfl
  | cons a as ih =>
    obtain ⟨u, hu, hut⟩ := (Runs.run_cons_some step).mp h
    rw [ih hut, hstep s a u i hu, last_cons, Option.getD_or]

/-- Operations that do not set a cell leave it as it is. -/
theorem observe_foldl_of_not_set
    (hstep : ∀ s a i, observe (next s a) i = (sets a i).getD (observe s i)) {as : List α} {i : ι}
    (has : ∀ a ∈ as, sets a i = none) (s : σ) : observe (as.foldl next s) i = observe s i := by
  rw [observe_foldl hstep, (last_eq_none sets as i).mpr has, Option.getD_none]

end Cells
