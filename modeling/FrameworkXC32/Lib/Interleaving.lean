import Mathlib.Data.List.Basic

/-!
# Programs that run in turns

Any number of programs take their steps in some order. A run is the list of the steps, each with
the program that takes it. Where the state is observed as a family of cells and a step acts on each
of them by itself, a cell that only one program touches ends as if that program had run alone.
-/

namespace Interleaving

variable {σ α ι κ β : Type*} [DecidableEq ι]

/-- The steps of one program in their order. -/
def programOf (i : ι) (run : List (ι × α)) : List α :=
  (run.filter fun step => step.1 = i).map Prod.snd

/-- The steps of all programs in their order. -/
def steps (run : List (ι × α)) : List α := run.map Prod.snd

variable {observe : σ → κ → β} {next : σ → α → σ} {act : α → κ → β → β}

omit [DecidableEq ι] in
lemma observe_foldl (h : ∀ s a k, observe (next s a) k = act a k (observe s k)) (s : σ) (as : List α)
    (k : κ) : observe (as.foldl next s) k = as.foldl (fun v a => act a k v) (observe s k) := by
  induction as generalizing s with
  | nil => rfl
  | cons a as ih => rw [List.foldl_cons, List.foldl_cons, ih, h]

lemma foldl_programOf {i : ι} {k : κ} {run : List (ι × α)}
    (h : ∀ step ∈ run, step.1 ≠ i → ∀ v, act step.2 k v = v) (v : β) :
    (steps run).foldl (fun v a => act a k v) v =
      (programOf i run).foldl (fun v a => act a k v) v := by
  induction run generalizing v with
  | nil => rfl
  | cons step run ih =>
    obtain ⟨hstep, hrun⟩ := List.forall_mem_cons.mp h
    unfold steps programOf at ih ⊢
    rw [List.map_cons, List.foldl_cons, ih hrun]
    by_cases howner : step.1 = i
    · rw [List.filter_cons, if_pos (decide_eq_true howner), List.map_cons, List.foldl_cons]
    · rw [List.filter_cons, if_neg (by simpa using howner), hstep howner]

/-- Whatever the others do in between, a cell that only the program `i` touches holds what that
program alone would leave in it. -/
theorem observe_run (h : ∀ s a k, observe (next s a) k = act a k (observe s k)) (s : σ) {i : ι}
    {k : κ} {run : List (ι × α)} (honly : ∀ step ∈ run, step.1 ≠ i → ∀ v, act step.2 k v = v) :
    observe ((steps run).foldl next s) k = observe ((programOf i run).foldl next s) k := by
  rw [observe_foldl h, observe_foldl h, foldl_programOf honly]

end Interleaving
