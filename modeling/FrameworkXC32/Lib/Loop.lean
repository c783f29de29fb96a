import Mathlib.Data.List.Basic

/-!
# Loops

A loop is given by its round: from a state it is in, the round goes on to the next state, leaves
with a result, or fails. `visited` are the states in which the rounds of a run begin.
-/

namespace Loop

variable {σ ρ : Type*} (round : σ → Option (σ ⊕ ρ))

def run : ℕ → σ → Option ρ
  | 0, _ => none
  | fuel + 1, s => (round s).bind fun r =>
    match r with
    | .inl t => run fuel t
    | .inr r => some r

def visited : ℕ → σ → List σ
  | 0, _ => []
  | fuel + 1, s => s ::
    match round s with
    | some (.inl t) => visited fuel t
    | _ => []

variable {round} {Inv : σ → Prop} {Q : ρ → Prop}

/-- Partial correctness: a result that is returned is a good one. -/
theorem run_partial (hnext : ∀ s t, Inv s → round s = some (.inl t) → Inv t)
    (hend : ∀ s r, Inv s → round s = some (.inr r) → Q r) {s : σ} (hs : Inv s) {fuel : ℕ} {r : ρ}
    (hr : run round fuel s = some r) : Q r := by
  induction fuel generalizing s with
  | zero => cases hr
  | succ fuel ih =>
    rw [run] at hr
    cases hround : round s with
    | none =>
      rw [hround] at hr
      cases hr
    | some x =>
      rw [hround] at hr
      cases x with
      | inl t => exact ih (hnext s t hs hround) hr
      | inr q =>
        cases hr
        exact hend s r hs hround

theorem visited_invariant (hnext : ∀ s t, Inv s → round s = some (.inl t) → Inv t) {s : σ}
    (hs : Inv s) (fuel : ℕ) : ∀ t ∈ visited round fuel s, Inv t := by
  induction fuel generalizing s with
  | zero => exact fun t ht => absurd ht List.not_mem_nil
  | succ fuel ih =>
    intro t ht
    rcases List.mem_cons.mp ht with rfl | ht
    · exact hs
    · cases hround : round s with
      | none => simp [hround] at ht
      | some x =>
        cases x with
        | inl u =>
          rw [hround] at ht
          exact ih (hnext s u hs hround) t ht
        | inr r => simp [hround] at ht

lemma exists_visited_of_run {s : σ} {fuel : ℕ} {r : ρ} (h : run round fuel s = some r) :
    ∃ t ∈ visited round fuel s, round t = some (.inr r) := by
  induction fuel generalizing s with
  | zero => cases h
  | succ fuel ih =>
    obtain ⟨x, hx, hr⟩ := Option.bind_eq_some_iff.mp h
    cases x with
    | inl t =>
      obtain ⟨u, hu, hround⟩ := ih hr
      refine ⟨u, ?_, hround⟩
      rw [visited, hx]
      exact List.mem_cons_of_mem s hu
    | inr q =>
      cases hr
      exact ⟨s, List.mem_cons_self, hx⟩

lemma run_once {s : σ} {r : ρ} (h : round s = some (.inr r)) (fuel : ℕ) :
    run round (fuel + 1) s = some r ∧ ∀ q ∈ visited round (fuel + 1) s, q = s := by
  constructor
  · rw [run, h]
    rfl
  · intro q hq
    simpa [visited, h] using hq

lemma run_twice {s t : σ} {r : ρ} (h : round s = some (.inl t)) (h' : round t = some (.inr r))
    (fuel : ℕ) : run round (fuel + 2) s = some r ∧
      ∀ q ∈ visited round (fuel + 2) s, q = s ∨ q = t := by
  constructor
  · rw [run, h, Option.bind_some]
    exact (run_once h' fuel).1
  · intro q hq
    simpa [visited, h, h'] using hq

section Total

variable (μ : σ → ℕ) (hround : ∀ s, Inv s → (∃ r, round s = some (.inr r) ∧ Q r) ∨
  ∃ t, round s = some (.inl t) ∧ Inv t ∧ μ t < μ s)
include hround

/-- Total correctness: every round from a state with the invariant leaves with a good result or
goes on, with the invariant and a smaller variant. -/
theorem run_total {s : σ} (hs : Inv s) {fuel : ℕ} (hfuel : μ s < fuel) :
    ∃ r, run round fuel s = some r ∧ Q r := by
  induction fuel generalizing s with
  | zero => exact absurd hfuel (Nat.not_lt_zero _)
  | succ fuel ih =>
    rw [run]
    rcases hround s hs with ⟨r, hr, hQ⟩ | ⟨t, ht, hInv, hlt⟩
    · exact ⟨r, by rw [hr]; rfl, hQ⟩
    · rw [ht]
      exact ih hInv (by omega)

theorem visited_total {s : σ} (hs : Inv s) (fuel : ℕ) : ∀ t ∈ visited round fuel s, Inv t := by
  apply visited_invariant _ hs
  intro s t hs ht
  rcases hround s hs with ⟨r, hr, -⟩ | ⟨u, hu, hInv, -⟩
  · rw [hr] at ht
    cases ht
  · rw [hu] at ht
    cases ht
    exact hInv

end Total

end Loop
