import Mathlib.Data.List.Basic
import Mathlib.Data.Nat.Notation
import Mathlib.Tactic.Lemma

/-!
# The level of a line

A line is driven by a list of events, each of which sets its level at a time. Between two events
the level stays as it is. A frame is a list of levels that are held for a period each.
-/

namespace Wave

/-- A time and the level that the line has from then on. -/
abbrev Event := ℕ × Bool

/-- The level at time `t` of a line that starts at `level`; the events are in the order of time. -/
def levelAt : Bool → List Event → ℕ → Bool
  | level, [], _ => level
  | level, (u, v) :: es, t => if u ≤ t then levelAt v es t else level

/-- No event comes before time `t`. -/
def StartsAfter (t : ℕ) (es : List Event) : Prop := ∀ e ∈ es, t ≤ e.1

/-- The levels `vs` from time `u` on, each held for a period `T`. -/
def cells (T : ℕ) : ℕ → List Bool → List Event
  | _, [] => []
  | u, v :: vs => (u, v) :: cells T (u + T) vs

/-- The level behind a list of events. -/
def levelAfter : Bool → List Event → Bool
  | level, [] => level
  | _, (_, v) :: es => levelAfter v es

lemma StartsAfter.mono {t u : ℕ} (h : t ≤ u) {es : List Event} (hes : StartsAfter u es) :
    StartsAfter t es := fun e he => Nat.le_trans h (hes e he)

lemma StartsAfter.append {t : ℕ} {es fs : List Event} (hes : StartsAfter t es)
    (hfs : StartsAfter t fs) : StartsAfter t (es ++ fs) := by
  intro e he
  rcases List.mem_append.mp he with he | he
  · exact hes e he
  · exact hfs e he

lemma startsAfter_cells (T u : ℕ) (vs : List Bool) : StartsAfter u (cells T u vs) := by
  induction vs generalizing u with
  | nil => simp [StartsAfter, cells]
  | cons v vs ih =>
    intro e he
    rcases List.mem_cons.mp he with rfl | he
    · exact Nat.le_refl u
    · exact Nat.le_trans (Nat.le_add_right u T) (ih (u + T) e he)

lemma cells_append (T u : ℕ) (vs ws : List Bool) :
    cells T u (vs ++ ws) = cells T u vs ++ cells T (u + vs.length * T) ws := by
  induction vs generalizing u with
  | nil => simp [cells]
  | cons v vs ih =>
    have hend : u + (vs.length + 1) * T = u + T + vs.length * T := by
      rw [Nat.succ_mul]
      omega
    rw [List.cons_append, cells, ih, cells, List.cons_append, List.length_cons, hend]

lemma cells_before_end (T u : ℕ) (vs : List Bool) :
    ∀ e ∈ cells T u vs, e.1 + T ≤ u + vs.length * T := by
  induction vs generalizing u with
  | nil => simp [cells]
  | cons v vs ih =>
    intro e he
    rw [List.length_cons, Nat.succ_mul]
    rcases List.mem_cons.mp he with rfl | he
    · dsimp only
      omega
    · have hrest := ih (u + T) e he
      omega

lemma levelAfter_append (level : Bool) (es fs : List Event) :
    levelAfter level (es ++ fs) = levelAfter (levelAfter level es) fs := by
  induction es generalizing level with
  | nil => rfl
  | cons e es ih =>
    obtain ⟨u, v⟩ := e
    exact ih v

lemma levelAfter_cells (T u : ℕ) (vs : List Bool) (v level : Bool) :
    levelAfter level (cells T u (vs ++ [v])) = v := by
  rw [cells_append, levelAfter_append]
  rfl

lemma levelAt_before {t u : ℕ} (ht : t < u) {es : List Event} (hes : StartsAfter u es)
    (level : Bool) : levelAt level es t = level := by
  cases es with
  | nil => rfl
  | cons e es =>
    have he : u ≤ e.1 := hes e List.mem_cons_self
    exact if_neg (by omega)

/-- Events of the past count through the level that they leave. -/
lemma levelAt_append {es : List Event} {t : ℕ} (hes : ∀ e ∈ es, e.1 ≤ t) (level : Bool)
    (fs : List Event) : levelAt level (es ++ fs) t = levelAt (levelAfter level es) fs t := by
  induction es generalizing level with
  | nil => rfl
  | cons e es ih =>
    obtain ⟨u, v⟩ := e
    have hu : u ≤ t := hes (u, v) List.mem_cons_self
    rw [List.cons_append, levelAt, if_pos hu]
    exact ih (fun e he => hes e (List.mem_cons_of_mem _ he)) v

lemma levelAt_cells {T u t k : ℕ} {vs : List Bool} {v : Bool} (hv : vs[k]? = some v)
    (hlo : u + k * T ≤ t) (hhi : t < u + (k + 1) * T) {later : List Event}
    (hlater : StartsAfter (u + vs.length * T) later) (level : Bool) :
    levelAt level (cells T u vs ++ later) t = v := by
  induction vs generalizing u k level with
  | nil => simp at hv
  | cons w vs ih =>
    have hlater' : StartsAfter (u + T + vs.length * T) later := by
      rw [List.length_cons, Nat.add_mul, Nat.one_mul] at hlater
      exact hlater.mono (by omega)
    rw [cells, List.cons_append]
    cases k with
    | zero =>
      obtain rfl : w = v := by simpa using hv
      have hrest : StartsAfter (u + T) (cells T (u + T) vs ++ later) :=
        (startsAfter_cells T (u + T) vs).append (hlater'.mono (Nat.le_add_right _ _))
      rw [levelAt, if_pos (by omega)]
      exact levelAt_before (by omega) hrest w
    | succ k =>
      rw [List.getElem?_cons_succ] at hv
      have hmul : (k + 1) * T = k * T + T := Nat.succ_mul k T
      have hmul' : (k + 1 + 1) * T = (k + 1) * T + T := Nat.succ_mul (k + 1) T
      rw [levelAt, if_pos (by omega)]
      exact ih hv (by omega) (by omega) hlater' w

end Wave
