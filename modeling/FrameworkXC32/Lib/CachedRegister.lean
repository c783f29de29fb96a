import Mathlib.Data.List.Infix
import Mathlib.Data.List.Induction
import Mathlib.Data.Nat.Notation
import Mathlib.Tactic.Lemma

/-!
# A register behind a cache

A driver remembers the setting it has programmed last and skips a write that asks for the same one
again. Another operation loads the register with a preset and leaves the cache as it is.
-/

namespace CachedRegister

variable {κ ρ : Type*}

inductive Op (κ : Type*)
  /-- A setting is asked for. -/
  | put (k : κ)
  /-- The preset is loaded. -/
  | preset
  | other
deriving DecidableEq

structure State (κ ρ : Type*) where
  cached : κ
  register : ρ

/-- The setting that an operation asks for. -/
def Op.setting : Op κ → Option κ
  | put k => some k
  | preset => none
  | other => none

/-- The setting asked for last. -/
def lastPut (ops : List (Op κ)) : Option κ := (ops.filterMap Op.setting).getLast?

lemma lastPut_concat (ops : List (Op κ)) (op : Op κ) :
    lastPut (ops ++ [op]) = op.setting.or (lastPut ops) := by
  unfold lastPut
  rw [List.filterMap_append, List.getLast?_append]
  cases op <;> rfl

variable [DecidableEq κ] (code : κ → ρ) (preset : ρ)

def next (s : State κ ρ) : Op κ → State κ ρ
  | .put k => if s.cached ≠ k then ⟨k, code k⟩ else s
  | .preset => { s with register := preset }
  | .other => s

/-- The register shows the setting asked for last, and so does the cache. -/
def Shown (s : State κ ρ) (last : Option κ) : Prop :=
  ∀ k, last = some k → s.cached = k ∧ s.register = code k

/-- What a driver with such a cache relies on: the last setting is in force, and a write is skipped
only where it makes no difference. -/
structure Survives (s : State κ ρ) (ops : List (Op κ)) : Prop where
  shown : ∀ done, done <+: ops → Shown code (done.foldl (next code preset) s) (lastPut done)
  skips : ∀ done k, done ++ [.put k] <+: ops → (done.foldl (next code preset) s).cached = k →
    (done.foldl (next code preset) s).register = code k

/-- What is in the register as long as nothing has been asked for. -/
def early (s : State κ ρ) (done : List (Op κ)) : ρ := if .preset ∈ done then preset else s.register

/-- The operation leaves the last setting in force: the preset is the same one, and the first
setting to be asked for is not taken for the one that the cache began with. -/
def Harmless (s : State κ ρ) (done : List (Op κ)) : Op κ → Prop
  | .put k => lastPut done = none → k = s.cached → early preset s done = code k
  | .preset => ∀ k, lastPut done = some k → code k = preset
  | .other => True

variable {code preset}

lemma cached_eq (s : State κ ρ) (done : List (Op κ)) :
    (done.foldl (next code preset) s).cached = (lastPut done).getD s.cached := by
  induction done using List.reverseRecOn with
  | nil => rfl
  | append_singleton done op ih =>
    rw [List.foldl_concat, lastPut_concat]
    cases op with
    | put k =>
      change (if _ then _ else _ : State κ ρ).cached = k
      split
      · rfl
      · rename_i hsame
        exact not_not.mp hsame
    | preset => exact ih
    | other => exact ih

lemma register_of_none {s : State κ ρ} {done : List (Op κ)} (h : lastPut done = none) :
    (done.foldl (next code preset) s).register = early preset s done := by
  induction done using List.reverseRecOn with
  | nil => rfl
  | append_singleton done op ih =>
    rw [lastPut_concat] at h
    rw [List.foldl_concat]
    unfold early at *
    cases op with
    | put k => cases h
    | preset =>
      rw [if_pos (List.mem_append_right _ (List.mem_singleton_self _))]
      rfl
    | other => simpa [next] using ih h

lemma register_of_skipped {s : State κ ρ} {done : List (Op κ)} {k : κ}
    (hshown : Shown code (done.foldl (next code preset) s) (lastPut done))
    (hharmless : Harmless code preset s done (.put k))
    (hskip : (done.foldl (next code preset) s).cached = k) :
    (done.foldl (next code preset) s).register = code k := by
  rw [cached_eq] at hskip
  cases hlast : lastPut done with
  | none =>
    rw [hlast] at hskip
    rw [register_of_none hlast]
    exact hharmless hlast hskip.symm
  | some k' =>
    rw [hlast] at hskip
    obtain rfl : k' = k := hskip
    exact (hshown k' hlast).2

lemma shown_concat {s : State κ ρ} {done : List (Op κ)} {op : Op κ}
    (hshown : Shown code (done.foldl (next code preset) s) (lastPut done))
    (hharmless : Harmless code preset s done op) :
    Shown code ((done ++ [op]).foldl (next code preset) s) (lastPut (done ++ [op])) := by
  rw [List.foldl_concat, lastPut_concat]
  intro k hk
  cases op with
  | put k' =>
    obtain rfl : k' = k := Option.some.inj hk
    by_cases hskip : (done.foldl (next code preset) s).cached = k'
    · have hnext : next code preset (done.foldl (next code preset) s) (.put k') =
          done.foldl (next code preset) s := if_neg (not_not.mpr hskip)
      rw [hnext]
      exact ⟨hskip, register_of_skipped hshown hharmless hskip⟩
    · have hnext : next code preset (done.foldl (next code preset) s) (.put k') =
          ⟨k', code k'⟩ := if_pos hskip
      rw [hnext]
      exact ⟨rfl, rfl⟩
  | preset => exact ⟨(hshown k hk).1, (hharmless k hk).symm⟩
  | other => exact hshown k hk

/-- The settings survive exactly the runs of harmless operations. -/
theorem survives_iff (s : State κ ρ) (ops : List (Op κ)) :
    Survives code preset s ops ↔
      ∀ done op, done ++ [op] <+: ops → Harmless code preset s done op := by
  constructor
  · intro h done op hdone
    cases op with
    | put k =>
      intro hnone hk
      have hcached : (done.foldl (next code preset) s).cached = k := by
        rw [cached_eq, hnone, hk]
        rfl
      rw [← register_of_none hnone]
      exact h.skips done k hdone hcached
    | preset =>
      intro k hk
      have hshown := h.shown _ hdone
      rw [List.foldl_concat, lastPut_concat] at hshown
      exact (hshown k hk).2.symm
    | other => trivial
  · intro hharmless
    have hshown : ∀ done, done <+: ops →
        Shown code (done.foldl (next code preset) s) (lastPut done) := by
      intro done
      induction done using List.reverseRecOn with
      | nil =>
        intro _ k hk
        cases hk
      | append_singleton done op ih =>
        intro hdone
        have hbefore := ih ((List.prefix_append done [op]).trans hdone)
        exact shown_concat hbefore (hharmless done op hdone)
    refine ⟨hshown, fun done k hdone hskip => ?_⟩
    have hbefore := hshown done ((List.prefix_append done _).trans hdone)
    exact register_of_skipped hbefore (hharmless done _ hdone) hskip

end CachedRegister
