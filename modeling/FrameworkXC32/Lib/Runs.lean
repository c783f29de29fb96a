import Mathlib.Data.List.Induction
import Mathlib.Data.List.Infix

/-!
# Runs of a partial transition function

A system is a function `step : σ → α → Option σ`; `none` says that the operation cannot be
taken. `run` executes a list of operations, and `Guarded` says that every step of a run
meets a side condition on the state it leaves and the operation it takes.
-/

namespace Runs

variable {σ α : Type*} (step : σ → α → Option σ)

/-- The state after a list of operations, `none` when one of them cannot be taken. -/
def run : σ → List α → Option σ
  | s, [] => some s
  | s, a :: as => (step s a).bind fun t => run t as

/-- Every step of the run from `s` is taken where `ok` holds. -/
def Guarded (ok : σ → α → Prop) : σ → List α → Prop
  | _, [] => True
  | s, a :: as => ok s a ∧ match step s a with
    | some t => Guarded ok t as
    | none => True

instance Guarded.decidable (ok : σ → α → Prop) [∀ s a, Decidable (ok s a)] :
    ∀ (s : σ) (as : List α), Decidable (Guarded step ok s as)
  | _, [] => isTrue trivial
  | s, a :: as => match h : step s a with
    | some t =>
      let _ := Guarded.decidable ok t as
      decidable_of_iff (ok s a ∧ Guarded step ok t as) (by simp [Guarded, h])
    | none => decidable_of_iff (ok s a) (by simp [Guarded, h])

@[simp] lemma run_nil (s : σ) : run step s [] = some s := rfl

lemma run_cons (s : σ) (a : α) (as : List α) :
    run step s (a :: as) = (step s a).bind fun t => run step t as := rfl

lemma run_cons_some {s u : σ} {a : α} {as : List α} :
    run step s (a :: as) = some u ↔ ∃ t, step s a = some t ∧ run step t as = some u := by
  rw [run_cons, Option.bind_eq_some_iff]

lemma run_append (s : σ) (as bs : List α) :
    run step s (as ++ bs) = (run step s as).bind fun t => run step t bs := by
  induction as generalizing s with
  | nil => rfl
  | cons a as ih =>
    rw [List.cons_append, run_cons, run_cons, Option.bind_assoc]
    congr 1
    funext t
    exact ih t

lemma run_append_some {s u : σ} {as bs : List α} :
    run step s (as ++ bs) = some u ↔ ∃ t, run step s as = some t ∧ run step t bs = some u := by
  rw [run_append, Option.bind_eq_some_iff]

variable {step}

lemma Guarded.tail {ok : σ → α → Prop} {s t : σ} {a : α} {as : List α}
    (h : Guarded step ok s (a :: as)) (ht : step s a = some t) : Guarded step ok t as := by
  have h2 := h.2
  rw [ht] at h2
  exact h2

lemma Guarded.append_right {ok : σ → α → Prop} {s t : σ} {as bs : List α}
    (h : Guarded step ok s (as ++ bs)) (ht : run step s as = some t) : Guarded step ok t bs := by
  induction as generalizing s with
  | nil =>
    cases ht
    exact h
  | cons a as ih =>
    obtain ⟨u, hu, hut⟩ := (run_cons_some step).mp ht
    exact ih (Guarded.tail h hu) hut

lemma Guarded.append_left {ok : σ → α → Prop} {s : σ} {as bs : List α}
    (h : Guarded step ok s (as ++ bs)) : Guarded step ok s as := by
  induction as generalizing s with
  | nil => trivial
  | cons a as ih =>
    refine ⟨h.1, ?_⟩
    cases hs : step s a with
    | none => trivial
    | some t => exact ih (Guarded.tail h hs)

lemma guarded_of_reached {ok : σ → α → Prop} {s : σ} {as : List α}
    (h : ∀ p a q t, as = p ++ a :: q → run step s p = some t → ok t a) : Guarded step ok s as := by
  induction as generalizing s with
  | nil => trivial
  | cons a as ih =>
    refine ⟨h [] a as s rfl rfl, ?_⟩
    cases hs : step s a with
    | none => trivial
    | some t =>
      apply ih
      intro p b q u has hu
      have hrun : run step s (a :: p) = some u := (run_cons_some step).mpr ⟨t, hs, hu⟩
      exact h (a :: p) b q u (by rw [has]; rfl) hrun

/-- The induction of a safety proof: what holds at the start and is kept by every step that
meets the side condition holds after every guarded run. -/
theorem run_invariant {ok : σ → α → Prop} {Inv : σ → Prop}
    (keep : ∀ s a t, Inv s → ok s a → step s a = some t → Inv t) {s u : σ} {as : List α}
    (hs : Inv s) (hg : Guarded step ok s as) (hu : run step s as = some u) : Inv u := by
  induction as generalizing s with
  | nil =>
    cases hu
    exact hs
  | cons a as ih =>
    obtain ⟨t, ht, htu⟩ := (run_cons_some step).mp hu
    exact ih (keep s a t hs hg.1 ht) (hg.tail ht) htu

/-- When every step that meets the side condition can be taken, so can a guarded run. -/
theorem run_progress {ok : σ → α → Prop} {Inv : σ → Prop}
    (hstep : ∀ s a, Inv s → ok s a → ∃ t, step s a = some t ∧ Inv t) {s : σ} {as : List α}
    (hs : Inv s) (hg : Guarded step ok s as) : ∃ u, run step s as = some u ∧ Inv u := by
  induction as generalizing s with
  | nil => exact ⟨s, rfl, hs⟩
  | cons a as ih =>
    obtain ⟨t, ht, hInv⟩ := hstep s a hs hg.1
    obtain ⟨u, hu, hInv'⟩ := ih hInv (hg.tail ht)
    exact ⟨u, (run_cons_some step).mpr ⟨t, ht, hu⟩, hInv'⟩

lemma guarded_true (s : σ) (as : List α) : Guarded step (fun _ _ => True) s as := by
  induction as generalizing s with
  | nil => trivial
  | cons a as ih =>
    refine ⟨trivial, ?_⟩
    cases step s a with
    | none => trivial
    | some t => exact ih t

theorem run_invariant_all {Inv : σ → Prop} (keep : ∀ s a t, Inv s → step s a = some t → Inv t)
    {s u : σ} {as : List α} (hs : Inv s) (hu : run step s as = some u) : Inv u :=
  run_invariant (fun s a t h _ ht => keep s a t h ht) hs (guarded_true s as) hu

lemma steps_along_run_iff {P : σ → Prop} {Q : σ → α → σ → Prop} {ok : σ → α → Prop}
    (hnext : ∀ s a t, P s → step s a = some t → (P t ∧ Q s a t ↔ ok s a))
    (hnone : ∀ s a, step s a = none → ok s a) {s : σ} (hs : P s) (as : List α) :
    (∀ done a t u, done ++ [a] <+: as → run step s done = some t → step t a = some u →
      P u ∧ Q t a u) ↔ Guarded step ok s as := by
  induction as generalizing s with
  | nil =>
    refine iff_of_true (fun done a t u hdone => ?_) trivial
    simp at hdone
  | cons b bs ih =>
    cases hb : step s b with
    | none =>
      refine iff_of_true (fun done a t u hdone ht hu => ?_) ⟨hnone s b hb, by simp [hb]⟩
      cases done with
      | nil =>
        obtain ⟨rfl, -⟩ := List.cons_prefix_cons.mp hdone
        cases ht
        simp [hb] at hu
      | cons c done =>
        obtain ⟨rfl, -⟩ := List.cons_prefix_cons.mp hdone
        simp [run_cons, hb] at ht
    | some v =>
      constructor
      · intro hall
        have hv := hall [] b s v (by simp) rfl hb
        refine ⟨(hnext s b v hs hb).mp hv, ?_⟩
        rw [hb]
        refine (ih hv.1).mp fun done a t u hdone ht hu => ?_
        apply hall (b :: done) a t u (List.cons_prefix_cons.mpr ⟨rfl, hdone⟩) _ hu
        rw [run_cons, hb]
        exact ht
      · intro hg done a t u hdone ht hu
        have hv := (hnext s b v hs hb).mpr hg.1
        cases done with
        | nil =>
          obtain ⟨rfl, -⟩ := List.cons_prefix_cons.mp hdone
          cases ht
          rw [hb] at hu
          cases hu
          exact hv
        | cons c done =>
          obtain ⟨rfl, hrest⟩ := List.cons_prefix_cons.mp hdone
          rw [run_cons, hb] at ht
          exact (ih hv.1).mpr (hg.tail hb) done a t u hrest ht hu

/-- `holds_along_iff` below for steps that may not be taken, and with a property `Q` of the steps
themselves beside the property `P` of the states. -/
theorem holds_along_run_iff {P : σ → Prop} {Q : σ → α → σ → Prop} {ok : σ → α → Prop}
    (hnext : ∀ s a t, P s → step s a = some t → (P t ∧ Q s a t ↔ ok s a))
    (hnone : ∀ s a, step s a = none → ok s a) {s : σ} (hs : P s) (as : List α) :
    (∀ done t, done <+: as → run step s done = some t → P t) ∧
        (∀ done a t u, done ++ [a] <+: as → run step s done = some t → step t a = some u →
          Q t a u) ↔ Guarded step ok s as := by
  rw [← steps_along_run_iff hnext hnone hs]
  constructor
  · rintro ⟨hP, hQ⟩ done a t u hdone ht hu
    refine ⟨hP _ u hdone ?_, hQ done a t u hdone ht hu⟩
    rw [run_append, ht, Option.bind_some, run_cons, hu]
    rfl
  · intro hall
    refine ⟨fun done t hdone ht => ?_, fun done a t u hdone ht hu => (hall done a t u hdone ht hu).2⟩
    induction done using List.reverseRecOn with
    | nil =>
      cases ht
      exact hs
    | append_singleton done a _ =>
      obtain ⟨u, hu, hut⟩ := (run_append_some step).mp ht
      obtain ⟨v, hv, hvt⟩ := (run_cons_some step).mp hut
      cases hvt
      exact (hall done a u t hdone hu hv).1

section Total

variable {next : σ → α → σ} {Inv P : σ → Prop} {ok : σ → α → Prop}

lemma foldl_invariant (keep : ∀ s a, Inv s → Inv (next s a)) {s : σ} (hs : Inv s) (as : List α) :
    Inv (as.foldl next s) := by
  induction as generalizing s with
  | nil => exact hs
  | cons a as ih => exact ih (keep s a hs)

/-- Where a step keeps a property `P` of the states, and has a property `Q` of its own, exactly
under a condition on the state before it, they hold all along a run exactly when every step of the
run meets the condition. -/
theorem holds_along_steps_iff {Q : σ → α → Prop} (keep : ∀ s a, Inv s → Inv (next s a))
    (hnext : ∀ s a, Inv s → P s → (P (next s a) ∧ Q s a ↔ ok s a)) {s : σ} (hs : Inv s) (hP : P s)
    (as : List α) :
    (∀ done, done <+: as → P (done.foldl next s)) ∧
        (∀ done a, done ++ [a] <+: as → Q (done.foldl next s) a) ↔
      ∀ done a, done ++ [a] <+: as → ok (done.foldl next s) a := by
  have hinv : ∀ done : List α, Inv (done.foldl next s) := foldl_invariant keep hs
  constructor
  · rintro ⟨hall, hsteps⟩ done a has
    have hafter := hall (done ++ [a]) has
    rw [List.foldl_concat] at hafter
    exact (hnext _ a (hinv done) (hall done ((List.prefix_append done [a]).trans has))).mp
      ⟨hafter, hsteps done a has⟩
  · intro hok
    have hall : ∀ done, done <+: as → P (done.foldl next s) := by
      intro done
      induction done using List.reverseRecOn with
      | nil => exact fun _ => hP
      | append_singleton done a ih =>
        intro has
        have hbefore := ih ((List.prefix_append done [a]).trans has)
        rw [List.foldl_concat]
        exact ((hnext _ a (hinv done) hbefore).mpr (hok done a has)).1
    refine ⟨hall, fun done a has => ?_⟩
    have hbefore := hall done ((List.prefix_append done [a]).trans has)
    exact ((hnext _ a (hinv done) hbefore).mpr (hok done a has)).2

/-- The same for a property of the states only. -/
theorem holds_along_iff (keep : ∀ s a, Inv s → Inv (next s a))
    (hnext : ∀ s a, Inv s → P s → (P (next s a) ↔ ok s a)) {s : σ} (hs : Inv s) (hP : P s)
    (as : List α) : (∀ done, done <+: as → P (done.foldl next s)) ↔
      ∀ done a, done ++ [a] <+: as → ok (done.foldl next s) a := by
  have hnext' : ∀ s a, Inv s → P s → (P (next s a) ∧ True ↔ ok s a) := by
    intro s a hs hP
    rw [and_true]
    exact hnext s a hs hP
  rw [← holds_along_steps_iff keep hnext' hs hP as]
  exact (and_iff_left fun _ _ _ => trivial).symm

end Total

end Runs
