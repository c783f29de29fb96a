import FrameworkXC32.Lib.Runs

/-!
# Machines with answers

A machine `step : σ → α → Option (β × σ)` answers every operation that it takes. `run` collects
the answers of a list of operations. A machine refines a specification, whose steps are total,
when a relation between their states is kept by every step and makes the answers agree.
-/

namespace Mealy

variable {σ τ α β : Type*}

/-- The answers to a list of operations and the state behind them, `none` when one of the
operations cannot be taken. -/
def run (step : σ → α → Option (β × σ)) : σ → List α → Option (List β × σ)
  | s, [] => some ([], s)
  | s, a :: as => (step s a).bind fun r =>
    (run step r.2 as).map fun q => (r.1 :: q.1, q.2)

section Specification

variable (next : τ → α → β × τ)

def answers : τ → List α → List β
  | _, [] => []
  | t, a :: as => (next t a).1 :: answers (next t a).2 as

def after (t : τ) (as : List α) : τ := as.foldl (fun t a => (next t a).2) t

@[simp] lemma after_cons (t : τ) (a : α) (as : List α) :
    after next t (a :: as) = after next (next t a).2 as := rfl

/-- Every operation is taken where `ok` holds of the specification. -/
def Allowed (ok : τ → α → Prop) : τ → List α → Prop
  | _, [] => True
  | t, a :: as => ok t a ∧ Allowed ok (next t a).2 as

lemma allowed_append {ok : τ → α → Prop} {t : τ} {as bs : List α} :
    Allowed next ok t (as ++ bs) ↔
      Allowed next ok t as ∧ Allowed next ok (after next t as) bs := by
  induction as generalizing t with
  | nil => exact (true_and _).symm.to_iff
  | cons a as ih =>
    rw [List.cons_append, Allowed, Allowed, ih, after_cons, and_assoc]

lemma allowed_true (t : τ) (as : List α) : Allowed next (fun _ _ => True) t as := by
  induction as generalizing t with
  | nil => trivial
  | cons a as ih => exact ⟨trivial, ih _⟩

end Specification

section Refinement

variable {step : σ → α → Option (β × σ)} {next : τ → α → β × τ}

lemma run_cons_eq {s : σ} {t : σ} {a : α} {b : β} (h : step s a = some (b, t)) (as : List α) :
    run step s (a :: as) = (run step t as).map fun q => (b :: q.1, q.2) := by
  rw [run, h, Option.bind_some]

/-- A step that agrees with the specification under `ok` makes every run that is allowed there
agree with it. -/
theorem refines {R : σ → τ → Prop} {ok : τ → α → Prop}
    (hstep : ∀ s t a, R s t → ok t a →
      ∃ s', step s a = some ((next t a).1, s') ∧ R s' (next t a).2)
    {s : σ} {t : τ} (hR : R s t) {as : List α} (hok : Allowed next ok t as) :
    ∃ s', run step s as = some (answers next t as, s') ∧ R s' (after next t as) := by
  induction as generalizing s t with
  | nil => exact ⟨s, rfl, hR⟩
  | cons a as ih =>
    obtain ⟨s', hs', hR'⟩ := hstep s t a hR hok.1
    obtain ⟨u, hu, hRu⟩ := ih hR' hok.2
    refine ⟨u, ?_, hRu⟩
    rw [run_cons_eq hs', hu]
    rfl

/-- When moreover no step agrees with the specification where `ok` fails, the runs that agree with
it all along are the ones that are allowed there. -/
theorem refines_iff {R : σ → τ → Prop} {ok : τ → α → Prop}
    (hstep : ∀ s t a, R s t → ok t a →
      ∃ s', step s a = some ((next t a).1, s') ∧ R s' (next t a).2)
    (hwrong : ∀ s t a, R s t → ¬ok t a →
      ∀ s', step s a = some ((next t a).1, s') → ¬R s' (next t a).2)
    {s : σ} {t : τ} (hR : R s t) {as : List α} :
    (∀ bs, bs <+: as → ∃ s', run step s bs = some (answers next t bs, s') ∧
      R s' (after next t bs)) ↔ Allowed next ok t as := by
  constructor
  · intro h
    induction as generalizing s t with
    | nil => trivial
    | cons a as ih =>
      have hok : ok t a := by
        by_contra hno
        obtain ⟨s', hrun, hR'⟩ := h [a] ⟨as, rfl⟩
        obtain ⟨r, hr, hnil⟩ := Option.bind_eq_some_iff.mp hrun
        obtain ⟨q, hq, heq⟩ := Option.map_eq_some_iff.mp hnil
        cases hq
        obtain ⟨hanswers, rfl⟩ := Prod.mk.inj heq
        apply hwrong s t a hR hno r.2 _ hR'
        rw [hr, ← (List.cons.inj hanswers).1]
      obtain ⟨u, hu, hRu⟩ := hstep s t a hR hok
      refine ⟨hok, ih hRu ?_⟩
      intro bs hbs
      obtain ⟨s', hrun, hR'⟩ := h (a :: bs) (List.cons_prefix_cons.mpr ⟨rfl, hbs⟩)
      rw [run_cons_eq hu] at hrun
      obtain ⟨q, hq, heq⟩ := Option.map_eq_some_iff.mp hrun
      obtain ⟨hanswers, rfl⟩ := Prod.mk.inj heq
      refine ⟨q.2, ?_, hR'⟩
      rw [hq, ← (List.cons.inj hanswers).2]
  · rintro h bs ⟨cs, rfl⟩
    exact refines hstep hR (allowed_append next |>.mp h).1

end Refinement

end Mealy
