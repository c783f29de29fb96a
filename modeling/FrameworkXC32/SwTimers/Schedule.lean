import FrameworkXC32.SwTimers.Runs

/-!
# The delta list implements a set of timers with remaining times

In every reachable state, inside handler calls and callbacks included, the list reached from
`sTimers` is a finite schedule. `swTimerStart` adds one timer with its interval to the set of
remaining times, `swTimerStop` takes one out, and no sum or difference of timeouts wraps.
-/

namespace FrameworkXC32
open Machine LinkedHeap DeltaList

theorem bounded_of_run {A : Arith} (hA : A.Exact) {heap : Ptr → SwTimer} {clock fuel : ℕ}
    {ops : List TimerOp} {c : Config}
    (h : Runs.run (timerStep A fuel) (timersAtBoot heap clock) ops = some c) :
    ∃ l, Bounded c.timers l := by
  have keep : ∀ s op t, (∃ l, Bounded s.timers l) → timerStep A fuel s op = some t →
      ∃ l, Bounded t.timers l := by
    intro s op t hs ht
    obtain ⟨l, hl⟩ := hs
    obtain ⟨l', hl', -⟩ := timerStep_spec hA hl ht
    exact ⟨l', hl'⟩
  apply Runs.run_invariant_all keep _ h
  exact ⟨[], rfl, by simp⟩

/-- Checking every addition and subtraction on timeouts for wrap-around changes no step. -/
theorem timerStep_checked {fuel : ℕ} {c : Config} {l : List Ptr} (h : Bounded c.timers l)
    (op : TimerOp) : timerStep checked fuel c op = timerStep wrapping fuel c op := by
  have hstart : ∀ t s, swTimerStart checked fuel t s = swTimerStart wrapping fuel t s :=
    fun t s => swTimerStart_exact checked_exact
  cases op with
  | start t => simp only [timerStep, hstart]
  | stop t =>
    have hstop : swTimerStop checked fuel t c.timers = swTimerStop wrapping fuel t c.timers :=
      swTimerStop_exact checked_exact h.sched h.rem_lt
    simp only [timerStep, hstop]
  | create malloc interval mode cb =>
    cases malloc with
    | none => rfl
    | some p => simp only [timerStep, swTimer, hstart]
  | edit t interval mode cb => rfl
  | tick ms => rfl
  | handler ms => rfl
  | pass =>
    have hpass : ∀ elapsed, taskPass checked fuel elapsed c.timers =
        taskPass wrapping fuel elapsed c.timers := fun elapsed => taskPass_exact checked_exact elapsed
    simp only [timerStep, hpass]

lemma Placed.remaining_eq {s s' : Timers} {t : Ptr} {l₁ l₂ : List Ptr}
    (hp : Placed s s' t l₁ l₂) :
    remaining s'.delta (l₁ ++ t :: l₂) =
      Function.update (remaining s.delta (l₁ ++ l₂)) t (some (s.interval t)) := by
  funext u
  unfold remaining
  by_cases hut : u = t
  · subst hut
    simp [hp.rem_self]
  · rw [Function.update_of_ne hut]
    have hmem : u ∈ l₁ ++ t :: l₂ ↔ u ∈ l₁ ++ l₂ := by
      simp only [List.mem_append, List.mem_cons]
      tauto
    by_cases hu : u ∈ l₁ ++ l₂
    · rw [if_pos (hmem.mpr hu), if_pos hu, hp.rem_other u hu]
    · rw [if_neg (fun e => hu (hmem.mp e)), if_neg hu]

lemma Removed.remaining_eq {s s' : Timers} {t : Ptr} {l₁ l₂ : List Ptr}
    (hs : s.Sched (l₁ ++ t :: l₂)) (hr : Removed s s' t l₁ l₂) :
    remaining s'.delta (l₁ ++ l₂) =
      Function.update (remaining s.delta (l₁ ++ t :: l₂)) t none := by
  have ht : t ∉ l₁ ++ l₂ := (List.nodup_cons.mp (List.nodup_middle.mp (Seg.nodup hs))).1
  funext u
  unfold remaining
  by_cases hut : u = t
  · subst hut
    rw [if_neg ht, Function.update_self]
  · rw [Function.update_of_ne hut]
    have hmem : u ∈ l₁ ++ t :: l₂ ↔ u ∈ l₁ ++ l₂ := by
      simp only [List.mem_append, List.mem_cons]
      tauto
    by_cases hu : u ∈ l₁ ++ l₂
    · rw [if_pos (hmem.mpr hu), if_pos hu, hr.rem_other u hu]
    · rw [if_neg (fun e => hu (hmem.mp e)), if_neg hu]

theorem swTimers_refine_remaining {heap : Ptr → SwTimer} {clock fuel : ℕ} {ops : List TimerOp}
    {c : Config} (h : Runs.run (timerStep wrapping fuel) (timersAtBoot heap clock) ops = some c) :
    ∃ l, c.timers.Sched l ∧ l.Nodup ∧
      (∀ t ∈ l, c.rem l t ≤ c.timers.interval t ∧ c.timers.interval t < 2 ^ 32) ∧
      (∀ n op, timerStep checked n c op = timerStep wrapping n c op) ∧
      (∀ t, t ∉ l → ∃ s' l₁ l₂, l = l₁ ++ l₂ ∧
        (∀ n, l.length < n → swTimerStart wrapping n t c.timers = some s') ∧
        Placed c.timers s' t l₁ l₂ ∧ remaining s'.delta (l₁ ++ t :: l₂) =
          Function.update (remaining c.timers.delta l) t (some (c.timers.interval t))) ∧
      (∀ t, t ∈ l → ∀ n, l.length < n → swTimerStart wrapping n t c.timers = some c.timers) ∧
      (∀ t l₁ l₂, l = l₁ ++ t :: l₂ → ∃ s',
        (∀ n, l.length < n → swTimerStop wrapping n t c.timers = some s') ∧
        Removed c.timers s' t l₁ l₂ ∧ remaining s'.delta (l₁ ++ l₂) =
          Function.update (remaining c.timers.delta l) t none) ∧
      (∀ t, t ∉ l → ∀ n, l.length < n → swTimerStop wrapping n t c.timers = some c.timers) := by
  obtain ⟨l, hb⟩ := bounded_of_run wrapping_exact h
  refine ⟨l, hb.sched, Seg.nodup hb.sched, ?_, ?_, ?_, ?_, ?_, ?_⟩
  · intro t ht
    exact ⟨hb.rem_le t ht, (c.timers.heap t).interval.isLt⟩
  · intro n op
    exact timerStep_checked hb op
  · intro t ht
    obtain ⟨s', l₁, l₂, hl, hp, heq⟩ :=
      swTimerStart_of_notMem wrapping_exact hb.sched ht (Nat.lt_succ_self l.length)
    refine ⟨s', l₁, l₂, hl, ?_, hp, ?_⟩
    · intro n hn
      exact swTimerStart_mono wrapping c.timers hn heq
    · rw [hl]
      exact hp.remaining_eq
  · intro t ht n hn
    exact swTimerStart_of_mem wrapping hb.sched ht hn
  · intro t l₁ l₂ hl
    subst hl
    obtain ⟨s', hr, heq⟩ := swTimerStop_of_mem wrapping_exact hb.sched hb.rem_lt
      (Nat.lt_succ_self (l₁ ++ t :: l₂).length)
    refine ⟨s', ?_, hr, hr.remaining_eq hb.sched⟩
    intro n hn
    exact stopLoop_mono wrapping c.timers hn heq
  · intro t ht n hn
    exact swTimerStop_of_notMem wrapping hb.sched ht hn

theorem swTimers_refine_remaining_two : ∃ c l,
    Runs.run (timerStep wrapping 4) (timersAtBoot (fun _ => ⟨none, 0, 0, .oneshot, none⟩) 0)
      [.create (some 1) 500 .periodic none, .create (some 2) 300 .oneshot none] = some c ∧
    c.timers.Sched l ∧ l.Nodup ∧ ∀ t ∈ l, c.rem l t ≤ c.timers.interval t := by
  have hrun : Runs.run (timerStep wrapping 4)
      (timersAtBoot (fun _ => ⟨none, 0, 0, .oneshot, none⟩) 0)
      [.create (some 1) 500 .periodic none, .create (some 2) 300 .oneshot none] = some _ := rfl
  obtain ⟨l, hsched, hnd, hrem, -⟩ := swTimers_refine_remaining hrun
  exact ⟨_, l, hrun, hsched, hnd, fun t ht => (hrem t ht).1⟩

end FrameworkXC32
