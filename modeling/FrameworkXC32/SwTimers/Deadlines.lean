import FrameworkXC32.SwTimers.Schedule

/-!
# When timers fire

The remaining times count from the instant that `oldTime` holds, less what the handler has
not consumed yet. A timer started at another instant is measured from the wrong origin; when
every start happens at the origin, no callback runs before its deadline.
-/

namespace FrameworkXC32
open Machine LinkedHeap DeltaList

/-- A pass that is about to call the callback of `t` belongs to a handler call that read the
clock no earlier than `t`'s start plus the interval it was started with. -/
def OnTime (fuel : ℕ) (c : Config) : Prop :=
  ∀ read elapsed running t elapsed' s,
    c.control = .looping read elapsed running →
    taskPass wrapping fuel elapsed c.timers = some (.fired t elapsed' s) →
    (c.began t).1 + (c.began t).2 ≤ read

/-- The origin of the remaining times is the present instant, so that an interval that starts
now is measured from now; an empty interval may start at any clock value the handler's next
reading cannot undercut. -/
def AtOrigin (c : Config) (interval : ℕ) : Prop :=
  match c.control with
  | .idle => c.timers.oldTime = c.millis ∨ interval = 0
  | .looping read elapsed _ =>
    if interval = 0 then c.now = read else elapsed = 0 ∧ c.timers.oldTime = c.millis

/-- Every start that takes effect happens at the origin of the remaining times. -/
def StartsAtOrigin (fuel : ℕ) (c : Config) (op : TimerOp) : Prop :=
  ∀ interval, effectiveStart fuel c op = some interval → AtOrigin c interval

/-- The remaining times count from `origin`, in a handler call less the time `elapsed` that is
still to be consumed; every scheduled timer is due no earlier than its deadline. -/
def Safe (c : Config) (l : List Ptr) : Prop :=
  match c.control with
  | .idle => ∃ origin ≤ c.now, c.timers.oldTime = BitVec.ofNat 32 origin ∧
      ∀ t ∈ l, (c.began t).1 + (c.began t).2 ≤ origin + c.rem l t ∨ (c.began t).2 = 0
  | .looping read elapsed _ => ∃ origin, read ≤ origin ∧ origin ≤ c.now ∧
      c.timers.oldTime = BitVec.ofNat 32 origin ∧
      ∀ t ∈ l, (c.rem l t ≤ elapsed.toNat → (c.began t).1 + (c.began t).2 ≤ read) ∧
        ((c.began t).1 + (c.began t).2 + elapsed.toNat ≤ origin + c.rem l t ∨ (c.began t).2 = 0)

structure Timely (c : Config) (l : List Ptr) : Prop where
  bounded : Bounded c.timers l
  began_le : ∀ t, (c.began t).1 ≤ c.now
  safe : Safe c l

lemma elapsed_le {now origin : ℕ} (h : origin ≤ now) :
    (BitVec.ofNat 32 now - BitVec.ofNat 32 origin).toNat ≤ now - origin := by
  rw [BitVec.toNat_sub, BitVec.toNat_ofNat, BitVec.toNat_ofNat]
  omega

section Steps

variable {c c' : Config} {l l' : List Ptr}

lemma Safe.mono (h : Safe c l) (hcontrol : c'.control = c.control)
    (hold : c'.timers.oldTime = c.timers.oldTime) (hnow : c.now ≤ c'.now)
    (hl : ∀ t ∈ l', t ∈ l ∧ c'.rem l' t = c.rem l t ∧ c'.began t = c.began t) : Safe c' l' := by
  unfold Safe at h ⊢
  rw [hcontrol, hold]
  cases hctl : c.control with
  | idle =>
    rw [hctl] at h
    obtain ⟨origin, horigin, holdTime, hdue⟩ := h
    refine ⟨origin, by omega, holdTime, fun t ht => ?_⟩
    obtain ⟨htl, hrem, hbegan⟩ := hl t ht
    rw [hrem, hbegan]
    exact hdue t htl
  | looping read elapsed running =>
    rw [hctl] at h
    obtain ⟨origin, hread, horigin, holdTime, hdue⟩ := h
    refine ⟨origin, hread, by omega, holdTime, fun t ht => ?_⟩
    obtain ⟨htl, hrem, hbegan⟩ := hl t ht
    rw [hrem, hbegan]
    exact hdue t htl

lemma Safe.placed {t : Ptr} {interval : ℕ} (h : Safe c l) (horigin : AtOrigin c interval)
    (hold : c'.timers.oldTime = c.timers.oldTime) (hcontrol : c'.control = c.control)
    (hnow : c'.now = c.now) (hself : c'.rem l' t = interval)
    (hbegan : c'.began t = (c.now, interval))
    (hl : ∀ u ∈ l', u ≠ t → u ∈ l ∧ c'.rem l' u = c.rem l u ∧ c'.began u = c.began u) :
    Safe c' l' := by
  unfold Safe at h ⊢
  unfold AtOrigin at horigin
  rw [hcontrol, hold, hnow]
  cases hctl : c.control with
  | idle =>
    rw [hctl] at h horigin
    obtain ⟨origin, hle, holdTime, hdue⟩ := h
    rcases horigin with hfresh | hzero
    · -- with a fresh clock the origin moves up to the present
      refine ⟨c.now, Nat.le_refl _, hfresh, fun u hu => ?_⟩
      by_cases hut : u = t
      · rw [hut, hbegan, hself]
        exact .inl (Nat.le_refl _)
      · obtain ⟨hul, hrem, hbeganu⟩ := hl u hu hut
        have hdu := hdue u hul
        rw [hrem, hbeganu]
        omega
    · refine ⟨origin, hle, holdTime, fun u hu => ?_⟩
      by_cases hut : u = t
      · rw [hut, hbegan]
        exact .inr hzero
      · obtain ⟨hul, hrem, hbeganu⟩ := hl u hu hut
        rw [hrem, hbeganu]
        exact hdue u hul
  | looping read elapsed running =>
    rw [hctl] at h horigin
    dsimp only at horigin
    obtain ⟨origin, hread, hle, holdTime, hdue⟩ := h
    by_cases hzero : interval = 0
    · rw [if_pos hzero] at horigin
      refine ⟨origin, hread, hle, holdTime, fun u hu => ?_⟩
      by_cases hut : u = t
      · rw [hut, hbegan]
        refine ⟨fun _ => ?_, .inr hzero⟩
        dsimp only
        omega
      · obtain ⟨hul, hrem, hbeganu⟩ := hl u hu hut
        rw [hrem, hbeganu]
        exact hdue u hul
    · rw [if_neg hzero] at horigin
      have helapsed : elapsed.toNat = 0 := by rw [horigin.1]; rfl
      refine ⟨c.now, by omega, Nat.le_refl _, horigin.2, fun u hu => ?_⟩
      by_cases hut : u = t
      · rw [hut, hbegan, hself]
        refine ⟨fun hdue => by omega, .inl ?_⟩
        dsimp only
        omega
      · obtain ⟨hul, hrem, hbeganu⟩ := hl u hu hut
        obtain ⟨hreached, hpending⟩ := hdue u hul
        rw [hrem, hbeganu]
        refine ⟨hreached, ?_⟩
        omega

lemma Safe.entered {stored : ℕ} (h : Safe c l) (hbegan_le : ∀ t, (c.began t).1 ≤ c.now)
    (hstored : c.now ≤ stored) (hrem : ∀ u ∈ l, c'.rem l u = c.rem l u)
    (hold : c'.timers.oldTime = BitVec.ofNat 32 stored) (hidle : c.control = .idle)
    (hcontrol : c'.control = .looping c.now (c.millis - c.timers.oldTime) none)
    (hnow : c'.now = stored) (hbegan : c'.began = c.began) : Safe c' l := by
  unfold Safe at h ⊢
  rw [hidle] at h
  obtain ⟨origin, horigin, holdTime, hdue⟩ := h
  rw [hcontrol, hold, hnow, hbegan]
  refine ⟨stored, hstored, Nat.le_refl _, rfl, fun t ht => ?_⟩
  -- what the 32-bit difference sees is at most what has passed since the origin
  have helapsed : (c.millis - c.timers.oldTime).toNat ≤ c.now - origin := by
    rw [holdTime]
    exact elapsed_le horigin
  have hdt := hdue t ht
  have hbt := hbegan_le t
  rw [hrem t ht]
  refine ⟨fun hle => ?_, ?_⟩ <;> omega

lemma Safe.fired {t : Ptr} {m : List Ptr} {read : ℕ} {elapsed elapsed' : Word}
    {running running' : Option Ptr} (h : Safe c l) (hl : l = t :: m)
    (hdue : c.rem l t ≤ elapsed.toNat) (helapsed : elapsed'.toNat = elapsed.toNat - c.rem l t)
    (hl' : ∀ u ∈ l', u = t ∨ u ∈ m) (hrem : ∀ u ∈ m, c'.rem l' u + c.rem l t = c.rem l u)
    (hold : c'.timers.oldTime = c.timers.oldTime)
    (hlooping : c.control = .looping read elapsed running)
    (hcontrol : c'.control = .looping read elapsed' running')
    (hnow : c'.now = c.now) (hbegan : c'.began = c.began) : Safe c' l' := by
  unfold Safe at h ⊢
  rw [hlooping] at h
  obtain ⟨origin, hread, horigin, holdTime, hall⟩ := h
  rw [hcontrol, hold, hnow, hbegan]
  refine ⟨origin, hread, horigin, holdTime, fun u hu => ?_⟩
  obtain ⟨hreached, hpending⟩ := hall t (by rw [hl]; simp)
  by_cases hut : u = t
  · -- a periodic timer placed again has already met its deadline
    subst hut
    refine ⟨fun _ => hreached hdue, ?_⟩
    omega
  · have hum : u ∈ m := (hl' u hu).resolve_left hut
    obtain ⟨hureached, hupending⟩ := hall u (by rw [hl]; simp [hum])
    have hru := hrem u hum
    refine ⟨fun hle => hureached (by omega), ?_⟩
    omega

lemma Safe.left {read : ℕ} {elapsed : Word} {running : Option Ptr} (h : Safe c l)
    (hrem : ∀ u ∈ l, c'.rem l u + elapsed.toNat = c.rem l u)
    (hold : c'.timers.oldTime = c.timers.oldTime)
    (hlooping : c.control = .looping read elapsed running) (hidle : c'.control = .idle)
    (hnow : c'.now = c.now) (hbegan : c'.began = c.began) : Safe c' l := by
  unfold Safe at h ⊢
  rw [hlooping] at h
  obtain ⟨origin, -, horigin, holdTime, hall⟩ := h
  rw [hidle, hold, hnow, hbegan]
  refine ⟨origin, horigin, holdTime, fun t ht => ?_⟩
  have hpending := (hall t ht).2
  have hrt := hrem t ht
  omega

lemma Timely.began_step {started : Option ℕ} (h : Timely c l) (hs : StepSpec started c c' l l') :
    ∀ t, (c'.began t).1 ≤ c'.now := by
  intro t
  have ht := h.began_le t
  cases hs with
  | quiet _ _ _ hnow hbegan =>
    rw [hbegan]
    omega
  | placed u interval _ _ _ _ _ _ _ _ _ hnow hbegan =>
    rw [hbegan, hnow]
    by_cases htu : t = u
    · rw [htu, Function.update_self]
    · rw [Function.update_of_ne htu]
      exact ht
  | entered stored hstored _ _ _ _ hnow hbegan =>
    rw [hbegan, hnow]
    omega
  | removed | fired | left => simp_all

lemma Timely.step {started : Option ℕ} (h : Timely c l) (hb : Bounded c'.timers l')
    (hstart : ∀ interval, started = some interval → AtOrigin c interval)
    (hs : StepSpec started c c' l l') : Timely c' l' := by
  refine ⟨hb, h.began_step hs, ?_⟩
  cases hs with
  | quiet hrem hold hcontrol hnow hbegan =>
    exact h.safe.mono hcontrol hold hnow (fun t ht => ⟨ht, hrem t ht, congrFun hbegan t⟩)
  | placed t interval l₁ l₂ hl ht hstarted hself hrem hold hcontrol hnow hbegan =>
    apply h.safe.placed (hstart interval hstarted) hold hcontrol hnow hself
    · rw [hbegan, Function.update_self]
    · intro u hu hut
      have hul : u ∈ l := by
        rw [hl]
        simp only [List.mem_append, List.mem_cons] at hu ⊢
        tauto
      refine ⟨hul, hrem u hul, ?_⟩
      rw [hbegan, Function.update_of_ne hut]
  | removed t l₁ l₂ hl hrem hold hcontrol hnow hbegan =>
    apply h.safe.mono hcontrol hold hnow.ge
    intro u hu
    have hul : u ∈ l := by
      rw [hl]
      simp only [List.mem_append, List.mem_cons] at hu ⊢
      tauto
    exact ⟨hul, hrem u hu, congrFun hbegan u⟩
  | entered stored hstored hrem hold hidle hcontrol hnow hbegan =>
    exact h.safe.entered h.began_le hstored hrem hold hidle hcontrol hnow hbegan
  | fired t m read elapsed elapsed' running running' l' hl hdue helapsed hl' hrem hold
      hlooping hcontrol hnow hbegan =>
    exact h.safe.fired hl hdue helapsed hl' hrem hold hlooping hcontrol hnow hbegan
  | left read elapsed running hdue hrem hold hlooping hidle hnow hbegan =>
    exact h.safe.left hrem hold hlooping hidle hnow hbegan

end Steps

lemma Timely.onTime {c : Config} {l : List Ptr} (h : Timely c l) (fuel : ℕ) : OnTime fuel c := by
  intro read elapsed running t elapsed' s hctl hpass
  obtain ⟨m, rfl, hdue, -, -⟩ := taskPass_fired wrapping_exact h.bounded.sched hpass
  have hsafe := h.safe
  unfold Safe at hsafe
  rw [hctl] at hsafe
  have hrem : c.rem (t :: m) t = c.timers.delta t := rem_cons_self _ t m
  obtain ⟨origin, -, -, -, hall⟩ := hsafe
  exact (hall t (by simp)).1 (hrem ▸ hdue)

lemma timely_boot (heap : Ptr → SwTimer) (clock : ℕ) : Timely (timersAtBoot heap clock) [] := by
  refine ⟨⟨rfl, by simp⟩, fun t => Nat.le_refl _, ?_⟩
  exact ⟨0, Nat.zero_le _, rfl, by simp⟩

/-- In every run whose starts happen at the origin of the remaining times, no callback runs in a
handler call that reads the clock before the timer's deadline. -/
theorem swTimers_never_early {heap : Ptr → SwTimer} {clock fuel : ℕ} {ops : List TimerOp}
    {c : Config}
    (hstarts : Runs.Guarded (timerStep wrapping fuel) (StartsAtOrigin fuel)
      (timersAtBoot heap clock) ops)
    (h : Runs.run (timerStep wrapping fuel) (timersAtBoot heap clock) ops = some c) :
    OnTime fuel c := by
  have keep : ∀ s op t, (∃ l, Timely s l) → StartsAtOrigin fuel s op →
      timerStep wrapping fuel s op = some t → ∃ l, Timely t l := by
    intro s op t hs hop ht
    obtain ⟨l, hl⟩ := hs
    obtain ⟨l', hb, hspec⟩ := timerStep_spec wrapping_exact hl.bounded ht
    exact ⟨l', hl.step hb hop hspec⟩
  obtain ⟨l, hl⟩ := Runs.run_invariant keep ⟨[], timely_boot heap clock⟩ hstarts h
  exact hl.onTime fuel

theorem swTimers_never_early_at_boot : ∃ c,
    Runs.run (timerStep wrapping 4) (timersAtBoot (fun _ => ⟨none, 0, 0, .oneshot, none⟩) 0)
      [.create (some 1) 5 .periodic (some 0), .tick 12, .handler 1, .pass] = some c ∧
    OnTime 4 c := by
  have hrun : Runs.run (timerStep wrapping 4)
      (timersAtBoot (fun _ => ⟨none, 0, 0, .oneshot, none⟩) 0)
      [.create (some 1) 5 .periodic (some 0), .tick 12, .handler 1, .pass] = some _ := rfl
  refine ⟨_, hrun, swTimers_never_early ?_ hrun⟩
  refine ⟨?_, ?_, ?_, ?_, trivial⟩
  · intro interval _
    exact .inl rfl
  all_goals
    intro interval h
    cases h

/-- Claimed for every run, this fails: a timer of 500 ms started one second after boot is measured
from boot, and the handler call one millisecond later runs its callback. -/
theorem swTimer_started_into_empty_list_fires_early :
    ¬ ∀ (heap : Ptr → SwTimer) (clock fuel : ℕ) (ops : List TimerOp) (c : Config),
      Runs.run (timerStep wrapping fuel) (timersAtBoot heap clock) ops = some c →
      OnTime fuel c := by
  intro h
  have hearly := h (fun _ => ⟨none, 0, 0, .oneshot, none⟩) 1000 4
    [.create (some 1) 500 .oneshot (some 0), .tick 1, .handler 0] _ rfl 1001 1001 none 1 501 _
    rfl rfl
  exact absurd hearly (by decide)

end FrameworkXC32
