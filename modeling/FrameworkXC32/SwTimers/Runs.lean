import FrameworkXC32.SwTimers.Represent

/-!
# Runs of the software timers

A run interleaves the calls of the user, calls of `swTimerTaskHandler` and the passage of
time. A handler call is a sequence of passes through its loop, so that the calls a callback
makes are operations taken between two passes.
-/

namespace FrameworkXC32
open Machine LinkedHeap DeltaList

/-- Where the processor is: outside `swTimerTaskHandler`, or in its loop, with the clock value
that the call read first, the local variable `elapsed` and the timer whose callback is running. -/
inductive Control
  | idle
  | looping (read : ℕ) (elapsed : Word) (running : Option Ptr)

/-- `now` counts milliseconds since boot without wrapping; `began` records, for each timer, when
it was last started and with which interval. -/
structure Config where
  timers : Timers
  control : Control
  now : ℕ
  began : Ptr → ℕ × ℕ

namespace Config

def millis (c : Config) : Word := BitVec.ofNat 32 c.now

/-- User code runs outside the handler and in callbacks. -/
def userCode (c : Config) : Bool :=
  match c.control with
  | .idle => true
  | .looping _ _ running => running.isSome

end Config

inductive TimerOp
  | start (t : Ptr)
  | stop (t : Ptr)
  | create (malloc : Option Ptr) (interval : Word) (mode : SwTimerMode) (cb : Option ℕ)
  | edit (t : Ptr) (interval : Word) (mode : SwTimerMode) (cb : Option ℕ)
  | tick (ms : ℕ)
  | handler (ms : ℕ)
  | pass

/-- The record of a start, when the timer was not scheduled before. -/
def beganAfter (c : Config) (t : Ptr) (interval : ℕ) (scheduled : Bool) : Ptr → ℕ × ℕ :=
  if scheduled then c.began else Function.update c.began t (c.now, interval)

/-- One operation. `malloc` never returns the memory of a scheduled timer, and the interval of a
scheduled timer is not edited. `handler ms` enters a handler call whose two clock readings are
`ms` milliseconds apart. -/
def timerStep (A : Arith) (fuel : ℕ) (c : Config) : TimerOp → Option Config
  | .start t => if c.userCode then do
      let scheduled ← swTimerStarted fuel t c.timers
      let s ← swTimerStart A fuel t c.timers
      some { c with timers := s, began := beganAfter c t (c.timers.interval t) scheduled }
    else none
  | .stop t => if c.userCode then do
      let s ← swTimerStop A fuel t c.timers
      some { c with timers := s }
    else none
  | .create none interval mode cb => if c.userCode then do
      let s ← swTimer A fuel none interval mode cb c.timers
      some { c with timers := s }
    else none
  | .create (some p) interval mode cb => if c.userCode then do
      let scheduled ← swTimerStarted fuel p c.timers
      if scheduled then none else do
        let s ← swTimer A fuel (some p) interval mode cb c.timers
        some { c with timers := s, began := beganAfter c p interval.toNat false }
    else none
  | .edit t interval mode cb => if c.userCode then do
      let scheduled ← swTimerStarted fuel t c.timers
      let r := { c.timers.heap t with interval := interval, mode := mode, cb := cb }
      if scheduled ∧ interval ≠ (c.timers.heap t).interval then none else
        some { c with timers := c.timers.write t r }
    else none
  | .tick ms => some { c with now := c.now + ms }
  | .handler ms =>
    match c.control with
    | .looping .. => none
    | .idle =>
      match taskEnter c.millis (BitVec.ofNat 32 (c.now + ms)) c.timers with
      | (s, some elapsed) => some { c with
          timers := s, now := c.now + ms, control := .looping c.now elapsed none }
      | (s, none) => some { c with timers := s, now := c.now + ms }
  | .pass =>
    match c.control with
    | .idle => none
    | .looping read elapsed _ => do
      match ← taskPass A fuel elapsed c.timers with
      | .done s => some { c with timers := s, control := .idle }
      | .fired t elapsed s => some { c with
          timers := s
          control := .looping read elapsed (if (s.heap t).cb.isSome then some t else none) }

/-- The state at boot: no timer is scheduled. -/
def timersAtBoot (heap : Ptr → SwTimer) (clock : ℕ) : Config where
  timers := ⟨heap, none, 0⟩
  control := .idle
  now := clock
  began := fun _ => (clock, 0)

/-! ### A handler call is a run of passes -/

/-- The calls of a callback to this module. -/
inductive TimerCall
  | start (t : Ptr)
  | stop (t : Ptr)

def TimerCall.op : TimerCall → TimerOp
  | .start t => .start t
  | .stop t => .stop t

def TimerCall.exec (A : Arith) (fuel : ℕ) (s : Timers) : TimerCall → Option Timers
  | .start t => swTimerStart A fuel t s
  | .stop t => swTimerStop A fuel t s

lemma TimerCall.exec_step {A : Arith} {fuel : ℕ} {c : Config} (hc : c.userCode) {a : TimerCall}
    {s' : Timers} (h : a.exec A fuel c.timers = some s') :
    ∃ c', timerStep A fuel c a.op = some c' ∧ c'.timers = s' ∧ c'.control = c.control := by
  cases a with
  | start t =>
    obtain ⟨b, hb, -⟩ := Option.bind_eq_some_iff.mp h
    have hs : swTimerStart A fuel t c.timers = some s' := h
    have hb' : swTimerStarted fuel t c.timers = some b := hb
    simp [timerStep, TimerCall.op, hc, hb', hs]
  | stop t =>
    have hs : swTimerStop A fuel t c.timers = some s' := h
    simp [timerStep, TimerCall.op, hc, hs]

lemma TimerCall.exec_run {A : Arith} {fuel : ℕ} {calls : List TimerCall} {c : Config}
    (hc : c.userCode) {s' : Timers} (h : Runs.run (TimerCall.exec A fuel) c.timers calls = some s') :
    ∃ c', Runs.run (timerStep A fuel) c (calls.map TimerCall.op) = some c' ∧ c'.timers = s' ∧
      c'.control = c.control := by
  induction calls generalizing c with
  | nil =>
    cases h
    exact ⟨c, rfl, rfl, rfl⟩
  | cons a calls ih =>
    obtain ⟨s, ha, hrest⟩ := (Runs.run_cons_some _).mp h
    obtain ⟨d, hd, rfl, hctl⟩ := exec_step hc ha
    have hdc : d.userCode := by
      unfold Config.userCode at hc ⊢
      rw [hctl]
      exact hc
    obtain ⟨c', hrun, hs', hctl'⟩ := ih hdc hrest
    exact ⟨c', (Runs.run_cons_some _).mpr ⟨d, hd, hrun⟩, hs', hctl'.trans hctl⟩

/-- What the loop of `swTimerTaskHandler` does, with callbacks that start and stop timers, a run
of passes and of the callbacks' calls does. -/
theorem taskLoop_run {A : Arith} {fuel : ℕ} (script : ℕ → Ptr → Timers → List TimerCall) {n : ℕ}
    {elapsed : Word} {s' : Timers} {c : Config} {read : ℕ} {running : Option Ptr}
    (hctl : c.control = .looping read elapsed running)
    (h : taskLoop A (fun f t s => Runs.run (TimerCall.exec A fuel) s (script f t s)) fuel n elapsed
      c.timers = some s') :
    ∃ ops c', Runs.run (timerStep A fuel) c ops = some c' ∧ c'.timers = s' ∧
      c'.control = .idle := by
  induction n generalizing c elapsed running with
  | zero => simp [taskLoop] at h
  | succ n ih =>
    obtain ⟨r, hpass, h⟩ := Option.bind_eq_some_iff.mp h
    cases r with
    | done s =>
      cases h
      refine ⟨[.pass], { c with timers := s', control := .idle }, ?_, rfl, rfl⟩
      simp [Runs.run, timerStep, hctl, hpass]
    | fired t elapsed' s =>
      let running' := if (s.heap t).cb.isSome then some t else none
      let d : Config := { c with timers := s, control := .looping read elapsed' running' }
      have hctl' : d.control = .looping read elapsed' running' := rfl
      have hstep : timerStep A fuel c .pass = some d := by
        simp [timerStep, hctl, hpass, d, running']
      cases hcb : (s.heap t).cb with
      | none =>
        simp only [hcb] at h
        obtain ⟨ops, c', hrun, hs', hidle⟩ := ih hctl' h
        exact ⟨.pass :: ops, c', (Runs.run_cons_some _).mpr ⟨d, hstep, hrun⟩, hs', hidle⟩
      | some f =>
        simp only [hcb] at h
        obtain ⟨u, hcalls, h⟩ := Option.bind_eq_some_iff.mp h
        have hd : d.userCode := by simp [Config.userCode, d, running', hcb]
        obtain ⟨e, hrun, rfl, hectl⟩ := TimerCall.exec_run (c := d) hd hcalls
        obtain ⟨ops, c', hrun', hs', hidle⟩ := ih (hectl.trans hctl') h
        refine ⟨.pass :: ((script f t s).map TimerCall.op ++ ops), c', ?_, hs', hidle⟩
        refine (Runs.run_cons_some _).mpr ⟨d, hstep, ?_⟩
        exact (Runs.run_append_some _).mpr ⟨e, hrun, hrun'⟩

/-! ### The invariant of the delta list -/

/-- The timers of `l` are scheduled, each no longer than its interval. -/
structure Bounded (s : Timers) (l : List Ptr) : Prop where
  sched : s.Sched l
  rem_le : ∀ t ∈ l, rem s.delta l t ≤ s.interval t

lemma Bounded.rem_lt {s : Timers} {l : List Ptr} (h : Bounded s l) :
    ∀ t ∈ l, rem s.delta l t < 2 ^ 32 :=
  fun t ht => (h.rem_le t ht).trans_lt (s.heap t).interval.isLt

lemma Bounded.placed {s s' : Timers} {t : Ptr} {l₁ l₂ : List Ptr} (h : Bounded s (l₁ ++ l₂))
    (hp : Placed s s' t l₁ l₂) : Bounded s' (l₁ ++ t :: l₂) := by
  refine ⟨hp.sched, fun u hu => ?_⟩
  rw [hp.frame.interval_eq]
  by_cases hut : u ∈ l₁ ++ l₂
  · rw [hp.rem_other u hut]
    exact h.rem_le u hut
  · have hut' : u = t := by
      simp only [List.mem_append, List.mem_cons, not_or] at hu hut
      tauto
    rw [hut', hp.rem_self]

lemma Bounded.removed {s s' : Timers} {t : Ptr} {l₁ l₂ : List Ptr} (h : Bounded s (l₁ ++ t :: l₂))
    (hr : Removed s s' t l₁ l₂) : Bounded s' (l₁ ++ l₂) := by
  refine ⟨hr.sched, fun u hu => ?_⟩
  have hu' : u ∈ l₁ ++ t :: l₂ := by
    simp only [List.mem_append, List.mem_cons] at hu ⊢
    tauto
  rw [hr.frame.interval_eq, hr.rem_other u hu]
  exact h.rem_le u hu'

lemma Bounded.pop {s : Timers} {t : Ptr} {m : List Ptr} (h : Bounded s (t :: m)) :
    Bounded (s.pop t) m := by
  refine ⟨h.sched.2, fun u hu => ?_⟩
  have hut : u ≠ t := fun e => (List.nodup_cons.mp (Seg.nodup h.sched)).1 (e ▸ hu)
  have hle := h.rem_le u (by simp [hu])
  rw [rem_cons_of_ne _ _ hut] at hle
  change rem s.delta m u ≤ s.interval u
  omega

lemma Bounded.age {s : Timers} {l : List Ptr} (h : Bounded s l) (elapsed : Word)
    (hlt : ∀ a ∈ l.head?, elapsed.toNat < s.delta a) :
    Bounded (s.adjustHead (· - elapsed) l) l ∧
      ∀ u ∈ l, rem (s.adjustHead (· - elapsed) l).delta l u + elapsed.toNat = rem s.delta l u := by
  have hage : ∀ u ∈ l,
      rem (s.adjustHead (· - elapsed) l).delta l u + elapsed.toNat = rem s.delta l u := by
    intro u hu
    rw [Timers.delta_adjustHead_sub s elapsed (fun a ha => (hlt a ha).le)]
    exact rem_age s.delta (Seg.nodup h.sched) (fun a ha => (hlt a ha).le) hu
  refine ⟨⟨?_, fun u hu => ?_⟩, hage⟩
  · unfold Timers.Sched
    rw [Timers.next_adjustHead, Timers.sTimers_adjustHead]
    exact h.sched
  · have hle := h.rem_le u hu
    have hu' := hage u hu
    rw [(s.frame_adjustHead _ l).interval_eq]
    omega

/-- Rewriting the record of a timer that is not scheduled, with its `next` and `timeout` or
without, leaves the list alone; so does rewriting the mode and callback of a scheduled one. -/
lemma Bounded.write {s : Timers} {l : List Ptr} (h : Bounded s l) (t : Ptr) (r : SwTimer)
    (hr : t ∈ l → r.next = (s.heap t).next ∧ r.timeout = (s.heap t).timeout ∧
      r.interval = (s.heap t).interval) :
    Bounded (s.write t r) l ∧
      ∀ u ∈ l, rem (s.write t r).delta l u =
        rem s.delta l u := by
  let s' := s.write t r
  have hsame : ∀ a ∈ l, s'.next a = s.next a ∧ s'.delta a = s.delta a ∧
      s'.interval a = s.interval a := by
    intro a ha
    unfold Timers.next Timers.delta Timers.interval
    by_cases hat : a = t
    · subst hat
      have hra := hr ha
      simp [s', Timers.write, hra]
    · simp [s', Timers.write, Function.update_of_ne hat]
  have hrem : ∀ u ∈ l, rem s'.delta l u = rem s.delta l u :=
    fun u _ => rem_congr (fun a ha => (hsame a ha).2.1) u
  refine ⟨⟨Seg.congr h.sched (fun a ha => (hsame a ha).1), fun u hu => ?_⟩, hrem⟩
  rw [hrem u hu, (hsame u hu).2.2]
  exact h.rem_le u hu

/-! ### What a step can do -/

/-- The remaining time of `u` when the timers of `l` are scheduled. -/
def Config.rem (c : Config) (l : List Ptr) (u : Ptr) : ℕ := DeltaList.rem c.timers.delta l u

/-- The interval of a start that takes effect. -/
def effectiveStart (fuel : ℕ) (c : Config) : TimerOp → Option ℕ
  | .start t =>
    if swTimerStarted fuel t c.timers = some false then some (c.timers.interval t) else none
  | .create (some _) interval _ _ => some interval.toNat
  | _ => none

/-- Everything one operation can do to the schedule `l`, which becomes `l'`. -/
inductive StepSpec (started : Option ℕ) (c c' : Config) (l : List Ptr) : List Ptr → Prop
  /-- Nothing but the clock moves. -/
  | quiet (hrem : ∀ u ∈ l, c'.rem l u = c.rem l u) (hold : c'.timers.oldTime = c.timers.oldTime)
      (hcontrol : c'.control = c.control) (hnow : c.now ≤ c'.now) (hbegan : c'.began = c.began) :
      StepSpec started c c' l l
  /-- The user starts a timer that is not scheduled. -/
  | placed (t : Ptr) (interval : ℕ) (l₁ l₂ : List Ptr) (hl : l = l₁ ++ l₂) (ht : t ∉ l)
      (hstarted : started = some interval)
      (hself : c'.rem (l₁ ++ t :: l₂) t = interval)
      (hrem : ∀ u ∈ l, c'.rem (l₁ ++ t :: l₂) u = c.rem l u)
      (hold : c'.timers.oldTime = c.timers.oldTime) (hcontrol : c'.control = c.control)
      (hnow : c'.now = c.now) (hbegan : c'.began = Function.update c.began t (c.now, interval)) :
      StepSpec started c c' l (l₁ ++ t :: l₂)
  /-- The user stops a scheduled timer. -/
  | removed (t : Ptr) (l₁ l₂ : List Ptr) (hl : l = l₁ ++ t :: l₂)
      (hrem : ∀ u ∈ l₁ ++ l₂, c'.rem (l₁ ++ l₂) u = c.rem l u)
      (hold : c'.timers.oldTime = c.timers.oldTime) (hcontrol : c'.control = c.control)
      (hnow : c'.now = c.now) (hbegan : c'.began = c.began) : StepSpec started c c' l (l₁ ++ l₂)
  /-- A handler call finds time elapsed and enters its loop. -/
  | entered (stored : ℕ) (hstored : c.now ≤ stored) (hrem : ∀ u ∈ l, c'.rem l u = c.rem l u)
      (hold : c'.timers.oldTime = BitVec.ofNat 32 stored) (hidle : c.control = .idle)
      (hcontrol : c'.control = .looping c.now (c.millis - c.timers.oldTime) none)
      (hnow : c'.now = stored) (hbegan : c'.began = c.began) :
      StepSpec started c c' l l
  /-- The head of the schedule expires. -/
  | fired (t : Ptr) (m : List Ptr) (read : ℕ) (elapsed elapsed' : Word)
      (running running' : Option Ptr) (l' : List Ptr) (hl : l = t :: m)
      (hdue : c.rem l t ≤ elapsed.toNat) (helapsed : elapsed'.toNat = elapsed.toNat - c.rem l t)
      (hl' : ∀ u ∈ l', u = t ∨ u ∈ m)
      (hrem : ∀ u ∈ m, c'.rem l' u + c.rem l t = c.rem l u)
      (hold : c'.timers.oldTime = c.timers.oldTime)
      (hlooping : c.control = .looping read elapsed running)
      (hcontrol : c'.control = .looping read elapsed' running')
      (hnow : c'.now = c.now) (hbegan : c'.began = c.began) : StepSpec started c c' l l'
  /-- The loop ends, with no timer due. -/
  | left (read : ℕ) (elapsed : Word) (running : Option Ptr)
      (hdue : ∀ u ∈ l, elapsed.toNat < c.rem l u)
      (hrem : ∀ u ∈ l, c'.rem l u + elapsed.toNat = c.rem l u)
      (hold : c'.timers.oldTime = c.timers.oldTime)
      (hlooping : c.control = .looping read elapsed running) (hidle : c'.control = .idle)
      (hnow : c'.now = c.now) (hbegan : c'.began = c.began) :
      StepSpec started c c' l l

/-! What the state becomes, one operation at a time. -/

section Inversion

variable {A : Arith} {fuel : ℕ} {c c' : Config}

lemma start_step {t : Ptr} (hs : timerStep A fuel c (.start t) = some c') :
    ∃ scheduled s, swTimerStarted fuel t c.timers = some scheduled ∧
      swTimerStart A fuel t c.timers = some s ∧
      c' = { c with
        timers := s, began := beganAfter c t (c.timers.interval t) scheduled } := by
  simp only [timerStep] at hs
  split at hs
  · obtain ⟨b, hb, hs⟩ := Option.bind_eq_some_iff.mp hs
    obtain ⟨s, hstart, hs⟩ := Option.bind_eq_some_iff.mp hs
    exact ⟨b, s, hb, hstart, (Option.some.inj hs).symm⟩
  · cases hs

lemma stop_step {t : Ptr} (hs : timerStep A fuel c (.stop t) = some c') :
    ∃ s, swTimerStop A fuel t c.timers = some s ∧ c' = { c with timers := s } := by
  simp only [timerStep] at hs
  split at hs
  · obtain ⟨s, hstop, hs⟩ := Option.bind_eq_some_iff.mp hs
    exact ⟨s, hstop, (Option.some.inj hs).symm⟩
  · cases hs

lemma create_none_step {interval : Word} {mode : SwTimerMode} {cb : Option ℕ}
    (hs : timerStep A fuel c (.create none interval mode cb) = some c') : c' = c := by
  simp only [timerStep] at hs
  split at hs
  · exact (Option.some.inj hs).symm
  · cases hs

lemma create_step {p : Ptr} {interval : Word} {mode : SwTimerMode} {cb : Option ℕ}
    (hs : timerStep A fuel c (.create (some p) interval mode cb) = some c') :
    swTimerStarted fuel p c.timers = some false ∧ ∃ s,
      swTimerStart A fuel p (c.timers.write p ⟨none, 0, interval, mode, cb⟩) = some s ∧
      c' = { c with timers := s, began := beganAfter c p interval.toNat false } := by
  simp only [timerStep] at hs
  split at hs
  · obtain ⟨b, hb, hs⟩ := Option.bind_eq_some_iff.mp hs
    split at hs
    · cases hs
    · rename_i hfree
      obtain ⟨s, hstart, hs⟩ := Option.bind_eq_some_iff.mp hs
      rw [Bool.not_eq_true] at hfree
      rw [hfree] at hb
      exact ⟨hb, s, hstart, (Option.some.inj hs).symm⟩
  · cases hs

lemma edit_step {t : Ptr} {interval : Word} {mode : SwTimerMode} {cb : Option ℕ}
    (hs : timerStep A fuel c (.edit t interval mode cb) = some c') :
    ∃ scheduled, swTimerStarted fuel t c.timers = some scheduled ∧
      (scheduled = true → interval = (c.timers.heap t).interval) ∧
      c' = { c with
        timers := c.timers.write t
          { c.timers.heap t with interval := interval, mode := mode, cb := cb } } := by
  simp only [timerStep] at hs
  split at hs
  · obtain ⟨b, hb, hs⟩ := Option.bind_eq_some_iff.mp hs
    split at hs
    · cases hs
    · rename_i hok
      refine ⟨b, hb, fun hscheduled => ?_, (Option.some.inj hs).symm⟩
      by_contra hne
      exact hok ⟨hscheduled, hne⟩
  · cases hs

lemma handler_step {ms : ℕ} (hs : timerStep A fuel c (.handler ms) = some c') :
    c.control = .idle ∧
      ((taskEnter c.millis (BitVec.ofNat 32 (c.now + ms)) c.timers =
            ({ c.timers with oldTime := BitVec.ofNat 32 (c.now + ms) },
              some (c.millis - c.timers.oldTime)) ∧
          c' = { c with
            timers := { c.timers with oldTime := BitVec.ofNat 32 (c.now + ms) }
            now := c.now + ms
            control := .looping c.now (c.millis - c.timers.oldTime) none }) ∨
        (taskEnter c.millis (BitVec.ofNat 32 (c.now + ms)) c.timers = (c.timers, none) ∧
          c' = { c with now := c.now + ms })) := by
  simp only [timerStep] at hs
  split at hs
  · cases hs
  · rename_i hidle
    refine ⟨hidle, ?_⟩
    unfold taskEnter at hs ⊢
    by_cases hsome : c.timers.sTimers.isSome
    · rw [if_pos hsome] at hs ⊢
      dsimp only at hs ⊢
      by_cases hzero : c.millis - c.timers.oldTime ≠ 0
      · rw [if_pos hzero] at hs ⊢
        exact .inl ⟨rfl, (Option.some.inj hs).symm⟩
      · rw [if_neg hzero] at hs ⊢
        exact .inr ⟨rfl, (Option.some.inj hs).symm⟩
    · rw [if_neg hsome] at hs ⊢
      exact .inr ⟨rfl, (Option.some.inj hs).symm⟩

lemma pass_step (hs : timerStep A fuel c .pass = some c') : ∃ read elapsed running,
    c.control = .looping read elapsed running ∧
      ((∃ s, taskPass A fuel elapsed c.timers = some (.done s) ∧
          c' = { c with timers := s, control := .idle }) ∨
        ∃ t elapsed' s, taskPass A fuel elapsed c.timers = some (.fired t elapsed' s) ∧
          c' = { c with
            timers := s
            control := .looping read elapsed' (if (s.heap t).cb.isSome then some t else none) }) := by
  simp only [timerStep] at hs
  split at hs
  · cases hs
  · rename_i read elapsed running hlooping
    obtain ⟨r, hpass, hs⟩ := Option.bind_eq_some_iff.mp hs
    refine ⟨read, elapsed, running, hlooping, ?_⟩
    cases r with
    | done s => exact .inl ⟨s, hpass, (Option.some.inj hs).symm⟩
    | fired t elapsed' s => exact .inr ⟨t, elapsed', s, hpass, (Option.some.inj hs).symm⟩

end Inversion

section Step

variable {A : Arith} (hA : A.Exact) {fuel : ℕ} {c c' : Config} {l : List Ptr}
include hA

lemma start_spec {s s' : Timers} {t : Ptr} (hs : Bounded s l)
    (hrem : ∀ u ∈ l, DeltaList.rem s.delta l u = c.rem l u)
    (hold : s.oldTime = c.timers.oldTime) (ht : t ∉ l) (h : swTimerStart A fuel t s = some s')
    (hc' : c' = { c with
      timers := s', began := Function.update c.began t (c.now, s.interval t) }) :
    ∃ l', Bounded c'.timers l' ∧ StepSpec (some (s.interval t)) c c' l l' := by
  subst hc'
  rcases swTimerStart_some hA hs.sched h with ⟨hmem, -⟩ | ⟨-, l₁, l₂, rfl, hp⟩
  · exact absurd hmem ht
  · refine ⟨l₁ ++ t :: l₂, hs.placed hp, ?_⟩
    refine .placed t (s.interval t) l₁ l₂ rfl ht rfl hp.rem_self ?_ ?_ rfl rfl rfl
    · intro u hu
      exact (hp.rem_other u hu).trans (hrem u hu)
    · exact hp.frame.oldTime.trans hold

lemma start_step_spec {t : Ptr} (h : Bounded c.timers l)
    (hs : timerStep A fuel c (.start t) = some c') :
    ∃ l', Bounded c'.timers l' ∧ StepSpec (effectiveStart fuel c (.start t)) c c' l l' := by
  obtain ⟨b, s, hb, hstart, rfl⟩ := start_step hs
  have hbl := swTimerStarted_some h.sched hb
  by_cases ht : t ∈ l
  · rcases swTimerStart_some hA h.sched hstart with ⟨-, rfl⟩ | ⟨hnot, -⟩
    · refine ⟨l, h, .quiet (fun _ _ => rfl) rfl rfl (Nat.le_refl _) ?_⟩
      simp [hbl, ht, beganAfter]
    · exact absurd ht hnot
  · have heff : effectiveStart fuel c (.start t) = some (c.timers.interval t) := by
      simp [effectiveStart, hb, hbl, ht]
    rw [heff]
    refine start_spec hA h (fun _ _ => rfl) rfl ht hstart ?_
    simp [hbl, ht, beganAfter]

lemma stop_step_spec {t : Ptr} (h : Bounded c.timers l)
    (hs : timerStep A fuel c (.stop t) = some c') :
    ∃ l', Bounded c'.timers l' ∧ StepSpec (effectiveStart fuel c (.stop t)) c c' l l' := by
  obtain ⟨s, hstop, rfl⟩ := stop_step hs
  rcases swTimerStop_some hA h.sched h.rem_lt hstop with ⟨-, rfl⟩ | ⟨l₁, l₂, rfl, hr⟩
  · exact ⟨l, h, .quiet (fun _ _ => rfl) rfl rfl (Nat.le_refl _) rfl⟩
  · exact ⟨l₁ ++ l₂, h.removed hr,
      .removed t l₁ l₂ rfl hr.rem_other hr.frame.oldTime rfl rfl rfl⟩

lemma create_step_spec {malloc : Option Ptr} {interval : Word} {mode : SwTimerMode} {cb : Option ℕ}
    (h : Bounded c.timers l) (hs : timerStep A fuel c (.create malloc interval mode cb) = some c') :
    ∃ l', Bounded c'.timers l' ∧
      StepSpec (effectiveStart fuel c (.create malloc interval mode cb)) c c' l l' := by
  cases malloc with
  | none =>
    rw [create_none_step hs]
    exact ⟨l, h, .quiet (fun _ _ => rfl) rfl rfl (Nat.le_refl _) rfl⟩
  | some p =>
    obtain ⟨hfree, s, hstart, hc'⟩ := create_step hs
    have hp : p ∉ l := by simpa using swTimerStarted_some h.sched hfree
    obtain ⟨hw, hrem⟩ := h.write p ⟨none, 0, interval, mode, cb⟩ (fun e => absurd e hp)
    have heff : effectiveStart fuel c (.create (some p) interval mode cb) =
        some ((c.timers.write p ⟨none, 0, interval, mode, cb⟩).interval p) := by
      simp [effectiveStart, Timers.interval, Timers.write]
    rw [heff]
    refine start_spec hA hw hrem rfl hp hstart (hc'.trans ?_)
    simp [beganAfter, Timers.interval, Timers.write]

omit hA in
lemma edit_step_spec {t : Ptr} {interval : Word} {mode : SwTimerMode} {cb : Option ℕ}
    (h : Bounded c.timers l) (hs : timerStep A fuel c (.edit t interval mode cb) = some c') :
    ∃ l', Bounded c'.timers l' ∧
      StepSpec (effectiveStart fuel c (.edit t interval mode cb)) c c' l l' := by
  obtain ⟨b, hb, hsame, rfl⟩ := edit_step hs
  have hbl := swTimerStarted_some h.sched hb
  obtain ⟨hw, hrem⟩ := h.write t
    { c.timers.heap t with interval := interval, mode := mode, cb := cb }
    (fun ht => ⟨rfl, rfl, hsame (by simp [hbl, ht])⟩)
  exact ⟨l, hw, .quiet hrem rfl rfl (Nat.le_refl _) rfl⟩

omit hA in
lemma handler_step_spec {ms : ℕ} (h : Bounded c.timers l)
    (hs : timerStep A fuel c (.handler ms) = some c') :
    ∃ l', Bounded c'.timers l' ∧ StepSpec (effectiveStart fuel c (.handler ms)) c c' l l' := by
  obtain ⟨hidle, ⟨-, rfl⟩ | ⟨-, rfl⟩⟩ := handler_step hs
  · refine ⟨l, ⟨h.sched, h.rem_le⟩, ?_⟩
    exact .entered (c.now + ms) (Nat.le_add_right _ _) (fun _ _ => rfl) rfl hidle rfl rfl rfl
  · exact ⟨l, h, .quiet (fun _ _ => rfl) rfl rfl (Nat.le_add_right _ _) rfl⟩

lemma pass_done_spec {read : ℕ} {elapsed : Word} {running : Option Ptr} {s : Timers}
    (h : Bounded c.timers l) (hlooping : c.control = .looping read elapsed running)
    (hpass : taskPass A fuel elapsed c.timers = some (.done s))
    (hc' : c' = { c with timers := s, control := .idle }) :
    ∃ l', Bounded c'.timers l' ∧ StepSpec none c c' l l' := by
  subst hc'
  obtain ⟨hlt, rfl⟩ := taskPass_done hA h.sched hpass
  obtain ⟨hb, hage⟩ := h.age elapsed hlt
  refine ⟨l, hb, .left read elapsed running ?_ hage ?_ hlooping rfl rfl rfl⟩
  · intro u hu
    cases l with
    | nil => simp at hu
    | cons a l =>
      have ha : a ∈ (a :: l).head? := by simp
      exact (hlt a ha).trans_le (head_le_rem c.timers.delta ha)
  · exact (c.timers.frame_adjustHead _ l).oldTime

lemma pass_fired_spec {read : ℕ} {elapsed elapsed' : Word} {running running' : Option Ptr}
    {t : Ptr} {s : Timers} (h : Bounded c.timers l)
    (hlooping : c.control = .looping read elapsed running)
    (hpass : taskPass A fuel elapsed c.timers = some (.fired t elapsed' s))
    (hc' : c' = { c with timers := s, control := .looping read elapsed' running' }) :
    ∃ l', Bounded c'.timers l' ∧ StepSpec none c c' l l' := by
  subst hc'
  obtain ⟨m, rfl, hdue, helapsed, hcase⟩ := taskPass_fired hA h.sched hpass
  have hrem : c.rem (t :: m) t = c.timers.delta t := rem_cons_self _ t m
  have htm : t ∉ m := (List.nodup_cons.mp (Seg.nodup h.sched)).1
  have hother : ∀ u ∈ m, c.rem (t :: m) u = c.timers.delta t + DeltaList.rem c.timers.delta m u :=
    fun u hu => rem_cons_of_ne _ m (ne_of_mem_of_not_mem hu htm)
  rw [← hrem] at hdue helapsed
  rcases hcase with ⟨-, rfl⟩ | ⟨-, l₁, l₂, rfl, hp⟩
  · refine ⟨m, h.pop, ?_⟩
    refine .fired t m read elapsed elapsed' running _ m rfl hdue helapsed
      (fun u hu => .inr hu) ?_ rfl hlooping rfl rfl rfl
    intro u hu
    rw [hother u hu, hrem, Nat.add_comm]
    rfl
  · refine ⟨l₁ ++ t :: l₂, h.pop.placed hp, ?_⟩
    refine .fired t (l₁ ++ l₂) read elapsed elapsed' running _ (l₁ ++ t :: l₂) rfl hdue
      helapsed ?_ ?_ hp.frame.oldTime hlooping rfl rfl rfl
    · intro u hu
      simp only [List.mem_append, List.mem_cons] at hu ⊢
      tauto
    · intro u hu
      rw [hother u hu, hrem, Nat.add_comm]
      exact congrArg (c.timers.delta t + ·) (hp.rem_other u hu)

lemma pass_step_spec (h : Bounded c.timers l) (hs : timerStep A fuel c .pass = some c') :
    ∃ l', Bounded c'.timers l' ∧ StepSpec (effectiveStart fuel c .pass) c c' l l' := by
  obtain ⟨read, elapsed, running, hlooping, ⟨s, hpass, hc'⟩ | ⟨t, elapsed', s, hpass, hc'⟩⟩ :=
    pass_step hs
  · exact pass_done_spec hA h hlooping hpass hc'
  · exact pass_fired_spec hA h hlooping hpass hc'

/-- The spec of a step: every operation that can be taken keeps a schedule and does one of the six
things to it. -/
theorem timerStep_spec {op : TimerOp} (h : Bounded c.timers l)
    (hs : timerStep A fuel c op = some c') :
    ∃ l', Bounded c'.timers l' ∧ StepSpec (effectiveStart fuel c op) c c' l l' := by
  cases op with
  | start t => exact start_step_spec hA h hs
  | stop t => exact stop_step_spec hA h hs
  | create malloc interval mode cb => exact create_step_spec hA h hs
  | edit t interval mode cb => exact edit_step_spec h hs
  | tick ms =>
    simp only [timerStep] at hs
    cases hs
    exact ⟨l, h, .quiet (fun _ _ => rfl) rfl rfl (Nat.le_add_right _ _) rfl⟩
  | handler ms => exact handler_step_spec h hs
  | pass => exact pass_step_spec hA h hs

end Step

end FrameworkXC32
