import FrameworkXC32.SwTimers.Firing

/-!
# Where the milliseconds go

A ledger beside a run of the software timers adds up what the handler calls consume and counts
how often each timer expires. What is consumed reaches the timers to the last millisecond; it is
the advance of `oldTime` as long as the two clock readings of each handler call agree.
-/

namespace FrameworkXC32
open Machine LinkedHeap DeltaList

/-- The value of `elapsed` with which a handler call enters its loop. -/
def consumedBy (c : Config) : TimerOp → ℕ
  | .handler ms =>
    match c.control, (taskEnter c.millis (BitVec.ofNat 32 (c.now + ms)) c.timers).2 with
    | .idle, some elapsed => elapsed.toNat
    | _, _ => 0
  | _ => 0

/-- The timer that expires in a pass through the loop. -/
def firedBy (fuel : ℕ) (c : Config) : TimerOp → Option Ptr
  | .pass =>
    match c.control with
    | .looping _ elapsed _ =>
      match taskPass wrapping fuel elapsed c.timers with
      | some (.fired t _ _) => some t
      | _ => none
    | .idle => none
  | _ => none

structure Ledger where
  config : Config
  consumed : ℕ
  fires : Ptr → ℕ

def Ledger.start (c : Config) : Ledger := ⟨c, 0, fun _ => 0⟩

def Ledger.step (fuel : ℕ) (b : Ledger) (op : TimerOp) : Option Ledger := do
  let c ← timerStep wrapping fuel b.config op
  some {
    config := c
    consumed := b.consumed + consumedBy b.config op
    fires := fun t => b.fires t + if firedBy fuel b.config op = some t then 1 else 0 }

/-- What a handler call has consumed and not yet handed to the timers. -/
def Config.unspent (c : Config) : ℕ :=
  match c.control with
  | .looping _ elapsed _ => elapsed.toNat
  | .idle => 0

/-- `t` is stopped, or no longer periodic. -/
def TimerOp.disturbs : TimerOp → Ptr → Prop
  | .stop u, t => u = t
  | .edit u _ mode _, t => u = t ∧ mode = .oneshot
  | _, _ => False

/-- A handler call that enters its loop reads the same time twice. -/
def ReadsAgree (b : Ledger) (op : TimerOp) : Prop :=
  ∀ ms, op = .handler ms → b.config.control = .idle →
    (taskEnter b.config.millis (BitVec.ofNat 32 (b.config.now + ms)) b.config.timers).2 ≠ none →
    BitVec.ofNat 32 (b.config.now + ms) = b.config.millis

/-! ### One operation -/

/-- The scheduled timer `t` is scheduled as before. -/
structure Carried (s s' : Timers) (l l' : List Ptr) (t : Ptr) : Prop where
  mem : t ∈ l'
  mode : (s'.heap t).mode = (s.heap t).mode
  interval : s'.interval t = s.interval t
  rem_eq : rem s'.delta l' t = rem s.delta l t

lemma Carried.refl (s : Timers) {l : List Ptr} {t : Ptr} (ht : t ∈ l) : Carried s s l l t :=
  ⟨ht, rfl, rfl, rfl⟩

lemma Carried.trans {s s' s'' : Timers} {l l' l'' : List Ptr} {t : Ptr}
    (h : Carried s s' l l' t) (h' : Carried s' s'' l' l'' t) : Carried s s'' l l'' t where
  mem := h'.mem
  mode := h'.mode.trans h.mode
  interval := h'.interval.trans h.interval
  rem_eq := h'.rem_eq.trans h.rem_eq

section User

variable {fuel : ℕ} {s s' : Timers} {l : List Ptr} {t : Ptr}

lemma start_carries (h : Bounded s l) (hs : swTimerStart wrapping fuel t s = some s') :
    s'.oldTime = s.oldTime ∧ ∃ l', Bounded s' l' ∧ ∀ u ∈ l, Carried s s' l l' u := by
  rcases swTimerStart_some wrapping_exact h.sched hs with ⟨-, rfl⟩ | ⟨-, l₁, l₂, rfl, hp⟩
  · exact ⟨rfl, l, h, fun u hu => Carried.refl _ hu⟩
  · refine ⟨hp.frame.oldTime, l₁ ++ t :: l₂, h.placed hp, fun u hu => ?_⟩
    refine ⟨?_, hp.frame.mode u, congrFun hp.frame.interval_eq u, hp.rem_other u hu⟩
    simp only [List.mem_append, List.mem_cons] at hu ⊢
    tauto

lemma stop_carries (h : Bounded s l) (hs : swTimerStop wrapping fuel t s = some s') :
    s'.oldTime = s.oldTime ∧ ∃ l', Bounded s' l' ∧ ∀ u ∈ l, u ≠ t → Carried s s' l l' u := by
  rcases swTimerStop_some wrapping_exact h.sched h.rem_lt hs with ⟨-, rfl⟩ | ⟨l₁, l₂, rfl, hr⟩
  · exact ⟨rfl, l, h, fun u hu _ => Carried.refl _ hu⟩
  · refine ⟨hr.frame.oldTime, l₁ ++ l₂, h.removed hr, fun u hu hut => ?_⟩
    have hmem : u ∈ l₁ ++ l₂ := by
      simp only [List.mem_append, List.mem_cons] at hu ⊢
      tauto
    exact ⟨hmem, hr.frame.mode u, congrFun hr.frame.interval_eq u, hr.rem_other u hmem⟩

lemma write_carries (h : Bounded s l) (t : Ptr) (r : SwTimer)
    (hr : t ∈ l → r.next = (s.heap t).next ∧ r.timeout = (s.heap t).timeout ∧
      r.interval = (s.heap t).interval) :
    Bounded (s.write t r) l ∧ ∀ u ∈ l, (u = t → r.mode = (s.heap t).mode) →
      Carried s (s.write t r) l l u := by
  obtain ⟨hb, hrem⟩ := h.write t r hr
  refine ⟨hb, fun u hu hmode => ?_⟩
  by_cases hut : u = t
  · subst hut
    refine ⟨hu, ?_, ?_, hrem u hu⟩
    · simpa [Timers.write] using hmode rfl
    · simp [Timers.interval, Timers.write, (hr hu).2.2]
  · refine ⟨hu, ?_, ?_, hrem u hu⟩
    · simp [Timers.write, hut]
    · simp [Timers.interval, Timers.write, hut]

end User

section Step

variable {fuel : ℕ} {c c' : Config} {l : List Ptr}

/-- Between the passes of the handler the user's calls touch no other timer, and neither `oldTime`
nor the handler's `elapsed`. -/
lemma userStep_spec {op : TimerOp} (h : Bounded c.timers l)
    (hs : timerStep wrapping fuel c op = some c') (hpass : op ≠ .pass)
    (hhandler : ∀ ms, op ≠ .handler ms) :
    c'.control = c.control ∧ c'.timers.oldTime = c.timers.oldTime ∧
      ∃ l', Bounded c'.timers l' ∧ ∀ t ∈ l, (c.timers.heap t).mode = .periodic →
        ¬op.disturbs t → Carried c.timers c'.timers l l' t := by
  cases op with
  | start t =>
    obtain ⟨_, s, -, hstart, rfl⟩ := start_step hs
    obtain ⟨hold, l', hb, hcarry⟩ := start_carries h hstart
    exact ⟨rfl, hold, l', hb, fun u hu _ _ => hcarry u hu⟩
  | stop t =>
    obtain ⟨s, hstop, rfl⟩ := stop_step hs
    obtain ⟨hold, l', hb, hcarry⟩ := stop_carries h hstop
    exact ⟨rfl, hold, l', hb, fun u hu _ hne => hcarry u hu (Ne.symm hne)⟩
  | create malloc interval mode cb =>
    cases malloc with
    | none =>
      rw [create_none_step hs]
      exact ⟨rfl, rfl, l, h, fun u hu _ _ => Carried.refl _ hu⟩
    | some p =>
      obtain ⟨hfree, s, hstart, rfl⟩ := create_step hs
      have hp : p ∉ l := by simpa using swTimerStarted_some h.sched hfree
      obtain ⟨hw, hwrite⟩ := write_carries h p ⟨none, 0, interval, mode, cb⟩
        (fun e => absurd e hp)
      obtain ⟨hold, l', hb', hcarry⟩ := start_carries hw hstart
      refine ⟨rfl, hold, l', hb', fun u hu _ _ => ?_⟩
      exact (hwrite u hu (fun e => absurd (e ▸ hu) hp)).trans (hcarry u hu)
  | edit t interval mode cb =>
    obtain ⟨b, hb, hsame, rfl⟩ := edit_step hs
    have hbl := swTimerStarted_some h.sched hb
    obtain ⟨hw, hwrite⟩ := write_carries h t
      { c.timers.heap t with interval := interval, mode := mode, cb := cb }
      (fun ht => ⟨rfl, rfl, hsame (by simp [hbl, ht])⟩)
    refine ⟨rfl, rfl, l, hw, fun u hu hmode hne => hwrite u hu (fun e => ?_)⟩
    subst e
    cases mode with
    | periodic => exact hmode.symm
    | oneshot => exact absurd ⟨rfl, rfl⟩ hne
  | tick ms =>
    cases hs
    exact ⟨rfl, rfl, l, h, fun u hu _ _ => Carried.refl _ hu⟩
  | handler ms => exact absurd rfl (hhandler ms)
  | pass => exact absurd rfl hpass

lemma handlerStep_spec {ms : ℕ} (hs : timerStep wrapping fuel c (.handler ms) = some c') :
    c.control = .idle ∧ c'.timers.heap = c.timers.heap ∧
      c'.timers.sTimers = c.timers.sTimers ∧
      c'.unspent = consumedBy c (.handler ms) ∧
      (c'.timers.oldTime = c.timers.oldTime ∧ consumedBy c (.handler ms) = 0 ∧
          (taskEnter c.millis (BitVec.ofNat 32 (c.now + ms)) c.timers).2 = none ∨
        c'.timers.oldTime = BitVec.ofNat 32 (c.now + ms) ∧
          consumedBy c (.handler ms) = (c.millis - c.timers.oldTime).toNat ∧
          (taskEnter c.millis (BitVec.ofNat 32 (c.now + ms)) c.timers).2 ≠ none) := by
  obtain ⟨hidle, ⟨henter, rfl⟩ | ⟨henter, rfl⟩⟩ := handler_step hs
  · have hconsumed : consumedBy c (.handler ms) = (c.millis - c.timers.oldTime).toNat := by
      simp only [consumedBy, hidle, henter]
    rw [hconsumed, henter]
    exact ⟨hidle, rfl, rfl, rfl, .inr ⟨rfl, rfl, by simp⟩⟩
  · have hconsumed : consumedBy c (.handler ms) = 0 := by
      simp only [consumedBy, hidle, henter]
    rw [hconsumed, henter]
    refine ⟨hidle, rfl, rfl, ?_, .inl ⟨rfl, rfl, rfl⟩⟩
    simp [Config.unspent, hidle]

/-- What a pass takes from `elapsed` it takes from every scheduled timer; the one that expires
gets its interval back. -/
lemma passStep_spec (h : Bounded c.timers l) (hs : timerStep wrapping fuel c .pass = some c') :
    c'.timers.oldTime = c.timers.oldTime ∧
      ∃ l', Bounded c'.timers l' ∧ ∀ t ∈ l, (c.timers.heap t).mode = .periodic →
        t ∈ l' ∧ (c'.timers.heap t).mode = .periodic ∧
        c'.timers.interval t = c.timers.interval t ∧
        c'.rem l' t + c.unspent = c.rem l t + c'.unspent +
          if firedBy fuel c .pass = some t then c.timers.interval t else 0 := by
  obtain ⟨read, elapsed, running, hlooping, hcase⟩ := pass_step hs
  have hunspent : c.unspent = elapsed.toNat := by simp [Config.unspent, hlooping]
  rcases hcase with ⟨s, hpass, rfl⟩ | ⟨u, elapsed', s, hpass, rfl⟩
  · obtain ⟨hlt, rfl⟩ := taskPass_done wrapping_exact h.sched hpass
    obtain ⟨hb, hage⟩ := h.age elapsed hlt
    have hframe := c.timers.frame_adjustHead (· - elapsed) l
    have hfired : firedBy fuel c .pass = none := by simp [firedBy, hlooping, hpass]
    refine ⟨hframe.oldTime, l, hb, fun t ht hmode => ⟨ht, ?_, ?_, ?_⟩⟩
    · exact (hframe.mode t).trans hmode
    · exact congrFun hframe.interval_eq t
    · rw [hfired, hunspent]
      exact hage t ht
  · obtain ⟨m, l', rfl, hdue, helapsed, hexp⟩ := taskPass_expired wrapping_exact h hpass
    have hfired : firedBy fuel c .pass = some u := by simp [firedBy, hlooping, hpass]
    refine ⟨hexp.frame.oldTime, l', hexp.bounded, fun t ht hmode => ⟨?_, ?_, ?_, ?_⟩⟩
    · by_cases htu : t = u
      · subst htu
        exact hexp.mem_self.mpr hmode
      · exact (hexp.mem_of_ne htu).mpr ((List.mem_cons.mp ht).resolve_left htu)
    · exact (hexp.frame.mode t).trans hmode
    · exact congrFun hexp.frame.interval_eq t
    · rw [hfired, hunspent]
      change rem s.delta l' t + elapsed.toNat =
        rem c.timers.delta (u :: m) t + elapsed'.toNat + _
      by_cases htu : t = u
      · subst htu
        rw [hexp.rem_self hmode, rem_cons_self, if_pos rfl]
        omega
      · have hrem := hexp.rem_other t ((List.mem_cons.mp ht).resolve_left htu)
        rw [if_neg (fun e => htu (Option.some.inj e).symm)]
        omega

/-- One entry of the ledger: for a timer that stays periodic and scheduled, what the operation
consumes is what the timer comes closer, less what it gets back when it expires. -/
lemma timerStep_balance {op : TimerOp} (h : Bounded c.timers l)
    (hs : timerStep wrapping fuel c op = some c') :
    ∃ l', Bounded c'.timers l' ∧ ∀ t ∈ l, (c.timers.heap t).mode = .periodic → ¬op.disturbs t →
      t ∈ l' ∧ (c'.timers.heap t).mode = .periodic ∧
      c'.timers.interval t = c.timers.interval t ∧
      c'.rem l' t + consumedBy c op + c.unspent = c.rem l t + c'.unspent +
        if firedBy fuel c op = some t then c.timers.interval t else 0 := by
  by_cases hpass : op = .pass
  · subst hpass
    obtain ⟨-, l', hb, hcarry⟩ := passStep_spec h hs
    exact ⟨l', hb, fun t ht hmode _ => hcarry t ht hmode⟩
  · by_cases hhandler : ∃ ms, op = .handler ms
    · obtain ⟨ms, rfl⟩ := hhandler
      obtain ⟨hidle, hheap, hhead, hunspent, -⟩ := handlerStep_spec hs
      have hdelta : c'.timers.delta = c.timers.delta := by
        unfold Timers.delta
        rw [hheap]
      have hinterval : c'.timers.interval = c.timers.interval := by
        unfold Timers.interval
        rw [hheap]
      have hrem : ∀ t, c'.rem l t = c.rem l t := by
        intro t
        unfold Config.rem
        rw [hdelta]
      refine ⟨l, ⟨?_, fun t ht => ?_⟩, fun t ht hmode _ => ⟨ht, ?_, congrFun hinterval t, ?_⟩⟩
      · have hnext : c'.timers.next = c.timers.next := by
          unfold Timers.next
          rw [hheap]
        unfold Timers.Sched
        rw [hnext, hhead]
        exact h.sched
      · rw [hdelta, hinterval]
        exact h.rem_le t ht
      · rw [hheap]
        exact hmode
      · have hzero : c.unspent = 0 := by simp [Config.unspent, hidle]
        rw [hrem, hunspent, hzero]
        simp [firedBy]
    · have hne : ∀ ms, op ≠ .handler ms := fun ms e => hhandler ⟨ms, e⟩
      obtain ⟨hctl, -, l', hb, hcarry⟩ := userStep_spec h hs hpass hne
      refine ⟨l', hb, fun t ht hmode hop => ?_⟩
      have ht' := hcarry t ht hmode hop
      have hunspent : c'.unspent = c.unspent := by
        unfold Config.unspent
        rw [hctl]
      have hquiet : consumedBy c op = 0 ∧ firedBy fuel c op = none := by
        cases op with
        | pass => exact absurd rfl hpass
        | handler ms => exact absurd rfl (hne ms)
        | _ => exact ⟨rfl, rfl⟩
      refine ⟨ht'.mem, ht'.mode.trans hmode, ht'.interval, ?_⟩
      have hrem : c'.rem l' t = c.rem l t := ht'.rem_eq
      rw [hrem, hunspent, hquiet.1, hquiet.2]
      simp

lemma timerStep_oldTime_iff {op : TimerOp} (h : Bounded c.timers l)
    (hs : timerStep wrapping fuel c op = some c') (b : Ledger) (hb : b.config = c) :
    c'.timers.oldTime = c.timers.oldTime + BitVec.ofNat 32 (consumedBy c op) ↔
      ReadsAgree b op := by
  subst hb
  by_cases hpass : op = .pass
  · subst hpass
    obtain ⟨hold, -⟩ := passStep_spec h hs
    exact iff_of_true (by simp [hold, consumedBy]) (fun ms e => by cases e)
  · by_cases hhandler : ∃ ms, op = .handler ms
    · obtain ⟨ms, rfl⟩ := hhandler
      obtain ⟨hidle, -, -, -, ⟨hold, hzero, hnone⟩ | ⟨hold, helapsed, hsome⟩⟩ := handlerStep_spec hs
      · refine iff_of_true (by simp [hold, hzero]) (fun ms' e _ hne => ?_)
        cases e
        exact absurd hnone hne
      · rw [hold, helapsed, BitVec.ofNat_toNat, BitVec.setWidth_eq]
        constructor
        · rintro heq ms' e - -
          cases e
          bv_omega
        · intro hreads
          have heq := hreads ms rfl hidle hsome
          bv_omega
    · have hne : ∀ ms, op ≠ .handler ms := fun ms e => hhandler ⟨ms, e⟩
      obtain ⟨-, hold, -⟩ := userStep_spec h hs hpass hne
      have hzero : consumedBy b.config op = 0 := by
        cases op with
        | handler ms => exact absurd rfl (hne ms)
        | _ => rfl
      exact iff_of_true (by simp [hold, hzero]) (fun ms e => absurd e (hne ms))

end Step

/-! ### Runs -/

section Run

variable {fuel : ℕ}

lemma ledgerStep_some {b b' : Ledger} {op : TimerOp} (h : b.step fuel op = some b') :
    timerStep wrapping fuel b.config op = some b'.config ∧
      b'.consumed = b.consumed + consumedBy b.config op ∧
      ∀ t, b'.fires t = b.fires t + if firedBy fuel b.config op = some t then 1 else 0 := by
  obtain ⟨c, hc, hb⟩ := Option.bind_eq_some_iff.mp h
  cases hb
  exact ⟨hc, rfl, fun t => rfl⟩

/-- The account of the timer `t` since the state `c`. -/
structure Balanced (c : Config) (l : List Ptr) (t : Ptr) (b : Ledger) (l' : List Ptr) : Prop where
  bounded : Bounded b.config.timers l'
  mem : t ∈ l'
  mode : (b.config.timers.heap t).mode = .periodic
  interval : b.config.timers.interval t = c.timers.interval t
  account : b.config.rem l' t + b.consumed =
    c.rem l t + b.fires t * c.timers.interval t + b.config.unspent

lemma Balanced.step {c : Config} {l l' : List Ptr} {t : Ptr} {b b' : Ledger} {op : TimerOp}
    (h : Balanced c l t b l') (hop : ¬op.disturbs t) (hs : b.step fuel op = some b') :
    ∃ l'', Balanced c l t b' l'' := by
  obtain ⟨hstep, hconsumed, hfires⟩ := ledgerStep_some hs
  obtain ⟨l'', hb, hcarry⟩ := timerStep_balance h.bounded hstep
  obtain ⟨hmem, hmode, hinterval, haccount⟩ := hcarry t h.mem h.mode hop
  refine ⟨l'', hb, hmem, hmode, hinterval.trans h.interval, ?_⟩
  have hbefore := h.account
  rw [hconsumed, hfires t]
  rw [h.interval] at haccount
  by_cases hfired : firedBy fuel b.config op = some t
  · rw [if_pos hfired] at haccount ⊢
    rw [Nat.add_mul, Nat.one_mul]
    omega
  · rw [if_neg hfired] at haccount ⊢
    rw [Nat.add_zero]
    omega

/-- A timer that stays periodic and scheduled: its remaining time and everything consumed make up
its first remaining time, one interval for every expiry and what is still unspent. -/
theorem balanced_of_run {c : Config} {l : List Ptr} (hl : Bounded c.timers l)
    (hidle : c.control = .idle) {t : Ptr} (ht : t ∈ l) (hmode : (c.timers.heap t).mode = .periodic)
    {ops : List TimerOp} (hops : ∀ op ∈ ops, ¬op.disturbs t) {b : Ledger}
    (h : Runs.run (Ledger.step fuel) (Ledger.start c) ops = some b) :
    ∃ l', Balanced c l t b l' := by
  have keep : ∀ b op b', (∃ l', Balanced c l t b l') → ¬op.disturbs t →
      Ledger.step fuel b op = some b' → ∃ l', Balanced c l t b' l' := by
    rintro b op b' ⟨l', hb⟩ hop hs
    exact hb.step hop hs
  have hstart : ∃ l', Balanced c l t (Ledger.start c) l' := by
    refine ⟨l, hl, ht, hmode, rfl, ?_⟩
    simp [Ledger.start, Config.unspent, hidle]
  apply Runs.run_invariant keep hstart _ h
  apply Runs.guarded_of_reached
  intro p op q _ hp _
  exact hops op (by simp [hp])

/-- Over any run from a reachable state between two handler calls: what the calls have consumed is
at every moment the advance of `oldTime`, and no periodic timer that is left running gains or
loses a millisecond against it, exactly when every call that enters its loop reads the same
time twice. -/
theorem swTimers_conserve_time_iff {heap : Ptr → SwTimer} {clock : ℕ} {past : List TimerOp}
    {c : Config}
    (h : Runs.run (timerStep wrapping fuel) (timersAtBoot heap clock) past = some c)
    (hidle : c.control = .idle) (ops : List TimerOp) :
    ∃ l, c.timers.Sched l ∧
      ((∀ done b, done <+: ops → Runs.run (Ledger.step fuel) (Ledger.start c) done = some b →
          b.config.timers.oldTime - c.timers.oldTime = BitVec.ofNat 32 b.consumed ∧
          ∀ t ∈ l, (c.timers.heap t).mode = .periodic → (∀ op ∈ done, ¬op.disturbs t) →
            ∃ l', b.config.timers.Sched l' ∧ t ∈ l' ∧
              BitVec.ofNat 32 (b.config.rem l' t) +
                  (b.config.timers.oldTime - c.timers.oldTime) =
                BitVec.ofNat 32
                  (c.rem l t + b.fires t * c.timers.interval t + b.config.unspent)) ↔
        Runs.Guarded (Ledger.step fuel) ReadsAgree (Ledger.start c) ops) := by
  obtain ⟨l, hl⟩ := bounded_of_run wrapping_exact h
  refine ⟨l, hl.sched, ?_⟩
  let conserved (b : Ledger) : Prop := (∃ l', Bounded b.config.timers l') ∧
    b.config.timers.oldTime - c.timers.oldTime = BitVec.ofNat 32 b.consumed
  have hnext : ∀ b op b', conserved b → Ledger.step fuel b op = some b' →
      (conserved b' ∧ True ↔ ReadsAgree b op) := by
    rintro b op b' ⟨⟨l', hb⟩, heq⟩ hs
    obtain ⟨hstep, hconsumed, -⟩ := ledgerStep_some hs
    obtain ⟨l'', hb', -⟩ := timerStep_balance hb hstep
    rw [← timerStep_oldTime_iff hb hstep b rfl, and_true]
    simp only [conserved]
    rw [and_iff_right ⟨l'', hb'⟩, hconsumed, BitVec.ofNat_add, ← heq]
    constructor <;> intro e <;> bv_omega
  have hnone : ∀ b op, Ledger.step fuel b op = none → ReadsAgree b op := by
    rintro b op hs ms rfl hctl -
    have hsome : timerStep wrapping fuel b.config (.handler ms) = none := by
      cases hstep : timerStep wrapping fuel b.config (.handler ms) with
      | none => rfl
      | some d => simp [Ledger.step, hstep] at hs
    simp only [timerStep, hctl] at hsome
    split at hsome <;> cases hsome
  have hstart : conserved (Ledger.start c) := ⟨⟨l, hl⟩, by simp [Ledger.start]⟩
  rw [← Runs.holds_along_run_iff hnext hnone hstart ops]
  constructor
  · intro hall
    refine ⟨fun done b hdone hb => ⟨?_, (hall done b hdone hb).1⟩, fun _ _ _ _ _ _ _ => trivial⟩
    have keep : ∀ b op b', (∃ l', Bounded b.config.timers l') → Ledger.step fuel b op = some b' →
        ∃ l', Bounded b'.config.timers l' := by
      rintro b op b' ⟨l', hl'⟩ hs
      obtain ⟨l'', hl'', -⟩ := timerStep_balance hl' (ledgerStep_some hs).1
      exact ⟨l'', hl''⟩
    exact Runs.run_invariant_all keep ⟨l, hl⟩ hb
  · rintro ⟨hall, -⟩ done b hdone hb
    obtain ⟨-, heq⟩ := hall done b hdone hb
    refine ⟨heq, fun t ht hmode hops => ?_⟩
    obtain ⟨l', hbal⟩ := balanced_of_run hl hidle ht hmode hops hb
    refine ⟨l', hbal.bounded.sched, hbal.mem, ?_⟩
    rw [heq, ← BitVec.ofNat_add, hbal.account]

end Run

theorem swTimers_conserve_time_iff_tick : ∃ c l b,
    Runs.run (timerStep wrapping 4) (timersAtBoot (fun _ => ⟨none, 0, 0, .oneshot, none⟩) 0)
      [.create (some 1) 5 .periodic none] = some c ∧ c.timers.Sched l ∧
    Runs.run (Ledger.step 4) (Ledger.start c) [.tick 7, .handler 0, .pass, .pass] = some b ∧
    b.config.timers.oldTime - c.timers.oldTime = BitVec.ofNat 32 b.consumed := by
  have hrun : Runs.run (timerStep wrapping 4)
      (timersAtBoot (fun _ => ⟨none, 0, 0, .oneshot, none⟩) 0)
      [.create (some 1) 5 .periodic none] = some _ := rfl
  obtain ⟨l, hl, hiff⟩ := swTimers_conserve_time_iff hrun rfl [.tick 7, .handler 0, .pass, .pass]
  refine ⟨_, l, _, hrun, hl, rfl, (hiff.mpr ?_ _ _ List.prefix_rfl rfl).1⟩
  refine ⟨?_, ?_, ?_, ?_, trivial⟩
  · rintro ms e
    cases e
  · rintro ms e - -
    cases e
    rfl
  all_goals
    rintro ms e
    cases e

/-- Claimed for every run, this fails: the clock ticks between the two readings of one call, and
the millisecond is consumed by nobody. -/
theorem swTimerTaskHandler_loses_millisecond :
    ¬ ∀ (heap : Ptr → SwTimer) (clock fuel : ℕ) (past ops : List TimerOp) (c : Config) (b : Ledger),
      Runs.run (timerStep wrapping fuel) (timersAtBoot heap clock) past = some c →
      c.control = .idle → Runs.run (Ledger.step fuel) (Ledger.start c) ops = some b →
      b.config.timers.oldTime - c.timers.oldTime = BitVec.ofNat 32 b.consumed := by
  intro hall
  have heq := hall (fun _ => ⟨none, 0, 0, .oneshot, none⟩) 0 4
    [.create (some 1) 5 .periodic none] [.tick 1, .handler 1, .pass] _ _ rfl rfl rfl
  exact absurd heq (by decide)

end FrameworkXC32
