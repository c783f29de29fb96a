import FrameworkXC32.Lib.Countdown
import FrameworkXC32.SwTimers.Schedule

/-!
# What one handler call fires

With callbacks that leave the timers alone, the loop of `swTimerTaskHandler` runs every timer as
a countdown of its own: which timers it calls, how often and at which instants depends on the
remaining time, the interval and the mode of each timer alone.
-/

namespace FrameworkXC32
open Machine LinkedHeap DeltaList

/-- The loop of `swTimerTaskHandler` with callbacks that leave the timers alone: the timers that
expire, each with the value of `elapsed` when its callback is called, and the state at the end. -/
def firingLoop (A : Arith) (fuel : ℕ) : ℕ → Word → Timers → Option (List (Ptr × Word) × Timers)
  | 0, _, _ => none
  | n + 1, elapsed, s => do
    match ← taskPass A fuel elapsed s with
    | .done s => some ([], s)
    | .fired timer elapsed s => do
      let (log, s) ← firingLoop A fuel n elapsed s
      some ((timer, elapsed) :: log, s)

def handlerFirings (A : Arith) (fuel n : ℕ) (millis₁ millis₂ : Word) (s : Timers) :
    Option (List (Ptr × Word) × Timers) :=
  match taskEnter millis₁ millis₂ s with
  | (s, some elapsed) => firingLoop A fuel n elapsed s
  | (s, none) => some ([], s)

lemma firingLoop_snd (A : Arith) (fuel n : ℕ) (elapsed : Word) (s : Timers) :
    (firingLoop A fuel n elapsed s).map Prod.snd =
      taskLoop A (fun _ _ s => some s) fuel n elapsed s := by
  induction n generalizing elapsed s with
  | zero => rfl
  | succ n ih =>
    unfold firingLoop taskLoop
    cases taskPass A fuel elapsed s with
    | none => rfl
    | some r =>
      cases r with
      | done s => rfl
      | fired t elapsed s =>
        simp only [Option.bind_eq_bind, Option.bind_some]
        cases (s.heap t).cb with
        | none =>
          dsimp only [Option.bind_some]
          rw [← ih elapsed s]
          cases firingLoop A fuel n elapsed s <;> rfl
        | some f =>
          dsimp only [Option.bind_some]
          rw [← ih elapsed s]
          cases firingLoop A fuel n elapsed s <;> rfl

/-- Recording the expiries changes nothing: the state at the end is the handler's. -/
theorem handlerFirings_snd (A : Arith) (fuel n : ℕ) (millis₁ millis₂ : Word) (s : Timers) :
    (handlerFirings A fuel n millis₁ millis₂ s).map Prod.snd =
      swTimerTaskHandler A (fun _ _ s => some s) fuel n millis₁ millis₂ s := by
  unfold handlerFirings swTimerTaskHandler
  rcases taskEnter millis₁ millis₂ s with ⟨s, _ | elapsed⟩
  · rfl
  · exact firingLoop_snd A fuel n elapsed s

/-! ### One pass -/

/-- The head `t` expires: the timers `m` behind it come closer by its timeout, and a periodic
timer is scheduled again with its interval. -/
structure Expired (s s' : Timers) (t : Ptr) (m l' : List Ptr) : Prop where
  bounded : Bounded s' l'
  frame : s.Frame s'
  notMem : t ∉ m
  perm : l'.Perm (if (s.heap t).mode = .periodic then t :: m else m)
  rem_self : (s.heap t).mode = .periodic → rem s'.delta l' t = s.interval t
  rem_other : ∀ u ∈ m, rem s'.delta l' u + s.delta t = rem s.delta (t :: m) u

lemma Timers.frame_pop (s : Timers) (t : Ptr) : s.Frame (s.pop t) :=
  ⟨fun _ => rfl, fun _ => rfl, fun _ => rfl, rfl⟩

section Pass

variable {A : Arith} (hA : A.Exact) {s s' : Timers} {l : List Ptr} {t : Ptr} {fuel : ℕ}
include hA

theorem taskPass_expired {elapsed elapsed' : Word} (h : Bounded s l)
    (hs : taskPass A fuel elapsed s = some (.fired t elapsed' s')) :
    ∃ m l', l = t :: m ∧ s.delta t ≤ elapsed.toNat ∧
      elapsed'.toNat = elapsed.toNat - s.delta t ∧ Expired s s' t m l' := by
  obtain ⟨m, rfl, hdue, helapsed, hcase⟩ := taskPass_fired hA h.sched hs
  have ht : t ∉ m := (List.nodup_cons.mp (Seg.nodup h.sched)).1
  have hother : ∀ u ∈ m, rem s.delta m u + s.delta t = rem s.delta (t :: m) u := by
    intro u hu
    rw [rem_cons_of_ne _ m (ne_of_mem_of_not_mem hu ht), Nat.add_comm]
  rcases hcase with ⟨hmode, rfl⟩ | ⟨hmode, l₁, l₂, rfl, hp⟩
  · refine ⟨m, m, rfl, hdue, helapsed, h.pop, s.frame_pop t, ht, ?_, ?_, hother⟩
    · simp [hmode]
    · simp [hmode]
  · refine ⟨l₁ ++ l₂, l₁ ++ t :: l₂, rfl, hdue, helapsed, h.pop.placed hp, ?_, ht, ?_, ?_, ?_⟩
    · exact (s.frame_pop t).trans hp.frame
    · rw [if_pos hmode]
      exact List.perm_middle
    · exact fun _ => hp.rem_self
    · intro u hu
      rw [hp.rem_other u hu]
      exact hother u hu

lemma taskPass_total (h : s.Sched l) (hfuel : l.length < fuel) (elapsed : Word) :
    ∃ r, taskPass A fuel elapsed s = some r := by
  unfold taskPass
  cases l with
  | nil =>
    have hnil : s.sTimers = none := h
    rw [hnil]
    exact ⟨_, rfl⟩
  | cons a m =>
    rw [h.sTimers_cons]
    dsimp only
    by_cases hdue : (s.heap a).timeout ≤ elapsed
    · rw [if_pos hdue, hA.sub _ _ (BitVec.le_def.mp hdue), Option.bind_eq_bind, Option.bind_some]
      by_cases hmode : (s.heap a).mode = .periodic
      · have hpop : (s.pop a).Sched m := h.2
        have ha : a ∉ m := (List.nodup_cons.mp (Seg.nodup h)).1
        have hroom : m.length < fuel := by
          rw [List.length_cons] at hfuel
          omega
        obtain ⟨u, l₁, l₂, -, -, hu⟩ := placeTimer_eq hA hpop ha hroom
        have hu' : placeTimer A fuel a { s with sTimers := (s.heap a).next } = some u := hu
        rw [if_pos hmode, hu']
        exact ⟨_, rfl⟩
      · rw [if_neg hmode]
        exact ⟨_, rfl⟩
    · have hlt : elapsed.toNat < s.delta a := BitVec.lt_def.mp (BitVec.not_le.mp hdue)
      rw [if_neg hdue, hA.sub _ _ hlt.le]
      exact ⟨_, rfl⟩

end Pass

/-! ### The loop -/

/-- The instants at which `t` expires in `e` ms when `r` ms remain of it. -/
def Timers.expiries (s : Timers) (t : Ptr) (r e : ℕ) : List ℕ :=
  match (s.heap t).mode with
  | .oneshot => Countdown.once r e
  | .periodic => Countdown.instants (s.interval t) r e

/-- The instants at which `t` was called, counted from the beginning of the `e` ms. -/
def firingsOf (log : List (Ptr × Word)) (e : ℕ) (t : Ptr) : List ℕ :=
  (log.filter (·.1 = t)).map (e - ·.2.toNat)

/-- What the loop does to the schedule `l` in `e` ms. -/
structure Drained (s s' : Timers) (l l' : List Ptr) (e : ℕ) (log : List (Ptr × Word)) : Prop where
  sched : s'.Sched l'
  mem : ∀ t, t ∈ l' ↔ t ∈ l ∧ ((s.heap t).mode = .oneshot → e < rem s.delta l t)
  rem_eq : ∀ t ∈ l', rem s'.delta l' t = Countdown.leftover (s.interval t) (rem s.delta l t) e
  fires : ∀ t, firingsOf log e t = if t ∈ l then s.expiries t (rem s.delta l t) e else []
  sorted : log.Pairwise fun a b => b.2 ≤ a.2
  within : ∀ a ∈ log, a.2.toNat ≤ e

lemma firingsOf_sub {log : List (Ptr × Word)} {e d : ℕ} (hd : d ≤ e)
    (h : ∀ a ∈ log, a.2.toNat ≤ e - d) (t : Ptr) :
    (firingsOf log (e - d) t).map (d + ·) = firingsOf log e t := by
  unfold firingsOf
  rw [List.map_map]
  apply List.map_congr_left
  intro a ha
  have hle := h a (List.mem_filter.mp ha).1
  simp only [Function.comp_apply]
  omega

lemma firingsOf_cons_self (log : List (Ptr × Word)) (e : ℕ) (t : Ptr) (w : Word) :
    firingsOf ((t, w) :: log) e t = (e - w.toNat) :: firingsOf log e t := by
  simp [firingsOf]

lemma firingsOf_cons_of_ne (log : List (Ptr × Word)) (e : ℕ) {t u : Ptr} (w : Word) (h : t ≠ u) :
    firingsOf ((t, w) :: log) e u = firingsOf log e u := by
  simp [firingsOf, h]

section Loop

variable {s s' s'' : Timers} {l l' m : List Ptr} {t : Ptr}

lemma Timers.Frame.expiries_eq (h : s.Frame s') (t : Ptr) (r e : ℕ) :
    s'.expiries t r e = s.expiries t r e := by
  unfold Timers.expiries
  rw [h.mode, h.interval_eq]

lemma Timers.expiries_sub (s : Timers) (t : Ptr) {r e d : ℕ} (hr : d ≤ r) (he : d ≤ e) :
    (s.expiries t (r - d) (e - d)).map (d + ·) = s.expiries t r e := by
  unfold Timers.expiries
  cases (s.heap t).mode with
  | oneshot => exact Countdown.once_sub hr he
  | periodic => exact Countdown.instants_sub hr he _

lemma Expired.expiries_self (h : Expired s s' t m l') {e : ℕ}
    (hpos : (s.heap t).mode = .periodic → 0 < s.interval t) (hdue : s.delta t ≤ e) :
    s.expiries t (s.delta t) e = s.delta t :: (if t ∈ l' then
      s'.expiries t (rem s'.delta l' t) (e - s.delta t) else []).map (s.delta t + ·) := by
  rw [h.frame.expiries_eq]
  unfold Timers.expiries
  cases hmode : (s.heap t).mode with
  | oneshot =>
    have hnot : t ∉ l' := by
      rw [h.perm.mem_iff, hmode]
      exact h.notMem
    simp [hnot, Countdown.once, hdue]
  | periodic =>
    have hmem : t ∈ l' := by
      rw [h.perm.mem_iff, hmode]
      simp
    rw [if_pos hmem, h.rem_self hmode]
    exact Countdown.instants_expire (hpos hmode) hdue

lemma Expired.rem_le (h : Expired s s' t m l') {u : Ptr} (hu : u ∈ m) :
    s.delta t ≤ rem s.delta (t :: m) u ∧
      rem s'.delta l' u = rem s.delta (t :: m) u - s.delta t := by
  have hrem := h.rem_other u hu
  omega

lemma Expired.mem_of_mem (h : Expired s s' t m l') {u : Ptr} (hu : u ∈ m) : u ∈ l' := by
  rw [h.perm.mem_iff]
  split
  · exact List.mem_cons_of_mem t hu
  · exact hu

lemma Expired.mem_of_ne (h : Expired s s' t m l') {u : Ptr} (hut : u ≠ t) : u ∈ l' ↔ u ∈ m := by
  rw [h.perm.mem_iff]
  split
  · simp [hut]
  · rfl

lemma Expired.mem_self (h : Expired s s' t m l') : t ∈ l' ↔ (s.heap t).mode = .periodic := by
  rw [h.perm.mem_iff]
  split
  · rename_i hmode
    simp [hmode]
  · rename_i hmode
    exact iff_of_false h.notMem hmode

lemma Expired.drained (h : Expired s s' t m l') {l'' : List Ptr} {elapsed elapsed' : Word}
    {log : List (Ptr × Word)} (hpos : (s.heap t).mode = .periodic → 0 < s.interval t)
    (hdue : s.delta t ≤ elapsed.toNat) (helapsed : elapsed'.toNat = elapsed.toNat - s.delta t)
    (hd : Drained s' s'' l' l'' elapsed'.toNat log) :
    Drained s s'' (t :: m) l'' elapsed.toNat ((t, elapsed') :: log) := by
  have hself : rem s.delta (t :: m) t = s.delta t := rem_cons_self _ t m
  have hback : elapsed.toNat - elapsed'.toNat = s.delta t := by omega
  have hwithin : ∀ a ∈ log, a.2.toNat ≤ elapsed.toNat - s.delta t := by
    intro a ha
    rw [← helapsed]
    exact hd.within a ha
  refine ⟨hd.sched, fun u => ?_, fun u hu => ?_, fun u => ?_, ?_, ?_⟩
  · rw [hd.mem u, h.frame.mode]
    by_cases hut : u = t
    · subst hut
      rw [hself, h.mem_self]
      cases hmode : (s.heap u).mode with
      | oneshot => simp [hdue]
      | periodic => simp
    · rw [h.mem_of_ne hut, List.mem_cons]
      refine ⟨fun hu => ⟨.inr hu.1, fun ho => ?_⟩, fun hu => ?_⟩
      · have hlt := hu.2 ho
        have hrem := h.rem_le hu.1
        omega
      · have hum := hu.1.resolve_left hut
        refine ⟨hum, fun ho => ?_⟩
        have hlt := hu.2 ho
        have hrem := h.rem_le hum
        omega
  · rw [hd.rem_eq u hu, h.frame.interval_eq, helapsed]
    by_cases hut : u = t
    · subst hut
      have hmode := h.mem_self.mp ((hd.mem u).mp hu).1
      rw [hself, h.rem_self hmode]
      exact (Countdown.leftover_expire (hpos hmode) hdue).symm
    · have hum := (h.mem_of_ne hut).mp ((hd.mem u).mp hu).1
      obtain ⟨hle, hrem⟩ := h.rem_le hum
      rw [hrem]
      exact Countdown.leftover_sub hle hdue _
  · have hsub := firingsOf_sub hdue hwithin u
    rw [← helapsed] at hsub
    by_cases hut : t = u
    · subst hut
      rw [firingsOf_cons_self, hback, if_pos (by simp), hself, h.expiries_self hpos hdue,
        ← helapsed, ← hd.fires, hsub]
    · rw [firingsOf_cons_of_ne _ _ _ hut, ← hsub, hd.fires]
      by_cases hum : u ∈ m
      · obtain ⟨hle, hrem⟩ := h.rem_le hum
        rw [if_pos (h.mem_of_mem hum), if_pos (List.mem_cons_of_mem t hum), h.frame.expiries_eq,
          hrem, helapsed]
        exact s.expiries_sub u hle hdue
      · have hul : u ∉ l' := mt (h.mem_of_ne (Ne.symm hut)).mp hum
        rw [if_neg hul, if_neg (by simp [Ne.symm hut, hum])]
        rfl
  · exact List.pairwise_cons.mpr ⟨fun a ha => BitVec.le_def.mpr (hd.within a ha), hd.sorted⟩
  · intro a ha
    rcases List.mem_cons.mp ha with rfl | ha
    · dsimp only
      omega
    · have hle := hwithin a ha
      omega

/-- The number of expiries that `e` ms bring to the schedule. -/
def Timers.pending (s : Timers) (l : List Ptr) (e : ℕ) : ℕ :=
  (l.map fun t => (s.expiries t (rem s.delta l t) e).length).sum

lemma Expired.pending_eq (h : Expired s s' t m l') {e : ℕ}
    (hpos : (s.heap t).mode = .periodic → 0 < s.interval t) (hdue : s.delta t ≤ e) :
    s.pending (t :: m) e = s'.pending l' (e - s.delta t) + 1 := by
  have hother : ∀ u ∈ m, (s'.expiries u (rem s'.delta l' u) (e - s.delta t)).length =
      (s.expiries u (rem s.delta (t :: m) u) e).length := by
    intro u hu
    obtain ⟨hle, hrem⟩ := h.rem_le hu
    rw [h.frame.expiries_eq, hrem, ← s.expiries_sub u hle hdue, List.length_map]
  have hself := h.expiries_self hpos hdue
  have htail : (m.map fun u => (s'.expiries u (rem s'.delta l' u) (e - s.delta t)).length).sum =
      (m.map fun u => (s.expiries u (rem s.delta (t :: m) u) e).length).sum :=
    congrArg List.sum (List.map_congr_left hother)
  unfold Timers.pending
  rw [(h.perm.map _).sum_eq, List.map_cons, List.sum_cons, ← htail, rem_cons_self, hself]
  by_cases hmode : (s.heap t).mode = .periodic
  · rw [if_pos hmode, if_pos (h.mem_self.mpr hmode), List.map_cons, List.sum_cons,
      List.length_cons, List.length_map]
    omega
  · rw [if_neg hmode, if_neg (mt h.mem_self.mp hmode)]
    simp
    omega

lemma Bounded.drained {elapsed : Word} (h : Bounded s l)
    (hlt : ∀ a ∈ l.head?, elapsed.toNat < s.delta a) :
    Drained s (s.adjustHead (· - elapsed) l) l l elapsed.toNat [] := by
  obtain ⟨hb, hage⟩ := h.age elapsed hlt
  have hnot : ∀ t ∈ l, elapsed.toNat < rem s.delta l t := by
    intro t ht
    cases l with
    | nil => simp at ht
    | cons a l =>
      have ha : a ∈ (a :: l).head? := by simp
      exact (hlt a ha).trans_le (head_le_rem s.delta ha)
  refine ⟨hb.sched, fun t => ?_, fun t ht => ?_, fun t => ?_, List.Pairwise.nil, by simp⟩
  · exact ⟨fun ht => ⟨ht, fun _ => hnot t ht⟩, fun ht => ht.1⟩
  · have hrem := hage t ht
    rw [Countdown.leftover_of_lt _ (hnot t ht)]
    omega
  · split
    · rename_i ht
      have hle := hnot t ht
      unfold Timers.expiries
      cases (s.heap t).mode with
      | oneshot => simp [firingsOf, Countdown.once, hle]
      | periodic => simp [firingsOf, Countdown.instants_of_lt _ hle]
    · rfl

end Loop

lemma Expired.positive {s s' : Timers} {t : Ptr} {m l' : List Ptr} (h : Expired s s' t m l')
    (hpos : ∀ u ∈ t :: m, (s.heap u).mode = .periodic → 0 < s.interval u) :
    ∀ u ∈ l', (s'.heap u).mode = .periodic → 0 < s'.interval u := by
  intro u hu
  rw [h.frame.mode, h.frame.interval_eq]
  apply hpos
  by_cases hut : u = t
  · simp [hut]
  · exact List.mem_cons_of_mem t ((h.mem_of_ne hut).mp hu)

lemma Expired.length_le {s s' : Timers} {t : Ptr} {m l' : List Ptr} (h : Expired s s' t m l') :
    l'.length ≤ m.length + 1 := by
  rw [h.perm.length_eq]
  split
  · simp
  · omega

/-- The run of the loop, by induction on the number of expiries still to come. -/
theorem firingLoop_drains {A : Arith} (hA : A.Exact) {s : Timers} {l : List Ptr} {fuel : ℕ}
    {elapsed : Word} (h : Bounded s l) (hfuel : l.length < fuel)
    (hpos : ∀ t ∈ l, (s.heap t).mode = .periodic → 0 < s.interval t) :
    ∃ log s' l', Drained s s' l l' elapsed.toNat log ∧
      ∀ n, s.pending l elapsed.toNat < n → firingLoop A fuel n elapsed s = some (log, s') := by
  induction hN : s.pending l elapsed.toNat using Nat.strong_induction_on
    generalizing s l elapsed with
  | _ N ih =>
    obtain ⟨r, hr⟩ := taskPass_total hA h.sched hfuel elapsed
    cases r with
    | done s' =>
      obtain ⟨hlt, rfl⟩ := taskPass_done hA h.sched hr
      refine ⟨[], _, l, h.drained hlt, fun n hn => ?_⟩
      obtain ⟨k, rfl⟩ := Nat.exists_eq_succ_of_ne_zero (Nat.ne_zero_of_lt hn)
      simp [firingLoop, hr]
    | fired t elapsed' s₁ =>
      obtain ⟨m, l₁, rfl, hdue, helapsed, hexp⟩ := taskPass_expired hA h hr
      have hpend := hexp.pending_eq (hpos t (by simp)) hdue
      have hroom : l₁.length < fuel := by
        have hlen := hexp.length_le
        rw [List.length_cons] at hfuel
        omega
      obtain ⟨log, s', l', hd, hloop⟩ :=
        ih _ (by rw [helapsed]; omega) hexp.bounded hroom (hexp.positive hpos) rfl
      refine ⟨(t, elapsed') :: log, s', l', hexp.drained (hpos t (by simp)) hdue helapsed hd, ?_⟩
      intro n hn
      obtain ⟨k, rfl⟩ := Nat.exists_eq_succ_of_ne_zero (Nat.ne_zero_of_lt hn)
      rw [helapsed] at hloop
      simp [firingLoop, hr, hloop k (by omega)]

lemma Drained.mem_of_mem_log {s s' : Timers} {l l' : List Ptr} {e : ℕ} {log : List (Ptr × Word)}
    (h : Drained s s' l l' e log) {a : Ptr × Word} (ha : a ∈ log) : a.1 ∈ l := by
  by_contra hnot
  have hfires := h.fires a.1
  rw [if_neg hnot] at hfires
  have hmem : a ∈ log.filter (·.1 = a.1) := List.mem_filter.mpr ⟨ha, by simp⟩
  rw [List.map_eq_nil_iff.mp hfires] at hmem
  simp at hmem

lemma taskEnter_of_cons {s : Timers} {a : Ptr} {l : List Ptr} (h : s.Sched (a :: l))
    (millis₂ : Word) {millis₁ : Word} (he : millis₁ - s.oldTime ≠ 0) :
    taskEnter millis₁ millis₂ s = ({ s with oldTime := millis₂ }, some (millis₁ - s.oldTime)) := by
  simp only [taskEnter, h.sTimers_cons, Option.isSome_some, if_true]
  exact if_pos he

lemma taskEnter_of_nil {s : Timers} (h : s.Sched []) (millis₁ millis₂ : Word) :
    taskEnter millis₁ millis₂ s = (s, none) := by
  have hnil : s.sTimers = none := h
  simp [taskEnter, hnil]

lemma taskEnter_of_eq (s : Timers) (millis₂ : Word) :
    taskEnter s.oldTime millis₂ s = (s, none) := by
  simp only [taskEnter, BitVec.sub_self]
  split <;> rfl

lemma handlerFirings_drains {s : Timers} {l : List Ptr} {room : ℕ} {millis₁ : Word}
    (millis₂ : Word) (h : Bounded s l) (hroom : l.length < room)
    (hpos : ∀ t ∈ l, (s.heap t).mode = .periodic → 0 < s.interval t)
    (he : millis₁ - s.oldTime ≠ 0) :
    ∃ log s' l' n, Drained s s' l l' (millis₁ - s.oldTime).toNat log ∧
      ∀ k, n ≤ k → handlerFirings wrapping room k millis₁ millis₂ s = some (log, s') := by
  cases l with
  | nil =>
    refine ⟨[], s, [], 0, ⟨h.sched, by simp, by simp, by simp [firingsOf], by simp, by simp⟩, ?_⟩
    intro k _
    simp [handlerFirings, taskEnter_of_nil h.sched]
  | cons a m =>
    have hb : Bounded { s with oldTime := millis₂ } (a :: m) := ⟨h.sched, h.rem_le⟩
    obtain ⟨log, s', l', hd, hloop⟩ := firingLoop_drains wrapping_exact hb hroom hpos
    refine ⟨log, s', l', s.pending (a :: m) (millis₁ - s.oldTime).toNat + 1, ⟨hd.sched,
      hd.mem, hd.rem_eq, hd.fires, hd.sorted, hd.within⟩, fun k hk => ?_⟩
    simp only [handlerFirings, taskEnter_of_cons h.sched millis₂ he]
    exact hloop k hk

/-- A scheduled periodic timer without an interval is due in every pass. -/
lemma firingLoop_never_ends {A : Arith} (hA : A.Exact) {s : Timers} {l : List Ptr} {t : Ptr}
    (fuel n : ℕ) (elapsed : Word) (h : Bounded s l) (ht : t ∈ l)
    (hmode : (s.heap t).mode = .periodic) (hzero : s.interval t = 0) :
    firingLoop A fuel n elapsed s = none := by
  induction n generalizing s l elapsed with
  | zero => rfl
  | succ n ih =>
    cases hr : taskPass A fuel elapsed s with
    | none => simp [firingLoop, hr]
    | some r =>
      cases r with
      | done s' =>
        have hrem := h.rem_le t ht
        obtain ⟨hlt, -⟩ := taskPass_done hA h.sched hr
        cases l with
        | nil => simp at ht
        | cons a l =>
          have hhead := head_le_rem s.delta (l := a :: l) (u := t) (by simp : a ∈ (a :: l).head?)
          have hdue := hlt a (by simp)
          omega
      | fired u elapsed' s₁ =>
        obtain ⟨m, l₁, rfl, -, -, hexp⟩ := taskPass_expired hA h hr
        have ht₁ : t ∈ l₁ := by
          by_cases htu : t = u
          · subst htu
            exact hexp.mem_self.mpr hmode
          · exact hexp.mem_of_mem ((List.mem_cons.mp ht).resolve_left htu)
        have hnone := ih elapsed' hexp.bounded ht₁ (by rw [hexp.frame.mode, hmode])
          (by rw [hexp.frame.interval_eq, hzero])
        simp [firingLoop, hr, hnone]

lemma Bounded.never_returns {s : Timers} {l : List Ptr} {t : Ptr} {millis₁ : Word}
    (millis₂ : Word) (room n : ℕ) (h : Bounded s l) (ht : t ∈ l)
    (hmode : (s.heap t).mode = .periodic) (hzero : s.interval t = 0) (hne : millis₁ ≠ s.oldTime) :
    swTimerTaskHandler wrapping (fun _ _ s => some s) room n millis₁ millis₂ s = none := by
  obtain ⟨a, m, rfl⟩ := List.exists_cons_of_ne_nil (List.ne_nil_of_mem ht)
  have helapsed : millis₁ - s.oldTime ≠ 0 := fun e => hne (by bv_omega)
  have hb : Bounded { s with oldTime := millis₂ } (a :: m) := ⟨h.sched, h.rem_le⟩
  have hforever := firingLoop_never_ends wrapping_exact room n (millis₁ - s.oldTime) hb ht hmode
    hzero
  rw [← handlerFirings_snd]
  simp only [handlerFirings, taskEnter_of_cons h.sched millis₂ helapsed, hforever]
  rfl

/-- In every reachable state, a handler call with callbacks that leave the timers alone returns
exactly when no time has elapsed or every scheduled periodic timer has an interval. -/
theorem swTimerTaskHandler_ends_iff {heap : Ptr → SwTimer} {clock fuel : ℕ} {ops : List TimerOp}
    {c : Config}
    (h : Runs.run (timerStep wrapping fuel) (timersAtBoot heap clock) ops = some c) :
    ∃ l, c.timers.Sched l ∧ ∀ (millis₁ millis₂ : Word) (room : ℕ), l.length < room →
      ((∃ n s', ∀ k, n ≤ k →
          swTimerTaskHandler wrapping (fun _ _ s => some s) room k millis₁ millis₂ c.timers =
            some s') ↔
        millis₁ = c.timers.oldTime ∨
          ∀ t ∈ l, (c.timers.heap t).mode = .periodic → (c.timers.heap t).interval ≠ 0) := by
  obtain ⟨l, hb⟩ := bounded_of_run wrapping_exact h
  refine ⟨l, hb.sched, fun millis₁ millis₂ room hroom => ⟨?_, ?_⟩⟩
  · rintro ⟨n, s', hends⟩
    by_contra hnot
    push Not at hnot
    obtain ⟨hne, t, ht, hmode, hzero⟩ := hnot
    have hcall := hends n (Nat.le_refl n)
    rw [hb.never_returns millis₂ room n ht hmode (by simp [Timers.interval, hzero]) hne] at hcall
    cases hcall
  · intro hcond
    by_cases heq : millis₁ = c.timers.oldTime
    · subst heq
      exact ⟨0, c.timers, fun k _ => by simp [swTimerTaskHandler, taskEnter_of_eq]⟩
    · have hpos : ∀ t ∈ l, (c.timers.heap t).mode = .periodic → 0 < c.timers.interval t := by
        intro t ht hmode
        have hword := hcond.resolve_left heq t ht hmode
        apply Nat.pos_of_ne_zero
        intro hzero
        exact hword (BitVec.eq_of_toNat_eq hzero)
      have hne : millis₁ - c.timers.oldTime ≠ 0 := fun e => heq (by bv_omega)
      obtain ⟨log, s', l', n, -, hcode⟩ := handlerFirings_drains millis₂ hb hroom hpos hne
      refine ⟨n, s', fun k hk => ?_⟩
      rw [← handlerFirings_snd, hcode k hk]
      rfl

theorem swTimerTaskHandler_ends_iff_oneshot : ∃ c s',
    Runs.run (timerStep wrapping 4) (timersAtBoot (fun _ => ⟨none, 0, 0, .oneshot, none⟩) 0)
      [.create (some 1) 0 .oneshot (some 0)] = some c ∧
    ∃ n, ∀ k, n ≤ k →
      swTimerTaskHandler wrapping (fun _ _ s => some s) 4 k 5 5 c.timers = some s' := by
  have hrun : Runs.run (timerStep wrapping 4)
      (timersAtBoot (fun _ => ⟨none, 0, 0, .oneshot, none⟩) 0)
      [.create (some 1) 0 .oneshot (some 0)] = some _ := rfl
  obtain ⟨l, hl, hiff⟩ := swTimerTaskHandler_ends_iff hrun
  have heq : l = [1] := Seg.unique hl ⟨rfl, rfl⟩
  subst heq
  obtain ⟨n, s', hends⟩ := (hiff 5 5 4 (by decide)).mpr (.inr (by decide))
  exact ⟨_, s', hrun, n, hends⟩

/-- Claimed for every list that the interface can build, this fails: `swTimer(0, PERIODIC, cb)` is
accepted, and the next handler call one millisecond later never returns. -/
theorem swTimer_without_interval_loops :
    ¬ ∀ (heap : Ptr → SwTimer) (clock fuel : ℕ) (ops : List TimerOp) (c : Config)
      (millis₁ millis₂ : Word),
      Runs.run (timerStep wrapping fuel) (timersAtBoot heap clock) ops = some c →
      ∃ room n s',
        swTimerTaskHandler wrapping (fun _ _ s => some s) room n millis₁ millis₂ c.timers =
          some s' := by
  intro hall
  have hrun : Runs.run (timerStep wrapping 4)
      (timersAtBoot (fun _ => ⟨none, 0, 0, .oneshot, none⟩) 0)
      [.create (some 1) 0 .periodic (some 0)] = some _ := rfl
  obtain ⟨room, n, s', hends⟩ := hall _ _ _ _ _ 1 1 hrun
  obtain ⟨l, hb⟩ := bounded_of_run wrapping_exact hrun
  have heq : l = [1] := Seg.unique hb.sched ⟨rfl, rfl⟩
  subst heq
  have hforever := hb.never_returns 1 room n (by simp : 1 ∈ [1]) rfl rfl
    (by decide : (1 : Word) ≠ 0)
  rw [hforever] at hends
  cases hends

end FrameworkXC32
