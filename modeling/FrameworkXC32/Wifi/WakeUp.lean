import FrameworkXC32.Wifi.Model

/-!
# The wake-up of `WIFI_Init`

Every interleaving of the caller and the driver. The address becomes ready whenever the callback
prints its line; whether the caller hears of it depends on whether it has stored `waiting_task`.
-/

namespace FrameworkXC32
open Machine

namespace Wifi

variable {timeout notifiedValue : Word}

/-- The address becomes ready at a step of the run whose steps so far meet `when`. -/
def ReadyWhen (timeout notifiedValue : Word) (when : List WifiStep → Prop) (ops : List WifiStep) :
    Prop :=
  ∃ done op rest s s', ops = done ++ op :: rest ∧
    Runs.run (step timeout) (atBoot notifiedValue) done = some s ∧ step timeout s op = some s' ∧
    s.ready < s'.ready ∧ when done

/-- The timeout has not expired. -/
def InTime (done : List WifiStep) : Prop := .expire ∉ done

/-- The caller has stored `waiting_task` and is still to return. -/
def Registered (done : List WifiStep) : Prop := .store ∈ done ∧ .resume ∉ done

lemma readyWhen_concat (when : List WifiStep → Prop) {ops : List WifiStep} {op : WifiStep}
    {s s' : Wifi} (hs : Runs.run (step timeout) (atBoot notifiedValue) ops = some s)
    (hs' : step timeout s op = some s') :
    ReadyWhen timeout notifiedValue when (ops ++ [op]) ↔
      ReadyWhen timeout notifiedValue when ops ∨ (s.ready < s'.ready ∧ when ops) := by
  constructor
  · rintro ⟨done, a, rest, t, t', hops, ht, ht', hready, hwhen⟩
    rcases List.eq_nil_or_concat rest with rfl | ⟨rest, b, rfl⟩
    · obtain ⟨hdone, ha⟩ := List.append_inj' hops rfl
      cases ha
      subst hdone
      rw [hs] at ht
      cases ht
      rw [hs'] at ht'
      cases ht'
      exact Or.inr ⟨hready, hwhen⟩
    · rw [List.concat_eq_append, ← List.cons_append, ← List.append_assoc] at hops
      obtain ⟨hops', -⟩ := List.append_inj' hops rfl
      exact Or.inl ⟨done, a, rest, t, t', hops', ht, ht', hready, hwhen⟩
  · rintro (⟨done, a, rest, t, t', hops, hrest⟩ | ⟨hready, hwhen⟩)
    · exact ⟨done, a, rest ++ [op], t, t', by rw [hops]; simp, hrest⟩
    · exact ⟨ops, op, [], s, s', rfl, hs, hs', hready, hwhen⟩

/-! ### The steps of the driver -/

/-- What a step of the driver does to the caller: nothing, or the address becomes ready and the
caller is notified if it is registered. -/
inductive Heard (s : Wifi) : Wifi → Prop
  | quiet (s' : Wifi) (pc : s'.pc = s.pc) (tcb : s'.tcb = s.tcb)
      (waitingTask : s'.waitingTask = s.waitingTask) (started : s'.started = s.started)
      (ready : s'.ready = s.ready) : Heard s s'
  | unheard (s' : Wifi) (pc : s'.pc = s.pc) (tcb : s'.tcb = s.tcb)
      (waitingTask : s'.waitingTask = false ∧ s.waitingTask = false)
      (started : s'.started = s.started) (ready : s'.ready = s.ready + 1) : Heard s s'
  | notified (s' : Wifi) (pc : s'.pc = if s.tcb.notifyState = .waiting then .runnable else s.pc)
      (tcb : s'.tcb.notifyState = .received)
      (waitingTask : s'.waitingTask = true ∧ s.waitingTask = true)
      (started : s'.started = s.started) (ready : s'.ready = s.ready + 1) : Heard s s'

lemma heard_callback (s : Wifi) (wlan : Netif) :
    Heard s (netifStatusCallback { s with wlan := wlan }) := by
  unfold netifStatusCallback wifiDhcpIpReadyCallback
  split
  · split
    · dsimp only
      split
      · rename_i h
        exact .notified _ rfl rfl ⟨h, h⟩ rfl rfl
      · rename_i h
        have hfalse := Bool.eq_false_iff.mpr h
        exact .unheard _ rfl rfl ⟨hfalse, hfalse⟩ rfl rfl
    · exact .quiet _ rfl rfl rfl rfl rfl
  · exact .quiet _ rfl rfl rfl rfl rfl

lemma Heard.wlan {s s' : Wifi} (h : Heard s s') (wlan : Netif) :
    Heard s { s' with wlan := wlan } := by
  cases h with
  | quiet pc tcb waitingTask started ready => exact .quiet _ pc tcb waitingTask started ready
  | unheard pc tcb waitingTask started ready => exact .unheard _ pc tcb waitingTask started ready
  | notified pc tcb waitingTask started ready => exact .notified _ pc tcb waitingTask started ready

lemma heard_refl (s : Wifi) : Heard s s := .quiet _ rfl rfl rfl rfl rfl

lemma heard_setAddr (ipaddr : Word) (s : Wifi) : Heard s (s.netifSetAddr ipaddr) := by
  unfold netifSetAddr
  split
  · exact heard_refl s
  · exact heard_callback s _

/-- With the address gone the callback is silent. -/
lemma setAddr_zero (s : Wifi) :
    ∃ wlan, s.netifSetAddr 0 = { s with wlan := wlan } := by
  unfold netifSetAddr netifStatusCallback wifiDhcpIpReadyCallback
  split
  · exact ⟨s.wlan, rfl⟩
  · split <;> exact ⟨_, rfl⟩

lemma heard_setState (connected : Bool) (s : Wifi) : Heard s (s.wifiSetState connected) := by
  unfold wifiSetState
  cases connected with
  | true =>
    rw [if_pos rfl]
    unfold netifSetUp
    split
    · exact (heard_refl s).wlan _
    · exact heard_callback s _
  | false =>
    have hdown : Heard s s.netifSetDown := by
      unfold netifSetDown
      split
      · exact heard_callback s _
      · exact heard_refl s
    obtain ⟨wlan, hwlan⟩ := setAddr_zero s.netifSetDown
    rw [if_neg Bool.false_ne_true, hwlan]
    exact hdown.wlan _

/-! ### The caller and the notification -/

/-- The caller has not stored `waiting_task`: no notification reaches it. -/
structure Unheard (ops : List WifiStep) (s : Wifi) : Prop where
  store : .store ∉ ops
  resume : .resume ∉ ops
  waitingTask : s.waitingTask = false
  notifyState : s.tcb.notifyState = .notWaiting

/-- The caller is registered, and a notification is pending exactly when the address became ready
since then. -/
structure Listening (timeout notifiedValue : Word) (ops : List WifiStep) (s : Wifi) : Prop where
  registered : Registered ops
  waitingTask : s.waitingTask = true
  started : s.started = true
  received : s.tcb.notifyState = .received ↔ ReadyWhen timeout notifiedValue Registered ops

/-- The caller has returned what the pending notification told it. -/
structure Returned (timeout notifiedValue : Word) (ops : List WifiStep) (res : ℤ) (s : Wifi) :
    Prop where
  resume : .resume ∈ ops
  notifyState : s.tcb.notifyState ≠ .waiting
  res : res = 0 ↔ ReadyWhen timeout notifiedValue Registered ops

/-- What the position of the caller says of the run so far. -/
def Position (timeout notifiedValue : Word) (ops : List WifiStep) (s : Wifi) : Prop :=
  match s.pc with
  | .called => Unheard ops s ∧ s.started = false
  | .added => Unheard ops s ∧ s.started = true
  | .stored => Listening timeout notifiedValue ops s ∧ s.tcb.notifyState ≠ .waiting
  | .blocked => Listening timeout notifiedValue ops s ∧ s.tcb.notifyState = .waiting
  | .runnable => Listening timeout notifiedValue ops s
  | .returned res => s.started = false ∨ Returned timeout notifiedValue ops res s

variable {ops : List WifiStep} {op : WifiStep} {s s' : Wifi}

lemma registered_concat (hstore : op ≠ .store) (hresume : op ≠ .resume) :
    Registered (ops ++ [op]) ↔ Registered ops := by
  unfold Registered
  simp [hstore.symm, hresume.symm]

lemma not_readyWhen_of_unheard (h : .store ∉ ops) :
    ¬ ReadyWhen timeout notifiedValue Registered ops := by
  rintro ⟨done, a, rest, -, -, rfl, -, -, -, hstored, -⟩
  exact h (List.mem_append_left _ hstored)

lemma readyWhen_quiet (when : List WifiStep → Prop)
    (hs : Runs.run (step timeout) (atBoot notifiedValue) ops = some s)
    (hs' : step timeout s op = some s') (hready : s'.ready = s.ready) :
    ReadyWhen timeout notifiedValue when (ops ++ [op]) ↔
      ReadyWhen timeout notifiedValue when ops := by
  rw [readyWhen_concat when hs hs', hready]
  simp

lemma Listening.quiet (h : Listening timeout notifiedValue ops s)
    (hs : Runs.run (step timeout) (atBoot notifiedValue) ops = some s)
    (hs' : step timeout s op = some s') (hstore : op ≠ .store) (hresume : op ≠ .resume)
    (hready : s'.ready = s.ready) (hwaiting : s'.waitingTask = s.waitingTask)
    (hstarted : s'.started = s.started)
    (hreceived : s'.tcb.notifyState = .received ↔ s.tcb.notifyState = .received) :
    Listening timeout notifiedValue (ops ++ [op]) s' := by
  refine ⟨(registered_concat hstore hresume).mpr h.registered, hwaiting.trans h.waitingTask,
    hstarted.trans h.started, ?_⟩
  rw [hreceived, h.received, readyWhen_quiet Registered hs hs' hready]

lemma Position.heard (h : Position timeout notifiedValue ops s)
    (hs : Runs.run (step timeout) (atBoot notifiedValue) ops = some s)
    (hs' : step timeout s op = some s') (hstarted : s.started = true)
    (hstore : op ≠ .store) (hresume : op ≠ .resume) (hheard : Heard s s') :
    Position timeout notifiedValue (ops ++ [op]) s' := by
  have hregistered : Registered (ops ++ [op]) ↔ Registered ops := registered_concat hstore hresume
  have hready := readyWhen_concat Registered hs hs'
  have hunheard : Unheard ops s → s'.waitingTask = false → s'.tcb = s.tcb →
      Unheard (ops ++ [op]) s' := by
    intro hu hwaiting htcb
    refine ⟨?_, ?_, hwaiting, by rw [htcb]; exact hu.notifyState⟩
    · simp [hu.store, hstore.symm]
    · simp [hu.resume, hresume.symm]
  have hin : .resume ∈ ops → .resume ∈ ops ++ [op] := List.mem_append_left _
  cases hheard with
  | quiet pc tcb waitingTask started ready =>
    have hsame := readyWhen_quiet Registered hs hs' ready
    have hlistening : Listening timeout notifiedValue ops s →
        Listening timeout notifiedValue (ops ++ [op]) s' := fun hl =>
      hl.quiet hs hs' hstore hresume ready waitingTask started (by rw [tcb])
    unfold Position at h ⊢
    rw [pc]
    cases hpc : s.pc <;> simp only [hpc] at h ⊢
    case called => exact absurd hstarted (by rw [h.2]; decide)
    case added =>
      exact ⟨hunheard h.1 (waitingTask.trans h.1.waitingTask) tcb, started.trans hstarted⟩
    case stored => exact ⟨hlistening h.1, by rw [tcb]; exact h.2⟩
    case blocked => exact ⟨hlistening h.1, by rw [tcb]; exact h.2⟩
    case runnable => exact hlistening h
    case returned res =>
      obtain hno | ⟨hres, hstate, hiff⟩ := h
      · exact absurd hstarted (by rw [hno]; decide)
      · exact Or.inr ⟨hin hres, by rw [tcb]; exact hstate, by rw [hsame]; exact hiff⟩
  | unheard pc tcb waitingTask started ready =>
    unfold Position at h ⊢
    rw [pc]
    cases hpc : s.pc <;> simp only [hpc] at h ⊢
    case called => exact absurd hstarted (by rw [h.2]; decide)
    case added => exact ⟨hunheard h.1 waitingTask.1 tcb, started.trans hstarted⟩
    case stored => exact absurd h.1.waitingTask (by rw [waitingTask.2]; decide)
    case blocked => exact absurd h.1.waitingTask (by rw [waitingTask.2]; decide)
    case runnable => exact absurd h.waitingTask (by rw [waitingTask.2]; decide)
    case returned res =>
      obtain hno | ⟨hres, hstate, hiff⟩ := h
      · exact absurd hstarted (by rw [hno]; decide)
      · refine Or.inr ⟨hin hres, by rw [tcb]; exact hstate, ?_⟩
        rw [hready, hiff, or_iff_left]
        exact fun hlate => hlate.2.2 hres
  | notified pc tcb waitingTask started ready =>
    have hlistening : Listening timeout notifiedValue ops s →
        Listening timeout notifiedValue (ops ++ [op]) s' := by
      intro hl
      refine ⟨hregistered.mpr hl.registered, waitingTask.1, started.trans hstarted, ?_⟩
      rw [hready, tcb]
      exact iff_of_true rfl (Or.inr ⟨by rw [ready]; exact Nat.lt_succ_self _, hl.registered⟩)
    unfold Position at h ⊢
    rw [pc]
    cases hpc : s.pc <;> simp only [hpc] at h ⊢
    case called => exact absurd waitingTask.2 (by rw [h.1.waitingTask]; decide)
    case added => exact absurd waitingTask.2 (by rw [h.1.waitingTask]; decide)
    case stored =>
      rw [if_neg h.2]
      exact ⟨hlistening h.1, by rw [tcb]; decide⟩
    case blocked =>
      rw [if_pos h.2]
      exact hlistening h.1
    case runnable =>
      rw [ite_self]
      exact hlistening h
    case returned res =>
      obtain hno | ⟨hres, hstate, hiff⟩ := h
      · exact absurd hstarted (by rw [hno]; decide)
      · rw [if_neg hstate]
        refine Or.inr ⟨hin hres, by rw [tcb]; decide, ?_⟩
        rw [hready, hiff, or_iff_left]
        exact fun hlate => hlate.2.2 hres

lemma Position.step (htimeout : timeout ≠ 0) (h : Position timeout notifiedValue ops s)
    (hs : Runs.run (step timeout) (atBoot notifiedValue) ops = some s)
    (hs' : Wifi.step timeout s op = some s') : Position timeout notifiedValue (ops ++ [op]) s' := by
  cases op with
  | add ok =>
    simp only [Wifi.step, Option.ite_none_right_eq_some] at hs'
    obtain ⟨hpc, hs'⟩ := hs'
    simp only [Position, hpc] at h
    obtain ⟨⟨hstore, hresume, hwaiting, hstate⟩, hstarted⟩ := h
    split at hs'
    · cases hs'
      exact Or.inl hstarted
    · split at hs'
      · cases hs'
        exact ⟨⟨by simp [hstore], by simp [hresume], hwaiting, hstate⟩, rfl⟩
      · cases hs'
        exact Or.inl hstarted
  | store =>
    have hs'' := hs'
    simp only [Wifi.step, htimeout, ne_eq, not_false_eq_true, if_true, Option.ite_none_right_eq_some,
      Option.some.injEq] at hs''
    obtain ⟨hpc, rfl⟩ := hs''
    simp only [Position, hpc] at h
    obtain ⟨⟨hstore, hresume, hwaiting, hstate⟩, hstarted⟩ := h
    have hnone : ¬ ReadyWhen timeout notifiedValue Registered ops := not_readyWhen_of_unheard hstore
    refine ⟨⟨⟨by simp, by simp [hresume]⟩, rfl, hstarted, ?_⟩, ?_⟩
    · rw [readyWhen_quiet Registered hs hs' rfl, hstate]
      simp [hnone]
    · rw [hstate]
      decide
  | wait =>
    have hs'' := hs'
    simp only [Wifi.step, Option.ite_none_right_eq_some, Option.some.injEq] at hs''
    obtain ⟨hpc, rfl⟩ := hs''
    simp only [Position, hpc] at h
    unfold notifyWaitEnter at hs' ⊢
    split at hs'
    · rename_i hpending
      rw [if_pos hpending]
      have hlistening := h.1.quiet hs hs' (by decide) (by decide) rfl rfl rfl
        (iff_of_false NotifyState.noConfusion hpending)
      exact ⟨hlistening, rfl⟩
    · rename_i hpending
      rw [if_neg hpending]
      exact h.1.quiet hs hs' (by decide) (by decide) rfl rfl rfl Iff.rfl
  | expire =>
    have hs'' := hs'
    simp only [Wifi.step, Option.ite_none_right_eq_some, Option.some.injEq] at hs''
    obtain ⟨hpc, rfl⟩ := hs''
    simp only [Position, hpc] at h
    exact h.1.quiet hs hs' (by decide) (by decide) rfl rfl rfl Iff.rfl
  | resume =>
    have hs'' := hs'
    simp only [Wifi.step, Option.ite_none_right_eq_some, Option.some.injEq] at hs''
    obtain ⟨hpc, rfl⟩ := hs''
    simp only [Position, hpc] at h
    obtain ⟨hregistered, hwaiting, hstarted, hreceived⟩ := h
    unfold notifyWaitLeave at hs' ⊢
    split at hs'
    · rename_i hpending
      rw [if_pos hpending]
      refine Or.inr ⟨by simp, nofun, ?_⟩
      rw [readyWhen_quiet Registered hs hs' rfl, ← hreceived]
      simp [hpending, errTimeout]
    · rename_i hpending
      rw [if_neg hpending]
      refine Or.inr ⟨by simp, nofun, ?_⟩
      rw [readyWhen_quiet Registered hs hs' rfl, ← hreceived]
      simpa using hpending
  | connect connected =>
    have hstarted : s.started = true := by
      by_contra hno
      simp [Wifi.step, hno] at hs'
    have hs'' := hs'
    simp only [Wifi.step, hstarted, if_true, Option.some.injEq] at hs''
    exact h.heard hs hs' hstarted nofun nofun (hs'' ▸ heard_setState connected s)
  | address ipaddr =>
    have hstarted : s.started = true := by
      by_contra hno
      simp [Wifi.step, hno] at hs'
    have hs'' := hs'
    simp only [Wifi.step, hstarted, Bool.true_and, Option.ite_none_right_eq_some,
      Option.some.injEq] at hs''
    exact h.heard hs hs' hstarted nofun nofun (hs''.2 ▸ heard_setAddr ipaddr s)

/-! ### Runs -/

lemma Position.run (htimeout : timeout ≠ 0)
    (hs : Runs.run (Wifi.step timeout) (atBoot notifiedValue) ops = some s) :
    Position timeout notifiedValue ops s := by
  induction ops using List.reverseRecOn generalizing s with
  | nil =>
    cases hs
    exact ⟨⟨by simp, by simp, rfl, rfl⟩, rfl⟩
  | append_singleton ops op ih =>
    obtain ⟨t, ht, hlast⟩ := (Runs.run_append_some _).mp hs
    obtain ⟨u, hu, hnil⟩ := (Runs.run_cons_some _).mp hlast
    cases hnil
    exact (ih ht).step htimeout ht hu

lemma started_step (hs' : step timeout s op = some s') :
    (s.started = true → s'.started = true) ∧ (s.ready < s'.ready → s.started = true) := by
  cases op with
  | connect connected =>
    by_cases hstarted : s.started = true
    · simp only [step, hstarted, if_true, Option.some.injEq] at hs'
      have hheard := heard_setState connected s
      rw [hs'] at hheard
      refine ⟨fun _ => ?_, fun _ => hstarted⟩
      cases hheard <;> simp_all
    · simp [step, hstarted] at hs'
  | address ipaddr =>
    by_cases hstarted : s.started = true
    · simp only [step, hstarted, Bool.true_and, Option.ite_none_right_eq_some,
        Option.some.injEq] at hs'
      have hheard := heard_setAddr ipaddr s
      rw [hs'.2] at hheard
      refine ⟨fun _ => ?_, fun _ => hstarted⟩
      cases hheard <;> simp_all
    · simp [step, hstarted] at hs'
  | add ok =>
    simp only [step, Option.ite_none_right_eq_some] at hs'
    obtain ⟨-, hs'⟩ := hs'
    split at hs' <;> (try split at hs') <;> cases hs' <;> simp
  | store =>
    simp only [step, Option.ite_none_right_eq_some] at hs'
    obtain ⟨-, hs'⟩ := hs'
    split at hs' <;> cases hs' <;> simp
  | wait =>
    simp only [step, Option.ite_none_right_eq_some, Option.some.injEq] at hs'
    obtain ⟨-, rfl⟩ := hs'
    unfold notifyWaitEnter
    split <;> simp
  | expire =>
    simp only [step, Option.ite_none_right_eq_some, Option.some.injEq] at hs'
    obtain ⟨-, rfl⟩ := hs'
    simp
  | resume =>
    simp only [step, Option.ite_none_right_eq_some, Option.some.injEq] at hs'
    obtain ⟨-, rfl⟩ := hs'
    unfold notifyWaitLeave
    split <;> simp

lemma started_of_ready {when : List WifiStep → Prop}
    (hs : Runs.run (step timeout) (atBoot notifiedValue) ops = some s)
    (hready : ReadyWhen timeout notifiedValue when ops) : s.started = true := by
  obtain ⟨done, op, rest, t, t', rfl, ht, ht', hlt, -⟩ := hready
  obtain ⟨u, hu, hrest⟩ := (Runs.run_append_some _).mp hs
  rw [ht] at hu
  cases hu
  have hkeep : ∀ x a y, Wifi.started x = true → step timeout x a = some y → y.started = true :=
    fun x a y hx hy => (started_step hy).1 hx
  exact Runs.run_invariant_all hkeep ((started_step ht').2 hlt) hrest

/-- In every finished interleaving in which the address becomes ready before the timeout expires,
`WIFI_Init` returns 0 exactly when the address becomes ready, then or later, between the store of
`waiting_task` and the return. -/
theorem wifiInit_wakes_iff (htimeout : timeout ≠ 0) {res : ℤ}
    (hs : Runs.run (step timeout) (atBoot notifiedValue) ops = some s) (hpc : s.pc = .returned res) :
    (ReadyWhen timeout notifiedValue InTime ops → res = 0) ↔
      (ReadyWhen timeout notifiedValue InTime ops →
        ReadyWhen timeout notifiedValue Registered ops) := by
  apply forall_congr'
  intro hready
  have hstarted := started_of_ready hs hready
  have hposition := Position.run htimeout hs
  simp only [Position, hpc] at hposition
  obtain hno | hreturned := hposition
  · rw [hno] at hstarted
    exact absurd hstarted (by decide)
  · exact hreturned.res

/-- The link comes up while the caller waits. -/
theorem wifiInit_wakes_after_wait : ∃ s res, Runs.run (step 1000) (atBoot 0)
      [.add true, .store, .wait, .connect true, .address 7, .resume] = some s ∧
    s.pc = .returned res ∧ res = 0 := by
  obtain ⟨s, hs⟩ : ∃ s, Runs.run (step 1000) (atBoot 0)
      [.add true, .store, .wait, .connect true, .address 7, .resume] = some s := ⟨_, rfl⟩
  have hready : ∀ when : List WifiStep → Prop, when [.add true, .store, .wait, .connect true] →
      ReadyWhen 1000 0 when [.add true, .store, .wait, .connect true, .address 7, .resume] :=
    fun when hwhen => ⟨[.add true, .store, .wait, .connect true], .address 7, [.resume], _, _, rfl,
      rfl, rfl, by decide, hwhen⟩
  obtain ⟨res, hres⟩ : ∃ res, s.pc = .returned res := by
    obtain rfl := Option.some.inj hs
    exact ⟨_, rfl⟩
  have hzero := (wifiInit_wakes_iff (by decide) hs hres).mpr
    (fun _ => hready Registered (by unfold Registered; decide))
    (hready InTime (by unfold InTime; decide))
  exact ⟨s, res, hs, hres, hzero⟩

/-- The link comes up before the caller has stored `waiting_task`, and the wait times out. -/
theorem wifiInit_misses_early_link : ¬ ∀ (timeout notifiedValue : Word) (ops : List WifiStep)
    (s : Wifi) (res : ℤ), timeout ≠ 0 →
    Runs.run (step timeout) (atBoot notifiedValue) ops = some s → s.pc = .returned res →
    ReadyWhen timeout notifiedValue InTime ops → res = 0 := by
  intro h
  have hzero := h 1000 0
    [.add true, .connect true, .address 7, .store, .wait, .expire, .resume]
    ⟨true, true, ⟨7, true, true⟩, true, ⟨.notWaiting, 0⟩, .returned errTimeout, 1⟩ errTimeout
    (by decide) (by decide) rfl
    ⟨[.add true, .connect true], .address 7, [.store, .wait, .expire, .resume],
      ⟨true, true, ⟨0, true, true⟩, false, ⟨.notWaiting, 0⟩, .added, 0⟩,
      ⟨true, true, ⟨7, true, true⟩, false, ⟨.notWaiting, 0⟩, .added, 1⟩,
      rfl, by decide, by decide, by decide, by unfold InTime; decide⟩
  exact absurd hzero (by decide)

end Wifi

end FrameworkXC32
