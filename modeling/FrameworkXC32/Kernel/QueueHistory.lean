import FrameworkXC32.Kernel.QueueTasks

/-!
# What the calls on a queue see

However tasks and interrupts come between each other, the answers of a queue are those of a bounded
list on which one call after the other is carried out whole.
-/

namespace FrameworkXC32
open Runs

/-- The answer of a list of at most `capacity` items, and what is left of it. A send whose time is
over has not looked at the queue again. -/
def answerStep {uxItemSize : ℕ} (capacity : ℕ) (items : List (QueueItem uxItemSize)) :
    QueueAnswer uxItemSize → Option (List (QueueItem uxItemSize))
  | .sent item pos =>
    if items.length < capacity ∨ pos = .overwrite then some (pos.enter item items) else none
  | .full timedOut => if timedOut ∨ items.length = capacity then some items else none
  | .received item => if items.head? = some item then some items.tail else none
  | .peeked item => if items.head? = some item then some items else none
  | .empty => if items = [] then some items else none

/-- `queueOVERWRITE` is for queues of one item that has bytes. -/
def CopyPosition.Allowed (uxItemSize capacity : ℕ) (pos : CopyPosition) : Prop :=
  pos = .overwrite → capacity = 1 ∧ 0 < uxItemSize

def QueueOp.Allowed {uxItemSize : ℕ} (capacity : ℕ) : QueueOp uxItemSize → Prop
  | send _ pos => pos.Allowed uxItemSize capacity
  | receive => True
  | peek => True

def QueueEvent.Allowed {τ : Type} {uxItemSize : ℕ} (capacity : ℕ) : QueueEvent τ uxItemSize → Prop
  | call _ c => c.op.Allowed capacity
  | sendFromIsr _ pos => pos.Allowed uxItemSize capacity
  | _ => True

instance (uxItemSize capacity : ℕ) (pos : CopyPosition) :
    Decidable (pos.Allowed uxItemSize capacity) :=
  inferInstanceAs (Decidable (_ → _))

instance {uxItemSize : ℕ} (capacity : ℕ) (op : QueueOp uxItemSize) :
    Decidable (op.Allowed capacity) :=
  match op with
  | .send _ pos => inferInstanceAs (Decidable (pos.Allowed uxItemSize capacity))
  | .receive => isTrue trivial
  | .peek => isTrue trivial

instance {τ : Type} {uxItemSize : ℕ} (capacity : ℕ) (e : QueueEvent τ uxItemSize) :
    Decidable (e.Allowed capacity) :=
  match e with
  | .call _ c => inferInstanceAs (Decidable (c.op.Allowed capacity))
  | .sendFromIsr _ pos => inferInstanceAs (Decidable (pos.Allowed uxItemSize capacity))
  | .run _ _ => isTrue trivial
  | .timeOut _ => isTrue trivial
  | .receiveFromIsr => isTrue trivial

/-- The call has not run out of time. -/
def QueueLabel.patient : QueueLabel → Bool
  | unlockTx next | unlockRx next | resumeAll next => next ≠ .giveUp
  | testAgain => false
  | _ => true

/-- The answers that such a call can get. -/
def QueueOp.Fits {uxItemSize : ℕ} (op : QueueOp uxItemSize) (a : QueueAnswer uxItemSize) : Prop :=
  match op with
  | send item pos => a = .sent item pos ∨ ∃ timedOut, a = .full timedOut
  | receive => (∃ item, a = .received item) ∨ a = .empty
  | peek => (∃ item, a = .peeked item) ∨ a = .empty

def QueueAnswer.failed {uxItemSize : ℕ} : QueueAnswer uxItemSize → Bool
  | full _ => true
  | empty => true
  | _ => false

namespace QueueSystem

variable {τ : Type} {uxItemSize capacity : ℕ} {s s' : QueueSystem τ uxItemSize}

/-- The history of the answers so far leads to the items of the queue. -/
structure Explained (capacity : ℕ) (s : QueueSystem τ uxItemSize) : Prop where
  ring : s.queue.Ring
  length : s.queue.uxLength = capacity
  history : run (answerStep capacity) [] (s.log.map Prod.snd) = some s.queue.contents

/-- The queue and the log are left alone, or there is one answer more, and it is right. -/
inductive Effect (capacity : ℕ) (s s' : QueueSystem τ uxItemSize) : Prop
  | silent (hqueue : s'.queue = s.queue) (hlog : s'.log = s.log)
  | answers (who : Option τ) (a : QueueAnswer uxItemSize) (hlog : s'.log = s.log ++ [(who, a)])
      (ring : s'.queue.Ring) (length : s'.queue.uxLength = capacity)
      (right : answerStep capacity s.queue.contents a = some s'.queue.contents)

lemma Explained.length_le (h : s.Explained capacity) : s.queue.contents.length ≤ capacity := by
  obtain ⟨r, hr⟩ := h.ring
  have hfits := hr.fits
  rw [← Queue.length_contents, h.length] at hfits
  exact hfits

lemma Explained.effect (h : s.Explained capacity) (he : Effect capacity s s') :
    s'.Explained capacity := by
  cases he with
  | silent hqueue hlog =>
    constructor
    · rw [hqueue]
      exact h.ring
    · rw [hqueue]
      exact h.length
    · rw [hqueue, hlog]
      exact h.history
  | answers who a hlog ring length right =>
    refine ⟨ring, length, ?_⟩
    rw [hlog, List.map_append, run_append, h.history]
    change (answerStep capacity s.queue.contents a).bind _ = _
    rw [right]
    rfl

/-- The calls under way are such as may be made. -/
def CallsAllowed (capacity : ℕ) (s : QueueSystem τ uxItemSize) : Prop :=
  ∀ t, ∀ x ∈ s.calls t, x.1.op.Allowed capacity

/-- What every state of a run has. -/
structure Sound (capacity : ℕ) (s : QueueSystem τ uxItemSize) : Prop where
  explained : s.Explained capacity
  calls : s.CallsAllowed capacity

lemma sound_create (hcapacity : 0 < capacity) (storage : ℕ → Machine.Byte) :
    (create capacity storage : QueueSystem τ uxItemSize).Sound capacity where
  explained := ⟨Queue.create_ring uxItemSize hcapacity storage, rfl, rfl⟩
  calls := by
    intro t x hx
    cases hx

section Effects

lemma contents_eq_nil (h : ¬0 < s.queue.uxMessagesWaiting) : s.queue.contents = [] := by
  apply List.eq_nil_of_length_eq_zero
  rw [Queue.length_contents]
  omega

lemma exists_contents_cons (h : 0 < s.queue.uxMessagesWaiting) :
    ∃ item items, s.queue.contents = item :: items := by
  apply List.exists_cons_of_length_pos
  rw [Queue.length_contents]
  exact h

lemma Explained.accepts (h : s.Explained capacity) {pos : CopyPosition}
    (hpos : pos.Allowed uxItemSize capacity) (hroom : s.hasRoom pos) : s.queue.Accepts pos := by
  refine ⟨hroom, ?_⟩
  rw [h.length]
  exact hpos

lemma Explained.sent (h : s.Explained capacity) {pos : CopyPosition}
    (hpos : pos.Allowed uxItemSize capacity) (hroom : s.hasRoom pos) (item : QueueItem uxItemSize)
    (who : Option τ) (hqueue : s'.queue = s.queue.prvCopyDataToQueue item pos)
    (hlog : s'.log = s.log ++ [(who, .sent item pos)]) : Effect capacity s s' := by
  obtain ⟨hring, hcontents⟩ := s.queue.contents_copyDataToQueue h.ring (h.accepts hpos hroom) item
  refine .answers who _ hlog (hqueue ▸ hring) ?_ ?_
  · rw [hqueue, Queue.uxLength_copyDataToQueue]
    exact h.length
  · have hcase : s.queue.contents.length < capacity ∨ pos = .overwrite := by
      rw [Queue.length_contents, ← h.length]
      exact hroom
    rw [hqueue, hcontents, answerStep, if_pos hcase]

lemma Explained.full (h : s.Explained capacity) {pos : CopyPosition} (hroom : ¬s.hasRoom pos)
    (who : Option τ) (hqueue : s'.queue = s.queue) (hlog : s'.log = s.log ++ [(who, .full false)]) :
    Effect capacity s s' := by
  obtain ⟨r, hr⟩ := h.ring
  have hfits := hr.fits
  have hfull : s.queue.contents.length = capacity := by
    rw [Queue.length_contents, ← h.length]
    unfold hasRoom at hroom
    omega
  refine .answers who _ hlog (hqueue ▸ h.ring) (hqueue ▸ h.length) ?_
  rw [hqueue, answerStep, if_pos (Or.inr hfull)]

lemma Explained.received (h : s.Explained capacity) (hsome : 0 < s.queue.uxMessagesWaiting)
    (who : Option τ) (hqueue : s'.queue = s.queue.takeItem.2)
    (hlog : s'.log = s.log ++ [(who, .received s.queue.takeItem.1)]) : Effect capacity s s' := by
  obtain ⟨item, items, hcontents⟩ := exists_contents_cons hsome
  obtain ⟨hitem, hring, hrest⟩ := s.queue.contents_takeItem h.ring hcontents
  refine .answers who _ hlog (hqueue ▸ hring) ?_ ?_
  · rw [hqueue]
    exact h.length
  · rw [hqueue, hrest, hitem, hcontents]
    exact if_pos rfl

lemma Explained.empty (h : s.Explained capacity) (hnone : ¬0 < s.queue.uxMessagesWaiting)
    (who : Option τ) (hqueue : s'.queue = s.queue) (hlog : s'.log = s.log ++ [(who, .empty)]) :
    Effect capacity s s' := by
  refine .answers who _ hlog (hqueue ▸ h.ring) (hqueue ▸ h.length) ?_
  rw [hqueue, contents_eq_nil hnone, answerStep, if_pos rfl]

@[simp] lemma calls_signal (n : ℕ) (side : QueueSide) (s : QueueSystem τ uxItemSize) :
    (s.signal n side).calls = s.calls := by
  unfold signal incrementLock
  split_ifs <;> rfl

lemma calls_sendFromIsr (n : ℕ) (item : QueueItem uxItemSize) (pos : CopyPosition)
    (s : QueueSystem τ uxItemSize) : (s.sendFromIsr n item pos).calls = s.calls := by
  unfold QueueSystem.sendFromIsr
  split_ifs
  · exact calls_signal n .toReceive (s.setQueue (s.queue.prvCopyDataToQueue item pos))
  · rfl

lemma calls_receiveFromIsr (n : ℕ) (s : QueueSystem τ uxItemSize) :
    (s.receiveFromIsr n).calls = s.calls := by
  unfold QueueSystem.receiveFromIsr
  split_ifs
  · exact calls_signal n .toSend (s.setQueue s.queue.takeItem.2)
  · rfl

lemma queue_signal (n : ℕ) (side : QueueSide) (s : QueueSystem τ uxItemSize) :
    (s.signal n side).queue = s.queue ∧ (s.signal n side).log = s.log := by
  unfold signal incrementLock
  split_ifs <;> exact ⟨rfl, rfl⟩

lemma log_sendFromIsr (n : ℕ) (item : QueueItem uxItemSize) (pos : CopyPosition)
    (s : QueueSystem τ uxItemSize) :
    (s.sendFromIsr n item pos).log = s.log ++ [(none, .sent item pos)] ∨
      (s.sendFromIsr n item pos).log = s.log ++ [(none, .full false)] := by
  unfold QueueSystem.sendFromIsr
  split_ifs
  · obtain ⟨-, hlog⟩ :=
      queue_signal n .toReceive (s.setQueue (s.queue.prvCopyDataToQueue item pos))
    exact .inl (congrArg (fun log => log ++ [_]) hlog)
  · exact .inr rfl

lemma log_receiveFromIsr (n : ℕ) (s : QueueSystem τ uxItemSize) :
    (∃ item, (s.receiveFromIsr n).log = s.log ++ [(none, .received item)]) ∨
      (s.receiveFromIsr n).log = s.log ++ [(none, .empty)] := by
  unfold QueueSystem.receiveFromIsr
  split_ifs
  · obtain ⟨-, hlog⟩ := queue_signal n .toSend (s.setQueue s.queue.takeItem.2)
    exact .inl ⟨s.queue.takeItem.1, congrArg (fun log => log ++ [_]) hlog⟩
  · exact .inr rfl

lemma Explained.sendFromIsr (h : s.Explained capacity) {pos : CopyPosition}
    (hpos : pos.Allowed uxItemSize capacity) (n : ℕ) (item : QueueItem uxItemSize) :
    Effect capacity s (s.sendFromIsr n item pos) := by
  unfold QueueSystem.sendFromIsr
  split_ifs with hroom
  · obtain ⟨hqueue, hlog⟩ :=
      queue_signal n .toReceive (s.setQueue (s.queue.prvCopyDataToQueue item pos))
    refine h.sent hpos hroom item none hqueue ?_
    exact congrArg (fun log => log ++ [_]) hlog
  · exact h.full hroom none rfl rfl

lemma Explained.receiveFromIsr (h : s.Explained capacity) (n : ℕ) :
    Effect capacity s (s.receiveFromIsr n) := by
  unfold QueueSystem.receiveFromIsr
  split_ifs with hsome
  · obtain ⟨hqueue, hlog⟩ := queue_signal n .toSend (s.setQueue s.queue.takeItem.2)
    refine h.received hsome none hqueue ?_
    exact congrArg (fun log => log ++ [_]) hlog
  · exact h.empty hsome none rfl rfl

variable [DecidableEq τ] {t : τ} {c : QueueCall uxItemSize}

lemma waitOr_effect {a : QueueAnswer uxItemSize}
    (ha : ∀ s', s'.queue = s.queue → s'.log = s.log ++ [(some t, a)] → Effect capacity s s') :
    Effect capacity s (s.waitOr t c a) := by
  unfold QueueSystem.waitOr
  split_ifs
  · exact ha _ rfl rfl
  · exact .silent rfl rfl

lemma Explained.attempt (h : s.Explained capacity) (hop : c.op.Allowed capacity) :
    Effect capacity s (s.attempt t c) := by
  unfold QueueSystem.attempt
  cases hc : c.op with
  | send item pos =>
    rw [hc] at hop
    dsimp only
    split_ifs with hroom
    · exact h.sent hop hroom item _ rfl rfl
    · exact waitOr_effect fun s' hqueue hlog => h.full hroom _ hqueue hlog
  | receive =>
    dsimp only
    split_ifs with hsome
    · exact h.received hsome _ rfl rfl
    · exact waitOr_effect fun s' hqueue hlog => h.empty hsome _ hqueue hlog
  | peek =>
    dsimp only
    split_ifs with hsome
    · obtain ⟨item, items, hcontents⟩ := exists_contents_cons hsome
      obtain ⟨hitem, -, -⟩ := s.queue.contents_takeItem h.ring hcontents
      have hpeek : s.queue.prvCopyDataFromQueue.1 = item := hitem
      refine .answers (some t) _ rfl h.ring h.length ?_
      rw [hpeek]
      change answerStep capacity s.queue.contents _ = some s.queue.contents
      rw [hcontents]
      exact if_pos rfl
    · exact waitOr_effect fun s' hqueue hlog => h.empty hsome _ hqueue hlog

lemma Explained.exec (h : s.Explained capacity) (hop : c.op.Allowed capacity) {priority : τ → ℕ}
    {expired : Bool} {l : QueueLabel} (hexec : s.exec priority t expired c l = some s') :
    Effect capacity s s' := by
  cases l with
  | attempt =>
    cases hexec
    exact h.attempt hop
  | resumeAll next =>
    cases hexec
    cases next with
    | block => exact .silent rfl rfl
    | tryAgain => exact .silent rfl rfl
    | giveUp =>
      unfold afterUnlock
      dsimp only
      split_ifs
      · refine .answers (some t) (.full true) rfl h.ring h.length ?_
        rw [answerStep, if_pos (Or.inl rfl)]
        rfl
      · exact .silent rfl rfl
  | testAgain =>
    unfold QueueSystem.exec at hexec
    dsimp only at hexec
    split_ifs at hexec with hwait
    · cases hexec
      have hnone : ¬0 < s.queue.uxMessagesWaiting := by
        have hzero : s.queue.uxMessagesWaiting = 0 := of_decide_eq_true hwait
        omega
      exact h.empty hnone _ rfl rfl
    · cases hexec
      exact .silent rfl rfl
  | checkForTimeOut =>
    unfold QueueSystem.exec at hexec
    dsimp only at hexec
    split_ifs at hexec <;> cases hexec <;> exact .silent rfl rfl
  | testQueue =>
    unfold QueueSystem.exec at hexec
    dsimp only at hexec
    split_ifs at hexec <;> cases hexec <;> exact .silent rfl rfl
  | blocked =>
    unfold QueueSystem.exec at hexec
    dsimp only at hexec
    split_ifs at hexec
    cases hexec
    exact .silent rfl rfl
  | _ =>
    cases hexec
    exact .silent rfl rfl

/-! ### Runs -/

/-- How a section ends for its own call: it goes on elsewhere, or it has its answer. A call without
a time limit fails nowhere, and one that does not wait is through at its first attempt. -/
inductive Outcome (t : τ) (c : QueueCall uxItemSize) (l : QueueLabel)
    (s s' : QueueSystem τ uxItemSize) : Prop
  | goesOn (c' : QueueCall uxItemSize) (l' : QueueLabel)
      (calls : s'.calls = Function.update s.calls t (some (c', l'))) (log : s'.log = s.log)
      (halted : s'.halted = s.halted) (op : c'.op = c.op)
      (patient : c.ticks = .maxDelay → l.patient = true →
        c'.ticks = .maxDelay ∧ l'.patient = true)
      (quick : l = .attempt → c.ticks ≠ .zero)
  | ends (a : QueueAnswer uxItemSize) (calls : s'.calls = Function.update s.calls t none)
      (log : s'.log = s.log ++ [(some t, a)]) (halted : s'.halted = s.halted)
      (fits : l.patient = true ∨ c.op.side = .toReceive → c.op.Fits a)
      (patient : c.ticks = .maxDelay → l.patient = true → a.failed = false)
      (quick : l = .attempt → a ≠ .full true)

lemma outcome_moveTo {l l' : QueueLabel}
    (hcalls : s'.calls = Function.update s.calls t (some (c, l'))) (hlog : s'.log = s.log)
    (hhalted : s'.halted = s.halted) (hl : l ≠ .attempt)
    (hl' : l.patient = true → l'.patient = true) : Outcome t c l s s' :=
  .goesOn c l' hcalls hlog hhalted rfl (fun hticks hpatient => ⟨hticks, hl' hpatient⟩)
    fun hattempt => absurd hattempt hl

lemma outcome_waitOr {a : QueueAnswer uxItemSize} (hfits : c.op.Fits a) (hfull : a ≠ .full true) :
    Outcome t c .attempt s (s.waitOr t c a) := by
  unfold QueueSystem.waitOr
  split_ifs with hzero
  · refine Outcome.ends a rfl rfl rfl (fun _ => hfits) ?_ ?_
    · intro hticks
      rw [hzero] at hticks
      cases hticks
    · exact fun _ => hfull
  · exact .goesOn c .suspendAll rfl rfl rfl rfl (fun hticks _ => ⟨hticks, rfl⟩) fun _ => hzero

lemma outcome_attempt : Outcome t c .attempt s (s.attempt t c) := by
  unfold QueueSystem.attempt
  cases hop : c.op with
  | send item pos =>
    dsimp only
    split_ifs
    · refine Outcome.ends (.sent item pos) rfl rfl rfl ?_ ?_ ?_
      · rw [hop]
        exact fun _ => .inl rfl
      · exact fun _ _ => rfl
      · simp
    · apply outcome_waitOr
      · rw [hop]
        exact .inr ⟨false, rfl⟩
      · exact fun h => Bool.noConfusion (QueueAnswer.full.inj h)
  | receive =>
    dsimp only
    split_ifs
    · refine Outcome.ends (.received s.queue.takeItem.1) rfl rfl rfl ?_ ?_ ?_
      · rw [hop]
        exact fun _ => .inl ⟨_, rfl⟩
      · exact fun _ _ => rfl
      · simp
    · apply outcome_waitOr
      · rw [hop]
        exact .inr rfl
      · simp
  | peek =>
    dsimp only
    split_ifs
    · refine Outcome.ends (.peeked s.queue.prvCopyDataFromQueue.1) rfl rfl rfl ?_ ?_ ?_
      · rw [hop]
        exact fun _ => .inl ⟨_, rfl⟩
      · exact fun _ _ => rfl
      · simp
    · apply outcome_waitOr
      · rw [hop]
        exact .inr rfl
      · simp

lemma outcome_exec {priority : τ → ℕ} {expired : Bool} {l : QueueLabel}
    (hexec : s.exec priority t expired c l = some s') : Outcome t c l s s' := by
  unfold QueueSystem.exec at hexec
  cases l with
  | attempt =>
    cases hexec
    exact outcome_attempt
  | checkForTimeOut =>
    dsimp only at hexec
    split_ifs at hexec with hexpired
    · cases hexec
      exact .goesOn _ (.unlockTx .giveUp) rfl rfl rfl rfl
        (fun hticks _ => absurd hticks hexpired.2) QueueLabel.noConfusion
    · cases hexec
      exact outcome_moveTo rfl rfl rfl QueueLabel.noConfusion fun _ => rfl
  | testQueue =>
    dsimp only at hexec
    split_ifs at hexec <;> cases hexec <;>
      exact outcome_moveTo rfl rfl rfl QueueLabel.noConfusion fun _ => rfl
  | blocked =>
    dsimp only at hexec
    split_ifs at hexec
    cases hexec
    exact outcome_moveTo rfl rfl rfl QueueLabel.noConfusion fun _ => rfl
  | unlockTx next =>
    cases hexec
    exact outcome_moveTo rfl rfl rfl QueueLabel.noConfusion id
  | unlockRx next =>
    cases hexec
    exact outcome_moveTo rfl rfl rfl QueueLabel.noConfusion id
  | resumeAll next =>
    cases hexec
    cases next with
    | block => exact outcome_moveTo rfl rfl rfl QueueLabel.noConfusion fun _ => rfl
    | tryAgain => exact outcome_moveTo rfl rfl rfl QueueLabel.noConfusion fun _ => rfl
    | giveUp =>
      unfold afterUnlock
      dsimp only
      split_ifs with hside
      · refine Outcome.ends (.full true) rfl rfl rfl ?_ ?_ ?_
        · cases hop : c.op with
          | send item pos => exact fun _ => .inr ⟨true, rfl⟩
          | receive =>
            rw [hop] at hside
            cases hside
          | peek =>
            rw [hop] at hside
            cases hside
        · exact fun _ hpatient => Bool.noConfusion hpatient
        · exact QueueLabel.noConfusion
      · exact outcome_moveTo rfl rfl rfl QueueLabel.noConfusion fun hpatient =>
          Bool.noConfusion hpatient
  | testAgain =>
    dsimp only at hexec
    split_ifs at hexec
    · cases hexec
      refine Outcome.ends .empty rfl rfl rfl ?_ ?_ ?_
      · intro hcase
        have hside : c.op.side = .toReceive := hcase.resolve_left Bool.false_ne_true
        cases hop : c.op with
        | send item pos =>
          rw [hop] at hside
          cases hside
        | receive => exact .inr rfl
        | peek => exact .inr rfl
      · exact fun _ hpatient => Bool.noConfusion hpatient
      · exact QueueLabel.noConfusion
    · cases hexec
      exact outcome_moveTo rfl rfl rfl QueueLabel.noConfusion fun _ => rfl
  | _ =>
    cases hexec
    exact outcome_moveTo rfl rfl rfl QueueLabel.noConfusion fun _ => rfl

lemma calls_exec {priority : τ → ℕ} {expired : Bool} {l : QueueLabel}
    (hexec : s.exec priority t expired c l = some s') :
    ∃ v, s'.calls = Function.update s.calls t v ∧ ∀ x ∈ v, x.1.op = c.op := by
  cases outcome_exec hexec with
  | goesOn c' l' calls log halted op patient quick =>
    refine ⟨_, calls, fun x hx => ?_⟩
    rw [← Option.mem_some.mp hx]
    exact op
  | ends a calls log halted fits patient quick => exact ⟨none, calls, by simp⟩

lemma halted_exec {priority : τ → ℕ} {expired : Bool} {l : QueueLabel}
    (hexec : s.exec priority t expired c l = some s') : s'.halted = s.halted := by
  cases outcome_exec hexec with
  | goesOn c' l' calls log halted op patient quick => exact halted
  | ends a calls log halted fits patient quick => exact halted

lemma CallsAllowed.update {capacity : ℕ} (h : s.CallsAllowed capacity)
    {v : Option (QueueCall uxItemSize × QueueLabel)}
    (hcalls : s'.calls = Function.update s.calls t v) (hv : ∀ x ∈ v, x.1.op.Allowed capacity) :
    s'.CallsAllowed capacity := by
  intro u x hx
  rw [hcalls] at hx
  by_cases hu : u = t
  · rw [hu, Function.update_self] at hx
    exact hv x hx
  · rw [Function.update_of_ne hu] at hx
    exact h u x hx

variable [Fintype τ] {priority : τ → ℕ} {e : QueueEvent τ uxItemSize}

lemma Explained.step (h : s.Explained capacity) (hcalls : s.CallsAllowed capacity)
    (he : e.Allowed capacity) (hstep : s.step priority e = some s') :
    Effect capacity s s' ∧ s'.CallsAllowed capacity := by
  cases e with
  | call t c =>
    obtain ⟨-, -, rfl⟩ := step_call hstep
    refine ⟨.silent rfl rfl, hcalls.update (v := some (c, .attempt)) rfl ?_⟩
    intro x hx
    cases hx
    exact he
  | run t expired =>
    obtain ⟨c, l, hcall, -, hexec⟩ := step_run hstep
    have hop : c.op.Allowed capacity := hcalls t (c, l) hcall
    obtain ⟨v, hv, hops⟩ := calls_exec hexec
    refine ⟨h.exec hop hexec, hcalls.update hv fun x hx => ?_⟩
    rw [hops x hx]
    exact hop
  | timeOut t =>
    obtain ⟨side, rfl⟩ := step_timeOut hstep
    exact ⟨.silent rfl rfl, hcalls⟩
  | sendFromIsr item pos =>
    rw [step_sendFromIsr hstep]
    refine ⟨h.sendFromIsr he _ item, ?_⟩
    intro u x hx
    rw [calls_sendFromIsr] at hx
    exact hcalls u x hx
  | receiveFromIsr =>
    rw [step_receiveFromIsr hstep]
    refine ⟨h.receiveFromIsr _, ?_⟩
    intro u x hx
    rw [calls_receiveFromIsr] at hx
    exact hcalls u x hx

lemma Sound.step (h : s.Sound capacity) (he : e.Allowed capacity)
    (hstep : s.step priority e = some s') : s'.Sound capacity := by
  obtain ⟨heffect, hcalls⟩ := h.explained.step h.calls he hstep
  exact ⟨h.explained.effect heffect, hcalls⟩

/-- A run from a new queue of `capacity` items. -/
structure Reached (priority : τ → ℕ) (capacity : ℕ) (s : QueueSystem τ uxItemSize) : Prop where
  capacity_pos : 0 < capacity
  run : ∃ storage events, (∀ e ∈ events, QueueEvent.Allowed capacity e) ∧
    Runs.run (QueueSystem.step priority) (create capacity storage) events = some s

/-- What holds at first, and is kept by every step from a sound state, holds wherever a run can
lead. -/
lemma Reached.induct {Inv : QueueSystem τ uxItemSize → Prop}
    (hcreate : ∀ storage, Inv (create capacity storage))
    (keep : ∀ s e s', s.Sound capacity → Inv s → QueueEvent.Allowed capacity e →
      s.step priority e = some s' → Inv s')
    (h : s.Reached priority capacity) : s.Sound capacity ∧ Inv s := by
  obtain ⟨hcapacity, storage, events, hallowed, hrun⟩ := h
  have hsteps : ∀ s₀ s₁ : QueueSystem τ uxItemSize, s₀.Sound capacity → Inv s₀ →
      Runs.run (QueueSystem.step priority) s₀ events = some s₁ → s₁.Sound capacity ∧ Inv s₁ := by
    clear hrun
    induction events with
    | nil =>
      rintro s₀ s₁ hsound hinv hrun
      cases hrun
      exact ⟨hsound, hinv⟩
    | cons e events ih =>
      intro s₀ s₁ hsound hinv hrun
      obtain ⟨he, hevents⟩ := List.forall_mem_cons.mp hallowed
      obtain ⟨s₂, hstep, hrest⟩ := (run_cons_some _).mp hrun
      exact ih hevents s₂ s₁ (hsound.step he hstep) (keep s₀ e s₂ hsound hinv he hstep) hrest
  exact hsteps _ s (sound_create hcapacity storage) (hcreate storage) hrun

lemma Reached.sound (h : s.Reached priority capacity) : s.Sound capacity := by
  have hinduct : s.Sound capacity ∧ True :=
    h.induct (fun _ => trivial) fun _ _ _ _ _ _ _ => trivial
  exact hinduct.1

/-- Wherever tasks and interrupts come between the sections of each other's calls, every answer is
the one of a list of at most `capacity` items that carries out one call after the other, in the
order of the answers: what is sent is received once, from the end that the positions say, and a
call answers that the queue is empty only when it is. -/
theorem answers_of_a_list (h : s.Reached priority capacity) :
    run (answerStep capacity) [] (s.log.map Prod.snd) = some s.queue.contents ∧
      s.queue.contents.length ≤ capacity := by
  have hsound : s.Sound capacity := h.sound
  exact ⟨hsound.explained.history, hsound.explained.length_le⟩

/-- A task finds the queue empty, and before it is on the list an interrupt sends. -/
def race (item : QueueItem 1) : List (QueueEvent Bool 1) :=
  .call false ⟨.receive, .counted⟩ :: List.replicate 5 (.run false false) ++
    .sendFromIsr item .sendToBack :: List.replicate 6 (.run false false)

end Effects

/-- The task gets what the interrupt has sent. -/
theorem answers_of_a_list_in_race : ∃ (s : QueueSystem Bool 1) (item : QueueItem 1),
    s.log = [(none, .sent (fun _ => 7) .sendToBack), (some false, .received item)] ∧ item 0 = 7 ∧
      run (answerStep 1) [] (s.log.map Prod.snd) = some s.queue.contents := by
  have hrun : ∃ s item,
      Runs.run (step fun _ => 0) (create 1 fun _ => 0) (race fun _ => 7) = some s ∧
      s.log = [(none, .sent (fun _ => 7) .sendToBack), (some false, .received item)] ∧
      item 0 = 7 := ⟨_, _, rfl, rfl, by decide⟩
  obtain ⟨s, item, hs, hlog, hitem⟩ := hrun
  have hreached : s.Reached (fun _ => 0) 1 :=
    ⟨by decide, _, race fun _ => 7, by decide, hs⟩
  exact ⟨s, item, hlog, hitem, (answers_of_a_list hreached).1⟩

end QueueSystem

end FrameworkXC32
