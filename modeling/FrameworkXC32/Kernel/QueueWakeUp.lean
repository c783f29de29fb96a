import FrameworkXC32.Kernel.QueueHistory

/-!
# No task is left waiting

A task looks at the queue, and only later puts itself on the list of those who wait. The lock counts
what interrupts have done in between, so that no wake-up is lost: while a task waits for a message
or for room, what is there is matched by calls that are about to look at the queue.
-/

namespace FrameworkXC32

namespace QueueLabel

/-- The scheduler is suspended. -/
def region : QueueLabel → Bool
  | lockQueue | checkForTimeOut | testQueue | placeOnEventList => true
  | unlockTx _ | unlockRx _ | resumeAll _ => true
  | _ => false

/-- The queue is locked on a side. -/
def locks (side : QueueSide) : QueueLabel → Bool
  | checkForTimeOut | testQueue | placeOnEventList | unlockTx _ => true
  | unlockRx _ => side = .toSend
  | _ => false

/-- The task has put itself on a list. -/
def parks : QueueLabel → Bool
  | unlockTx next | unlockRx next | resumeAll next => next = .block
  | blocked => true
  | _ => false

/-- The call is going to make another attempt. -/
def tries : QueueLabel → Bool
  | attempt | blocked => true
  | unlockTx next | unlockRx next | resumeAll next => next ≠ .giveUp
  | _ => false

/-- The task is about to put itself on a list. -/
def places : QueueLabel → Bool
  | placeOnEventList => true
  | _ => false

lemma region_of_locks {side : QueueSide} {l : QueueLabel} (h : l.locks side = true) :
    l.region = true := by
  cases l <;> first | rfl | cases h

lemma region_of_places {l : QueueLabel} (h : l.places = true) : l.region = true := by
  cases l <;> first | rfl | cases h

lemma tries_of_parks {l : QueueLabel} (h : l.parks = true) : l.tries = true := by
  cases l with
  | unlockTx next => cases next <;> first | rfl | cases h
  | unlockRx next => cases next <;> first | rfl | cases h
  | resumeAll next => cases next <;> first | rfl | cases h
  | _ => first | rfl | cases h

end QueueLabel

section Counting

variable {τ α : Type} [Fintype τ] [DecidableEq τ]

lemma card_filter_update (p : α → Bool) (f : τ → α) (t : τ) (v : α) :
    (Finset.univ.filter fun u => p (Function.update f t v u) = true).card + (p (f t)).toNat =
      (Finset.univ.filter fun u => p (f u) = true).card + (p v).toNat := by
  have hsplit : ∀ g : τ → α, (Finset.univ.filter fun u => p (g u) = true).card =
      ((Finset.univ.erase t).filter fun u => p (g u) = true).card + (p (g t)).toNat := by
    intro g
    rw [← Finset.insert_erase (Finset.mem_univ t), Finset.filter_insert,
      Finset.erase_insert_eq_erase, Finset.erase_idem]
    cases hp : p (g t) with
    | true =>
      rw [if_pos rfl, Finset.card_insert_of_notMem (by simp)]
      rfl
    | false =>
      rw [if_neg Bool.false_ne_true]
      rfl
  have hothers : ((Finset.univ.erase t).filter fun u => p (Function.update f t v u) = true) =
      (Finset.univ.erase t).filter fun u => p (f u) = true := by
    apply Finset.filter_congr
    intro u hu
    rw [Function.update_of_ne (Finset.ne_of_mem_erase hu)]
  rw [hsplit, hsplit, hothers, Function.update_self]
  omega

end Counting

namespace QueueSystem

variable {τ : Type} {uxItemSize capacity : ℕ} {s s' : QueueSystem τ uxItemSize}

/-- The call, if there is one, is on this side and at such a label. -/
def standsOn (side : QueueSide) (p : QueueLabel → Bool)
    (v : Option (QueueCall uxItemSize × QueueLabel)) : Bool :=
  v.any fun x => x.1.op.side = side && p x.2

def stands (p : QueueLabel → Bool) (v : Option (QueueCall uxItemSize × QueueLabel)) : Bool :=
  v.any fun x => p x.2

lemma stands_of_standsOn {side : QueueSide} {p p' : QueueLabel → Bool}
    (hp : ∀ l, p l = true → p' l = true) {v : Option (QueueCall uxItemSize × QueueLabel)}
    (h : standsOn side p v = true) : stands p' v = true := by
  cases v with
  | none => cases h
  | some x =>
    unfold standsOn at h
    rw [Option.any_some, Bool.and_eq_true] at h
    exact hp _ h.2

/-- What the tasks on a side wait for: messages, or places. -/
def amount (side : QueueSide) (s : QueueSystem τ uxItemSize) : ℕ :=
  match side with
  | .toReceive => s.queue.uxMessagesWaiting
  | .toSend => s.queue.uxLength - s.queue.uxMessagesWaiting

lemma amount_congr (side : QueueSide) (h : s'.queue = s.queue) :
    s'.amount side = s.amount side := by
  unfold amount
  rw [h]

lemma wakeAll_sublist (n : ℕ) (l : List τ) : (wakeAll n l).Sublist l := by
  induction n generalizing l with
  | zero => exact List.Sublist.refl l
  | succ n ih =>
    cases l with
    | nil => exact List.Sublist.refl []
    | cons u l => exact (ih l).trans (List.sublist_cons_self u l)

/-- A send takes up at most one place, and adds at most one message. -/
lemma Sound.amount_copy (hs : s.Sound capacity) {pos : CopyPosition}
    (hpos : pos.Allowed uxItemSize capacity) (hroom : s.hasRoom pos) (item : QueueItem uxItemSize) :
    let s' := s.setQueue (s.queue.prvCopyDataToQueue item pos)
    s'.amount .toReceive ≤ s.amount .toReceive + 1 ∧
      (s'.amount .toSend + 1 ≤ s.amount .toSend ∨ s'.amount .toSend = 0) := by
  obtain ⟨r, hr⟩ := hs.explained.ring
  have hfits := hr.fits
  obtain ⟨-, hcontents⟩ := s.queue.contents_copyDataToQueue hs.explained.ring
    (hs.explained.accepts hpos hroom) item
  have hlength : (s.queue.prvCopyDataToQueue item pos).uxMessagesWaiting =
      (pos.enter item s.queue.contents).length := by
    rw [← hcontents, Queue.length_contents]
  unfold amount setQueue
  dsimp only
  rw [Queue.uxLength_copyDataToQueue, hlength]
  by_cases hover : pos = .overwrite
  · obtain ⟨hone, -⟩ := hpos hover
    rw [← hs.explained.length] at hone
    rw [hover, CopyPosition.enter, List.length_cons, List.length_tail, Queue.length_contents]
    omega
  · have hlt := hroom.resolve_right hover
    rw [Queue.length_enter _ _ hover, Queue.length_contents]
    omega

lemma wake_self (side : QueueSide) (s : QueueSystem τ uxItemSize) :
    (s.wake side).waiting side = (s.waiting side).tail := Function.update_self _ _ _

lemma wake_sublist (side side' : QueueSide) (s : QueueSystem τ uxItemSize) :
    ((s.wake side).waiting side').Sublist (s.waiting side') := by
  change (Function.update s.waiting side _ side').Sublist _
  by_cases hside : side' = side
  · rw [hside, Function.update_self]
    exact List.tail_sublist _
  · rw [Function.update_of_ne hside]

lemma length_wakeAll (n : ℕ) (l : List τ) : (wakeAll n l).length = l.length - n := by
  induction n generalizing l with
  | zero => rfl
  | succ n ih =>
    cases l with
    | nil =>
      change 0 = 0 - (n + 1)
      omega
    | cons t l =>
      change (wakeAll n l).length = l.length + 1 - (n + 1)
      rw [ih]
      omega

variable [Fintype τ]

/-- The tasks that are going to make another attempt, those who wait among them. -/
def trying (side : QueueSide) (s : QueueSystem τ uxItemSize) : Finset τ :=
  Finset.univ.filter fun t => standsOn side QueueLabel.tries (s.calls t) = true

/-- While tasks wait, there is no more to be had than tasks that come for it, or that the unlocking
is going to wake. -/
def Balanced (side : QueueSide) (s : QueueSystem τ uxItemSize) : Prop :=
  s.waiting side ≠ [] →
    s.amount side + (s.waiting side).length ≤ (s.trying side).card + (s.lock side).toNat ∨
      (Fintype.card τ : ℤ) ≤ s.lock side

structure Watched (s : QueueSystem τ uxItemSize) : Prop where
  running : ∀ t, stands QueueLabel.region (s.calls t) = true ↔ s.suspendedBy = some t
  locked : ∀ side t, stands (QueueLabel.locks side) (s.calls t) = true → 0 ≤ s.lock side
  unlocked : ∀ side, (∀ t, ¬stands (QueueLabel.locks side) (s.calls t) = true) →
    s.lock side = queueUnlocked
  waits : ∀ side, ∀ t ∈ s.waiting side, standsOn side QueueLabel.parks (s.calls t) = true
  nodup : ∀ side, (s.waiting side).Nodup
  balanced : ∀ side, s.Balanced side
  placing : ∀ side t, standsOn side QueueLabel.places (s.calls t) = true →
    s.amount side ≤ (s.lock side).toNat ∨ (Fintype.card τ : ℤ) ≤ s.lock side

/-! ### The balance -/

section Balance

variable {side : QueueSide}

lemma Balanced.of_le (h : s.Balanced side) (hamount : s'.amount side ≤ s.amount side)
    (hlength : (s'.waiting side).length ≤ (s.waiting side).length)
    (htrying : (s.trying side).card ≤ (s'.trying side).card) (hlock : s.lock side ≤ s'.lock side) :
    s'.Balanced side := by
  intro hne
  have hpos := List.length_pos_of_ne_nil hne
  have hbalanced := h (List.ne_nil_of_length_pos (by omega))
  omega

lemma Balanced.wake (h : s.Balanced side) (hamount : s'.amount side ≤ s.amount side + 1)
    (hwaiting : s'.waiting side = (s.waiting side).tail)
    (htrying : (s.trying side).card ≤ (s'.trying side).card) (hlock : s'.lock side = s.lock side) :
    s'.Balanced side := by
  intro hne
  have hpos := List.length_pos_of_ne_nil hne
  rw [hwaiting, List.length_tail] at hpos
  have hbalanced := h (List.ne_nil_of_length_pos (by omega))
  rw [hwaiting, List.length_tail, hlock]
  omega

lemma Balanced.count (h : s.Balanced side) (hlocked : 0 ≤ s.lock side)
    (hamount : s'.amount side ≤ s.amount side + 1) (hwaiting : s'.waiting side = s.waiting side)
    (htrying : s'.trying side = s.trying side)
    (hlock : s'.lock side = s.lock side + 1 ∨
      (Fintype.card τ : ℤ) ≤ s.lock side ∧ s'.lock side = s.lock side) : s'.Balanced side := by
  intro hne
  rw [hwaiting] at hne ⊢
  have hbalanced := h hne
  rw [htrying]
  omega

/-- A task that is awake has made its attempt: it has taken something, or nothing is left. -/
lemma Balanced.leave (h : s.Balanced side) (hlt : (s.waiting side).length < (s.trying side).card)
    (htrying : (s'.trying side).card + 1 = (s.trying side).card)
    (hlength : (s'.waiting side).length ≤ (s.waiting side).length)
    (htaken : s'.waiting side ≠ [] → s'.amount side + (s'.waiting side).length + 1 ≤
      s.amount side + (s.waiting side).length ∨ s'.amount side = 0)
    (hlock : s'.lock side = s.lock side) : s'.Balanced side := by
  intro hne
  have hpos := List.length_pos_of_ne_nil hne
  have hbalanced := h (List.ne_nil_of_length_pos (by omega))
  have htaken' := htaken hne
  rw [hlock]
  omega

lemma Balanced.place
    (hplacing : s.amount side ≤ (s.lock side).toNat ∨ (Fintype.card τ : ℤ) ≤ s.lock side)
    (hamount : s'.amount side = s.amount side)
    (hle : (s'.waiting side).length ≤ (s'.trying side).card)
    (hlock : s'.lock side = s.lock side) : s'.Balanced side := by
  intro _
  rw [hamount, hlock]
  omega

/-- Unlocking wakes as many as the lock has counted. -/
lemma Balanced.unlock (h : s.Balanced side) (hlocked : 0 ≤ s.lock side)
    (hle : (s.waiting side).length ≤ Fintype.card τ) (hamount : s'.amount side = s.amount side)
    (hwaiting : s'.waiting side = wakeAll (s.lock side).toNat (s.waiting side))
    (htrying : (s'.trying side).card = (s.trying side).card) : s'.Balanced side := by
  intro hne
  have hpos := List.length_pos_of_ne_nil hne
  rw [hwaiting, length_wakeAll] at hpos
  have hbalanced := h (List.ne_nil_of_length_pos (by omega))
  rw [hamount, hwaiting, length_wakeAll, htrying]
  omega

end Balance

lemma length_waiting_le_card (h : s.Watched) (side : QueueSide) :
    (s.waiting side).length ≤ Fintype.card τ :=
  (h.nodup side).length_le_card

lemma Watched.lock_nonneg_of_ne (h : s.Watched) {side : QueueSide}
    (hne : s.lock side ≠ queueUnlocked) : 0 ≤ s.lock side := by
  by_contra hneg
  apply hne
  apply h.unlocked
  intro t hlocks
  exact hneg (h.locked side t hlocks)

lemma Watched.elsewhere (h : s.Watched) (hcalls : s'.calls = s.calls)
    (hsuspended : s'.suspendedBy = s.suspendedBy)
    (hlock : ∀ side, s'.lock side = s.lock side ∨ 0 ≤ s.lock side ∧ s'.lock side = s.lock side + 1)
    (hwaiting : ∀ side, (s'.waiting side).Sublist (s.waiting side))
    (hbalanced : ∀ side, s'.Balanced side)
    (hplacing : ∀ side, 0 ≤ s.lock side →
      s.amount side ≤ (s.lock side).toNat ∨ (Fintype.card τ : ℤ) ≤ s.lock side →
      s'.amount side ≤ (s'.lock side).toNat ∨ (Fintype.card τ : ℤ) ≤ s'.lock side) :
    s'.Watched := by
  constructor
  case running =>
    rw [hcalls, hsuspended]
    exact h.running
  case locked =>
    intro side t hlocks
    rw [hcalls] at hlocks
    have hpos := h.locked side t hlocks
    have hcase := hlock side
    omega
  case unlocked =>
    intro side hnone
    rw [hcalls] at hnone
    have hunlocked := h.unlocked side hnone
    rcases hlock side with heq | ⟨hpos, -⟩
    · rw [heq, hunlocked]
    · rw [hunlocked] at hpos
      exact absurd hpos (by decide)
  case waits =>
    intro side t ht
    rw [hcalls]
    exact h.waits side t ((hwaiting side).subset ht)
  case nodup => exact fun side => (h.nodup side).sublist (hwaiting side)
  case balanced => exact hbalanced
  case placing =>
    intro side t hplaces
    rw [hcalls] at hplaces
    apply hplacing side
    · apply h.locked side t
      exact stands_of_standsOn (fun l hl => by cases l <;> first | rfl | cases hl) hplaces
    · exact h.placing side t hplaces

lemma Watched.not_region (h : s.Watched) {t u : τ} (ht : s.mayRun t) (hu : u ≠ t) :
    ¬stands QueueLabel.region (s.calls u) = true := by
  intro hregion
  have hsuspended := (h.running u).mp hregion
  rcases ht with hnone | hsome
  · rw [hnone] at hsuspended
    cases hsuspended
  · rw [hsome] at hsuspended
    exact hu (Option.some.inj hsuspended).symm

lemma stands_of_locks {side : QueueSide} {v : Option (QueueCall uxItemSize × QueueLabel)}
    (h : stands (QueueLabel.locks side) v = true) : stands QueueLabel.region v = true := by
  cases v with
  | none => cases h
  | some x => exact QueueLabel.region_of_locks h

section Standing

variable {t : τ} {c : QueueCall uxItemSize} {l : QueueLabel}

lemma Watched.parks_of_mem (h : s.Watched) {side : QueueSide} (ht : t ∈ s.waiting side)
    (hcall : s.calls t = some (c, l)) : c.op.side = side ∧ l.parks = true := by
  have hparks := h.waits side t ht
  rw [hcall] at hparks
  unfold standsOn at hparks
  rw [Option.any_some, Bool.and_eq_true, decide_eq_true_iff] at hparks
  exact hparks

lemma Watched.not_mem (h : s.Watched) (hcall : s.calls t = some (c, l)) (hl : l.parks = false)
    (side : QueueSide) : t ∉ s.waiting side := by
  intro ht
  have hparks := (h.parks_of_mem ht hcall).2
  rw [hl] at hparks
  cases hparks

lemma Watched.unlocked_at (h : s.Watched) (ht : s.mayRun t) (hcall : s.calls t = some (c, l))
    {side : QueueSide} (hl : l.locks side = false) : s.lock side = queueUnlocked := by
  apply h.unlocked
  intro u hlocks
  by_cases hu : u = t
  · rw [hu, hcall] at hlocks
    have hself : l.locks side = true := hlocks
    rw [hl] at hself
    cases hself
  · exact h.not_region ht hu (stands_of_locks hlocks)

lemma Watched.outside (h : s.Watched) (hcall : s.calls t = some (c, l)) (hl : l.region = false)
    (ht : s.mayRun t) : s.suspendedBy = none ∧ ∀ side, s.lock side = queueUnlocked := by
  constructor
  · apply ht.resolve_right
    intro hsome
    have hself := (h.running t).mpr hsome
    rw [hcall] at hself
    have hregion : l.region = true := hself
    rw [hl] at hregion
    cases hregion
  · intro side
    apply h.unlocked_at ht hcall
    cases hlocks : l.locks side with
    | false => rfl
    | true =>
      have hregion := QueueLabel.region_of_locks hlocks
      rw [hl] at hregion
      cases hregion

lemma Watched.lock_nonneg (h : s.Watched) {side : QueueSide} (hcall : s.calls t = some (c, l))
    (hl : l.locks side = true) : 0 ≤ s.lock side := by
  apply h.locked side t
  rw [hcall]
  exact hl

end Standing

/-- What an interrupt does: at most one more to be had on one side, and none on the other. -/
lemma Watched.signal (h : s.Watched) (hcard : Fintype.card τ ≤ 127) (q : Queue uxItemSize)
    (side : QueueSide) (hup : (s.setQueue q).amount side ≤ s.amount side + 1)
    (hdown : ∀ side' ≠ side, (s.setQueue q).amount side' ≤ s.amount side') :
    ((s.setQueue q).signal (Fintype.card τ) side).Watched ∧
      ((s.setQueue q).signal (Fintype.card τ) side).halted = s.halted := by
  have hothers : ∀ (s₁ : QueueSystem τ uxItemSize) side', side' ≠ side → s₁.queue = q →
      s₁.calls = s.calls → s₁.waiting side' = s.waiting side' → s₁.lock side' = s.lock side' →
      s₁.Balanced side' := by
    intro s₁ side' hside hqueue hcalls hwaiting hlock
    apply (h.balanced side').of_le
    · exact (amount_congr side' hqueue).trans_le (hdown side' hside)
    · rw [hwaiting]
    · unfold trying
      rw [hcalls]
    · rw [hlock]
  unfold QueueSystem.signal
  split_ifs with hunlocked
  · refine ⟨?_, rfl⟩
    refine h.elsewhere rfl rfl (fun _ => .inl rfl) (fun side' => wake_sublist side side' s) ?_ ?_
    · intro side'
      by_cases hside : side' = side
      · rw [hside]
        exact (h.balanced side).wake hup (wake_self side (s.setQueue q)) le_rfl rfl
      · exact hothers _ side' hside rfl rfl (Function.update_of_ne hside _ _) rfl
    · intro side' hpos hplacing
      by_cases hside : side' = side
      · rw [hside] at hpos
        have hlock : s.lock side = queueUnlocked := hunlocked
        rw [hlock] at hpos
        exact absurd hpos (by decide)
      · exact hplacing.imp (hdown side' hside).trans id
  · have hpos : 0 ≤ s.lock side := h.lock_nonneg_of_ne hunlocked
    unfold incrementLock
    split_ifs with hlt hmax
    · have hlock : s.lock side = queueInt8Max := hmax
      have hless : s.lock side < Fintype.card τ := hlt
      rw [hlock] at hless
      unfold queueInt8Max at hless
      omega
    · refine ⟨?_, rfl⟩
      have hself : ((s.setQueue q).setLock side ((s.setQueue q).lock side + 1)).lock side =
          s.lock side + 1 := Function.update_self _ _ _
      have hrest : ∀ side' ≠ side, ((s.setQueue q).setLock side
          ((s.setQueue q).lock side + 1)).lock side' = s.lock side' :=
        fun side' hside => Function.update_of_ne hside _ _
      refine h.elsewhere rfl rfl ?_ (fun _ => List.Sublist.refl _) ?_ ?_
      · intro side'
        by_cases hside : side' = side
        · rw [hside]
          exact .inr ⟨hpos, hself⟩
        · exact .inl (hrest side' hside)
      · intro side'
        by_cases hside : side' = side
        · rw [hside]
          exact (h.balanced side).count hpos hup rfl rfl (.inl hself)
        · exact hothers _ side' hside rfl rfl rfl (hrest side' hside)
      · intro side' _ hplacing
        by_cases hside : side' = side
        · rw [hside] at hplacing ⊢
          have hamount : ((s.setQueue q).setLock side ((s.setQueue q).lock side + 1)).amount side ≤
              s.amount side + 1 := hup
          rw [hself]
          omega
        · rw [hrest side' hside]
          exact hplacing.imp (hdown side' hside).trans id
    · refine ⟨?_, rfl⟩
      have hmany : (Fintype.card τ : ℤ) ≤ s.lock side := not_lt.mp hlt
      refine h.elsewhere rfl rfl (fun _ => .inl rfl) (fun _ => List.Sublist.refl _) ?_ ?_
      · intro side'
        by_cases hside : side' = side
        · rw [hside]
          exact (h.balanced side).count hpos hup rfl rfl (.inr ⟨hmany, rfl⟩)
        · exact hothers _ side' hside rfl rfl rfl rfl
      · intro side' _ hplacing
        by_cases hside : side' = side
        · rw [hside]
          exact .inr hmany
        · exact hplacing.imp (hdown side' hside).trans id

lemma Watched.logged (h : s.Watched) {who : Option τ} {a : QueueAnswer uxItemSize} :
    (s.answer who a).Watched :=
  ⟨h.running, h.locked, h.unlocked, h.waits, h.nodup, h.balanced, h.placing⟩

lemma watched_create (storage : ℕ → Machine.Byte) :
    (create capacity storage : QueueSystem τ uxItemSize).Watched := by
  constructor
  case running =>
    intro t
    exact iff_of_false Bool.false_ne_true (by simp [create])
  case locked =>
    intro side t hlocks
    cases hlocks
  case unlocked => exact fun _ _ => rfl
  case waits =>
    intro side t ht
    cases ht
  case nodup => exact fun _ => List.nodup_nil
  case balanced => exact fun _ hne => absurd rfl hne
  case placing =>
    intro side t hplaces
    cases hplaces

variable [DecidableEq τ]

lemma Watched.waiting_subset (h : s.Watched) (side : QueueSide) :
    (s.waiting side).toFinset ⊆ s.trying side := by
  intro t ht
  have hparks := h.waits side t (List.mem_toFinset.mp ht)
  refine Finset.mem_filter.mpr ⟨Finset.mem_univ t, ?_⟩
  cases hcall : s.calls t with
  | none =>
    rw [hcall] at hparks
    cases hparks
  | some x =>
    rw [hcall] at hparks
    unfold standsOn at hparks ⊢
    rw [Option.any_some, Bool.and_eq_true] at hparks ⊢
    exact ⟨hparks.1, QueueLabel.tries_of_parks hparks.2⟩

lemma Watched.length_waiting_le (h : s.Watched) (side : QueueSide) :
    (s.waiting side).length ≤ (s.trying side).card := by
  rw [← List.toFinset_card_of_nodup (h.nodup side)]
  exact Finset.card_le_card (h.waiting_subset side)

/-- A task that is awake and going to try is one more than those who wait. -/
lemma Watched.length_waiting_lt (h : s.Watched) {side : QueueSide} {t : τ}
    (htries : t ∈ s.trying side) (ht : t ∉ s.waiting side) :
    (s.waiting side).length < (s.trying side).card := by
  rw [← List.toFinset_card_of_nodup (h.nodup side)]
  apply Finset.card_lt_card
  refine ⟨h.waiting_subset side, fun hsub => ht ?_⟩
  exact List.mem_toFinset.mp (hsub htries)

/-! ### Steps -/

lemma card_trying {t : τ} {v : Option (QueueCall uxItemSize × QueueLabel)} (side : QueueSide)
    (hcalls : s'.calls = Function.update s.calls t v) :
    (s'.trying side).card + (standsOn side QueueLabel.tries (s.calls t)).toNat =
      (s.trying side).card + (standsOn side QueueLabel.tries v).toNat := by
  have hcard := card_filter_update (standsOn side QueueLabel.tries) s.calls t v
  rw [← hcalls] at hcard
  exact hcard

/-- What the step of a task has to keep: the rest follows from the scheduler's suspension, which
lets no other task into the sections where the queue is locked. -/
structure Moves (t : τ) (v : Option (QueueCall uxItemSize × QueueLabel))
    (s s' : QueueSystem τ uxItemSize) : Prop where
  calls : s'.calls = Function.update s.calls t v
  suspended : s'.suspendedBy = if stands QueueLabel.region v then some t else none
  lock : ∀ side, if stands (QueueLabel.locks side) v then 0 ≤ s'.lock side
    else s'.lock side = queueUnlocked
  waiting : ∀ side, ∀ u ∈ s'.waiting side,
    u ≠ t ∧ u ∈ s.waiting side ∨ u = t ∧ standsOn side QueueLabel.parks v = true
  nodup : ∀ side, (s'.waiting side).Nodup
  balanced : ∀ side, s'.Balanced side
  placing : ∀ side, standsOn side QueueLabel.places v = true →
    s'.amount side ≤ (s'.lock side).toNat ∨ (Fintype.card τ : ℤ) ≤ s'.lock side

lemma Watched.moves (h : s.Watched) {t : τ} (ht : s.mayRun t)
    {v : Option (QueueCall uxItemSize × QueueLabel)} (hm : Moves t v s s') : s'.Watched := by
  have hself : s'.calls t = v := by rw [hm.calls, Function.update_self]
  have hother : ∀ u ≠ t, s'.calls u = s.calls u := by
    intro u hu
    rw [hm.calls, Function.update_of_ne hu]
  constructor
  case running =>
    intro u
    rw [hm.suspended]
    by_cases hu : u = t
    · rw [hu, hself]
      by_cases hv : stands QueueLabel.region v = true
      · rw [if_pos hv]
        exact iff_of_true hv rfl
      · rw [if_neg hv]
        exact iff_of_false hv (by simp)
    · rw [hother u hu]
      refine iff_of_false (h.not_region ht hu) ?_
      split_ifs
      · exact fun heq => hu (Option.some.inj heq).symm
      · simp
  case locked =>
    intro side u hlocks
    by_cases hu : u = t
    · rw [hu, hself] at hlocks
      have hlock := hm.lock side
      rwa [if_pos hlocks] at hlock
    · rw [hother u hu] at hlocks
      exact absurd (stands_of_locks hlocks) (h.not_region ht hu)
  case unlocked =>
    intro side hnone
    have hlock := hm.lock side
    have hv := hnone t
    rw [hself] at hv
    rwa [if_neg hv] at hlock
  case waits =>
    intro side u hu
    rcases hm.waiting side u hu with ⟨hne, hmem⟩ | ⟨rfl, hparks⟩
    · rw [hother u hne]
      exact h.waits side u hmem
    · rw [hself]
      exact hparks
  case nodup => exact hm.nodup
  case balanced => exact hm.balanced
  case placing =>
    intro side u hplaces
    by_cases hu : u = t
    · rw [hu, hself] at hplaces
      exact hm.placing side hplaces
    · rw [hother u hu] at hplaces
      have hregion := stands_of_standsOn (fun _ => QueueLabel.region_of_places) hplaces
      exact absurd hregion (h.not_region ht hu)

section Sections

variable {t : τ} {c c' : QueueCall uxItemSize} {l l' : QueueLabel}

lemma Watched.plain (h : s.Watched) (ht : s.mayRun t)
    {v : Option (QueueCall uxItemSize × QueueLabel)} (hqueue : s'.queue = s.queue)
    (hwaiting : s'.waiting = s.waiting) (hcalls : s'.calls = Function.update s.calls t v)
    (hsuspended : s'.suspendedBy = if stands QueueLabel.region v then some t else none)
    (hlock : ∀ side, if stands (QueueLabel.locks side) v then 0 ≤ s'.lock side
      else s'.lock side = queueUnlocked)
    (hle : ∀ side, s.lock side ≤ s'.lock side)
    (hparks : ∀ side, t ∈ s.waiting side → standsOn side QueueLabel.parks v = true)
    (htries : ∀ side, standsOn side QueueLabel.tries (s.calls t) = true →
      standsOn side QueueLabel.tries v = true)
    (hplaces : ∀ side, standsOn side QueueLabel.places v = true → s.amount side = 0) :
    s'.Watched := by
  apply h.moves ht (v := v)
  constructor
  case calls => exact hcalls
  case suspended => exact hsuspended
  case lock => exact hlock
  case waiting =>
    intro side u hu
    rw [hwaiting] at hu
    by_cases hut : u = t
    · exact .inr ⟨hut, hparks side (hut ▸ hu)⟩
    · exact .inl ⟨hut, hu⟩
  case nodup =>
    intro side
    rw [hwaiting]
    exact h.nodup side
  case balanced =>
    intro side
    have hcard := card_trying side hcalls
    apply (h.balanced side).of_le (amount_congr side hqueue).le
    · rw [hwaiting]
    · cases htry : standsOn side QueueLabel.tries (s.calls t) with
      | false =>
        rw [htry] at hcard
        exact le_of_le_of_eq (Nat.le_add_right _ _) hcard.symm
      | true =>
        rw [htry, htries side htry] at hcard
        exact (Nat.add_right_cancel hcard).ge
    · exact hle side
  case placing =>
    intro side hplace
    rw [amount_congr side hqueue, hplaces side hplace]
    exact .inl (Nat.zero_le _)

lemma Watched.plain_outside (h : s.Watched) (ht : s.mayRun t)
    (hunlocked : ∀ side, s.lock side = queueUnlocked)
    {v : Option (QueueCall uxItemSize × QueueLabel)} (hv : stands QueueLabel.region v = false)
    (hqueue : s'.queue = s.queue)
    (hwaiting : s'.waiting = s.waiting) (hcalls : s'.calls = Function.update s.calls t v)
    (hsuspended : s'.suspendedBy = none) (hlock : s'.lock = s.lock)
    (hparks : ∀ side, t ∈ s.waiting side → standsOn side QueueLabel.parks v = true)
    (htries : ∀ side, standsOn side QueueLabel.tries (s.calls t) = true →
      standsOn side QueueLabel.tries v = true) : s'.Watched := by
  have hnot : ¬stands QueueLabel.region v = true := by
    rw [hv]
    exact Bool.false_ne_true
  apply h.plain ht hqueue hwaiting hcalls
  · rw [hsuspended, if_neg hnot]
  · intro side
    rw [if_neg fun hlocks => hnot (stands_of_locks hlocks), hlock]
    exact hunlocked side
  · intro side
    rw [hlock]
  · exact hparks
  · exact htries
  · intro side hplaces
    exact absurd (stands_of_standsOn (fun _ => QueueLabel.region_of_places) hplaces) hnot

lemma Watched.plain_locked (h : s.Watched) (ht : s.mayRun t) (hcall : s.calls t = some (c, l))
    (hl : ∀ side, l.locks side = true) (hl' : ∀ side, l'.locks side = true)
    (hparks : l.parks = false) (htries : l.tries = false)
    (hplaces : l'.places = true → s.amount c'.op.side = 0) : (s.moveTo t c' l').Watched := by
  have hregion : stands QueueLabel.region (some (c', l')) = true :=
    QueueLabel.region_of_locks (hl' .toSend)
  have hsuspended : s.suspendedBy = some t := by
    apply (h.running t).mp
    rw [hcall]
    exact QueueLabel.region_of_locks (hl .toSend)
  apply h.plain ht (v := some (c', l'))
  · rfl
  · rfl
  · rfl
  · rw [if_pos hregion]
    exact hsuspended
  · intro side
    rw [if_pos (show stands (QueueLabel.locks side) (some (c', l')) = true from hl' side)]
    exact h.lock_nonneg hcall (hl side)
  · exact fun side => le_rfl
  · intro side hmem
    exact absurd hmem (h.not_mem hcall hparks side)
  · intro side hside
    rw [hcall] at hside
    unfold standsOn at hside
    rw [Option.any_some, htries, Bool.and_false] at hside
    cases hside
  · intro side hside
    unfold standsOn at hside
    rw [Option.any_some, Bool.and_eq_true, decide_eq_true_iff] at hside
    rw [← hside.1]
    exact hplaces hside.2

lemma Watched.unlock (h : s.Watched) (ht : s.mayRun t) (hcall : s.calls t = some (c, l))
    (side : QueueSide) (hl : l.locks side = true) (hl' : l'.locks side = false)
    (hothers : ∀ side' ≠ side, l'.locks side' = l.locks side') (hregion : l'.region = true)
    (hparks : l'.parks = l.parks) (htries : l'.tries = l.tries) (hplaces : l'.places = false) :
    ((s.prvUnlockQueue side).moveTo t c l').Watched := by
  have hsuspended : s.suspendedBy = some t := by
    apply (h.running t).mp
    rw [hcall]
    exact QueueLabel.region_of_locks hl
  have hwaiting : ∀ side', (((s.prvUnlockQueue side).moveTo t c l').waiting side').Sublist
      (s.waiting side') := by
    intro side'
    change (Function.update s.waiting side _ side').Sublist _
    by_cases hside : side' = side
    · rw [hside, Function.update_self]
      exact wakeAll_sublist _ _
    · rw [Function.update_of_ne hside]
  have hlock : ∀ side' ≠ side,
      ((s.prvUnlockQueue side).moveTo t c l').lock side' = s.lock side' := by
    intro side' hside
    exact Function.update_of_ne hside _ _
  have hunlocked : ((s.prvUnlockQueue side).moveTo t c l').lock side = queueUnlocked :=
    Function.update_self _ _ _
  have hcard : ∀ side', (((s.prvUnlockQueue side).moveTo t c l').trying side').card =
      (s.trying side').card := by
    intro side'
    have hcount : (((s.prvUnlockQueue side).moveTo t c l').trying side').card +
        (standsOn side' QueueLabel.tries (s.calls t)).toNat = _ :=
      card_trying (v := some (c, l')) side' rfl
    have hsame : standsOn side' QueueLabel.tries (some (c, l')) =
        standsOn side' QueueLabel.tries (s.calls t) := by
      rw [hcall]
      unfold standsOn
      rw [Option.any_some, Option.any_some, htries]
    rw [hsame] at hcount
    exact Nat.add_right_cancel hcount
  apply h.moves ht (v := some (c, l'))
  constructor
  case calls => rfl
  case suspended =>
    rw [if_pos (show stands QueueLabel.region (some (c, l')) = true from hregion)]
    exact hsuspended
  case lock =>
    intro side'
    by_cases hside : side' = side
    · rw [hside, if_neg (show ¬stands (QueueLabel.locks side) (some (c, l')) = true from by
        unfold stands
        rw [Option.any_some, hl']
        exact Bool.false_ne_true)]
      exact hunlocked
    · rw [hlock side' hside]
      have hstands : stands (QueueLabel.locks side') (some (c, l')) = l.locks side' :=
        hothers side' hside
      rw [hstands]
      split_ifs with hlocks
      · exact h.lock_nonneg hcall hlocks
      · apply h.unlocked
        intro u hu
        by_cases hut : u = t
        · rw [hut, hcall] at hu
          exact hlocks hu
        · exact h.not_region ht hut (stands_of_locks hu)
  case waiting =>
    intro side' u hu
    have hmem := (hwaiting side').subset hu
    by_cases hut : u = t
    · refine .inr ⟨hut, ?_⟩
      obtain ⟨hside, hl⟩ := h.parks_of_mem (hut ▸ hmem) hcall
      unfold standsOn
      rw [Option.any_some, hparks, hl, Bool.and_true, decide_eq_true hside]
    · exact .inl ⟨hut, hmem⟩
  case nodup => exact fun side' => (h.nodup side').sublist (hwaiting side')
  case balanced =>
    intro side'
    by_cases hside : side' = side
    · rw [hside]
      apply (h.balanced side).unlock (h.lock_nonneg hcall hl) (length_waiting_le_card h side)
      · rfl
      · exact Function.update_self _ _ _
      · exact hcard side
    · apply (h.balanced side').of_le
      · exact (amount_congr side' rfl).le
      · exact (hwaiting side').length_le
      · exact (hcard side').ge
      · exact (hlock side' hside).ge
  case placing =>
    intro side' hside
    unfold standsOn at hside
    rw [Option.any_some, hplaces, Bool.and_false] at hside
    cases hside

/-- The task puts itself on its list; the queue was empty, or full, when it looked. -/
lemma Watched.place (h : s.Watched) (ht : s.mayRun t) (priority : τ → ℕ)
    (hcall : s.calls t = some (c, .placeOnEventList)) :
    ((s.placeOnEventList priority t c.op.side).moveTo t c (.unlockTx .block)).Watched := by
  have hsuspended : s.suspendedBy = some t := by
    apply (h.running t).mp
    rw [hcall]
    rfl
  have hnew := h.not_mem hcall rfl
  have hperm : ((s.waiting c.op.side).orderedInsert (fun a b => priority b < priority a) t).Perm
      (t :: s.waiting c.op.side) := List.perm_orderedInsert _ _ _
  have hself : ((s.placeOnEventList priority t c.op.side).moveTo t c (.unlockTx .block)).waiting
      c.op.side = (s.waiting c.op.side).orderedInsert (fun a b => priority b < priority a) t :=
    Function.update_self _ _ _
  have hother : ∀ side ≠ c.op.side,
      ((s.placeOnEventList priority t c.op.side).moveTo t c (.unlockTx .block)).waiting side =
        s.waiting side := fun side hside => Function.update_of_ne hside _ _
  have hcard : ∀ side,
      (((s.placeOnEventList priority t c.op.side).moveTo t c (.unlockTx .block)).trying side).card =
        (s.trying side).card + (decide (c.op.side = side)).toNat := by
    intro side
    have hcount : (((s.placeOnEventList priority t c.op.side).moveTo t c
        (.unlockTx .block)).trying side).card +
        (standsOn side QueueLabel.tries (s.calls t)).toNat = _ :=
      card_trying (v := some (c, .unlockTx .block)) side rfl
    rw [hcall] at hcount
    unfold standsOn at hcount
    rw [Option.any_some, Option.any_some] at hcount
    simpa [QueueLabel.tries] using hcount
  apply h.moves ht (v := some (c, .unlockTx .block))
  constructor
  case calls => rfl
  case suspended => exact hsuspended
  case lock => exact fun side => h.lock_nonneg hcall rfl
  case waiting =>
    intro side u hu
    by_cases hside : side = c.op.side
    · rw [hside, hself, hperm.mem_iff, List.mem_cons] at hu
      rcases hu with hut | hu
      · refine .inr ⟨hut, ?_⟩
        unfold standsOn
        rw [Option.any_some, decide_eq_true hside.symm]
        rfl
      · exact .inl ⟨fun hut => hnew _ (hut ▸ hu), hside ▸ hu⟩
    · rw [hother side hside] at hu
      exact .inl ⟨fun hut => hnew side (hut ▸ hu), hu⟩
  case nodup =>
    intro side
    by_cases hside : side = c.op.side
    · rw [hside, hself, hperm.nodup_iff, List.nodup_cons]
      exact ⟨hnew _, h.nodup _⟩
    · rw [hother side hside]
      exact h.nodup side
  case balanced =>
    intro side
    by_cases hside : side = c.op.side
    · rw [hside]
      have hplacing := h.placing c.op.side t (by
        rw [hcall]
        unfold standsOn
        rw [Option.any_some, decide_eq_true rfl]
        rfl)
      apply Balanced.place hplacing
      · exact amount_congr _ rfl
      · rw [hcard, hself, List.orderedInsert_length, decide_eq_true rfl]
        exact Nat.succ_le_succ (h.length_waiting_le _)
      · rfl
    · apply (h.balanced side).of_le
      · exact (amount_congr side rfl).le
      · rw [hother side hside]
      · rw [hcard]
        exact Nat.le_add_right _ _
      · exact le_rfl
  case placing =>
    intro side hside
    unfold standsOn at hside
    rw [Option.any_some] at hside
    simp [QueueLabel.places] at hside

lemma Watched.attempted (h : s.Watched) (ht : s.mayRun t) (hcall : s.calls t = some (c, .attempt))
    (s' : QueueSystem τ uxItemSize) {v : Option (QueueCall uxItemSize × QueueLabel)}
    (hv : v = none ∨ v = some (c, .suspendAll)) (hcalls : s'.calls = Function.update s.calls t v)
    (hsuspended : s'.suspendedBy = s.suspendedBy) (hlock : s'.lock = s.lock)
    (hwaiting : ∀ side, (s'.waiting side).Sublist (s.waiting side))
    (htaken : s'.waiting c.op.side ≠ [] → s'.amount c.op.side + (s'.waiting c.op.side).length + 1 ≤
      s.amount c.op.side + (s.waiting c.op.side).length ∨ s'.amount c.op.side = 0)
    (hother : ∀ side ≠ c.op.side, s'.amount side ≤ s.amount side ∨
      s'.amount side ≤ s.amount side + 1 ∧ s'.waiting side = (s.waiting side).tail) :
    s'.Watched := by
  obtain ⟨hnone, hunlocked⟩ := h.outside hcall rfl ht
  have hnot := h.not_mem hcall rfl
  have hregion : stands QueueLabel.region v = false := by
    rcases hv with rfl | rfl <;> rfl
  have hfalse : ∀ side, standsOn side QueueLabel.tries v = false := by
    intro side
    rcases hv with rfl | rfl
    · rfl
    · exact Bool.and_false _
  have htries : ∀ side, standsOn side QueueLabel.tries (s.calls t) = decide (c.op.side = side) := by
    intro side
    rw [hcall]
    exact Bool.and_true _
  have hcard : ∀ side, (s'.trying side).card + (decide (c.op.side = side)).toNat =
      (s.trying side).card := by
    intro side
    have hcount := card_trying side hcalls
    rwa [htries, hfalse] at hcount
  apply h.moves ht (v := v)
  constructor
  case calls => exact hcalls
  case suspended =>
    rw [hsuspended, hnone, hregion]
    rfl
  case lock =>
    intro side
    have hlocks : ¬stands (QueueLabel.locks side) v = true := fun hlocks => by
      have hreg := stands_of_locks hlocks
      rw [hregion] at hreg
      cases hreg
    rw [if_neg hlocks, hlock]
    exact hunlocked side
  case waiting =>
    intro side u hu
    have hmem := (hwaiting side).subset hu
    exact .inl ⟨fun hut => hnot side (hut ▸ hmem), hmem⟩
  case nodup => exact fun side => (h.nodup side).sublist (hwaiting side)
  case balanced =>
    intro side
    have hcount := hcard side
    by_cases hside : side = c.op.side
    · rw [hside] at hcount ⊢
      rw [decide_eq_true rfl] at hcount
      have hmem : t ∈ s.trying c.op.side := by
        refine Finset.mem_filter.mpr ⟨Finset.mem_univ t, ?_⟩
        rw [htries, decide_eq_true rfl]
      apply (h.balanced c.op.side).leave (h.length_waiting_lt hmem (hnot _)) hcount
      · exact (hwaiting _).length_le
      · exact htaken
      · rw [hlock]
    · rw [decide_eq_false fun heq => hside heq.symm] at hcount
      rcases hother side hside with hle | ⟨hle, htail⟩
      · apply (h.balanced side).of_le hle (hwaiting side).length_le hcount.ge
        rw [hlock]
      · apply (h.balanced side).wake hle htail hcount.ge
        rw [hlock]
  case placing =>
    intro side hplaces
    have hreg := stands_of_standsOn (fun _ => QueueLabel.region_of_places) hplaces
    rw [hregion] at hreg
    cases hreg

lemma Watched.waitOr (h : s.Watched) (ht : s.mayRun t) (hcall : s.calls t = some (c, .attempt))
    (hzero : s.amount c.op.side = 0) (a : QueueAnswer uxItemSize) :
    (s.waitOr t c a).Watched := by
  unfold QueueSystem.waitOr
  split_ifs
  · apply h.attempted ht hcall (s.finish t a) (.inl rfl) rfl rfl rfl
    · exact fun side => List.Sublist.refl _
    · exact fun _ => .inr hzero
    · exact fun side _ => .inl le_rfl
  · apply h.attempted ht hcall (s.moveTo t c .suspendAll) (.inr rfl) rfl rfl rfl
    · exact fun side => List.Sublist.refl _
    · exact fun _ => .inr hzero
    · exact fun side _ => .inl le_rfl

lemma Watched.attempt (h : s.Watched) (hs : s.Sound capacity) (ht : s.mayRun t)
    (hcall : s.calls t = some (c, .attempt)) : (s.attempt t c).Watched := by
  have hop : c.op.Allowed capacity := hs.calls t (c, .attempt) hcall
  have hwait := fun a (hzero : s.amount c.op.side = 0) => h.waitOr ht hcall hzero a
  have hattempted := fun s' => h.attempted ht hcall s' (.inl rfl)
  obtain ⟨r, hr⟩ := hs.explained.ring
  have hfits := hr.fits
  unfold QueueSystem.attempt
  cases hc : c.op with
  | send item pos =>
    rw [hc] at hop hwait hattempted
    dsimp only
    split_ifs with hroom
    · obtain ⟨hup, hdown⟩ := hs.amount_copy hop hroom item
      refine hattempted _ ?_ ?_ ?_ ?_ ?_ ?_
      · rfl
      · rfl
      · rfl
      · exact fun side => wake_sublist .toReceive side s
      · intro _
        refine hdown.imp (fun hless => ?_) id
        exact (Nat.add_right_comm _ _ _).trans_le (Nat.add_le_add_right hless _)
      · intro side hside
        cases side with
        | toSend => exact absurd rfl hside
        | toReceive =>
          have htail := wake_self .toReceive (s.setQueue (s.queue.prvCopyDataToQueue item pos))
          exact .inr ⟨hup, htail⟩
    · apply hwait
      have hfull : ¬s.queue.uxMessagesWaiting < s.queue.uxLength := fun hlt => hroom (.inl hlt)
      exact Nat.sub_eq_zero_of_le (not_lt.mp hfull)
  | receive =>
    rw [hc] at hwait hattempted
    dsimp only
    split_ifs with hsome
    · refine hattempted _ ?_ ?_ ?_ ?_ ?_ ?_
      · rfl
      · rfl
      · rfl
      · exact fun side => wake_sublist .toSend side s
      · intro _
        have hless : s.queue.uxMessagesWaiting - 1 + 1 = s.queue.uxMessagesWaiting := by omega
        exact .inl ((Nat.add_right_comm _ _ _).trans_le (Nat.add_le_add_right hless.le _))
      · intro side hside
        cases side with
        | toReceive => exact absurd rfl hside
        | toSend =>
          refine .inr ⟨?_, wake_self .toSend (s.setQueue s.queue.takeItem.2)⟩
          change s.queue.uxLength - (s.queue.uxMessagesWaiting - 1) ≤
            s.queue.uxLength - s.queue.uxMessagesWaiting + 1
          omega
    · exact hwait _ (Nat.eq_zero_of_not_pos hsome)
  | peek =>
    rw [hc] at hwait hattempted
    dsimp only
    split_ifs with hsome
    · refine hattempted _ ?_ ?_ ?_ ?_ ?_ ?_
      · rfl
      · rfl
      · rfl
      · exact fun side => wake_sublist .toReceive side s
      · intro hne
        have htail := s.wake_self .toReceive
        have hpos : 0 < ((s.wake .toReceive).waiting .toReceive).length :=
          List.length_pos_of_ne_nil hne
        rw [htail, List.length_tail] at hpos
        have hless : ((s.wake .toReceive).waiting .toReceive).length + 1 =
            (s.waiting .toReceive).length := by
          rw [htail, List.length_tail]
          omega
        exact .inl (Nat.add_le_add_left hless.le _)
      · exact fun side _ => .inl (amount_congr side rfl).le
    · exact hwait _ (Nat.eq_zero_of_not_pos hsome)

lemma Watched.exec (h : s.Watched) (hs : s.Sound capacity) (ht : s.mayRun t) {priority : τ → ℕ}
    {expired : Bool} (hcall : s.calls t = some (c, l))
    (hexec : s.exec priority t expired c l = some s') : s'.Watched := by
  have hparks : l.parks = false → ∀ side, t ∉ s.waiting side := fun hl => h.not_mem hcall hl
  have hnever : l.tries = false → ∀ side, ¬standsOn side QueueLabel.tries (s.calls t) = true := by
    intro hl side hside
    rw [hcall] at hside
    unfold standsOn at hside
    rw [Option.any_some, hl, Bool.and_false] at hside
    cases hside
  cases l with
  | attempt =>
    cases hexec
    exact h.attempt hs ht hcall
  | suspendAll =>
    cases hexec
    obtain ⟨-, hunlocked⟩ := h.outside hcall rfl ht
    refine h.plain ht (v := some (c, .lockQueue)) rfl rfl rfl rfl ?_ (fun _ => le_rfl) ?_ ?_ ?_
    · exact hunlocked
    · exact fun side hmem => absurd hmem (hparks rfl side)
    · exact fun side hside => absurd hside (hnever rfl side)
    · intro side hside
      unfold standsOn at hside
      simp [QueueLabel.places] at hside
  | lockQueue =>
    cases hexec
    have hsuspended : s.suspendedBy = some t := by
      apply (h.running t).mp
      rw [hcall]
      rfl
    have hlock : ∀ side, s.prvLockQueue.lock side = queueLockedUnmodified :=
      fun side => if_pos (h.unlocked_at ht hcall rfl)
    refine h.plain ht (v := some (c, .checkForTimeOut)) rfl rfl rfl hsuspended ?_ ?_ ?_ ?_ ?_
    · exact fun side => (hlock side).ge
    · intro side
      rw [h.unlocked_at ht hcall rfl]
      exact le_of_le_of_eq (by decide) (hlock side).symm
    · exact fun side hmem => absurd hmem (hparks rfl side)
    · exact fun side hside => absurd hside (hnever rfl side)
    · intro side hside
      unfold standsOn at hside
      simp [QueueLabel.places] at hside
  | checkForTimeOut =>
    unfold QueueSystem.exec at hexec
    dsimp only at hexec
    split_ifs at hexec
    · cases hexec
      exact h.plain_locked ht hcall (fun _ => rfl) (fun _ => rfl) rfl rfl (fun hl => by cases hl)
    · cases hexec
      exact h.plain_locked ht hcall (fun _ => rfl) (fun _ => rfl) rfl rfl (fun hl => by cases hl)
  | testQueue =>
    unfold QueueSystem.exec at hexec
    dsimp only at hexec
    split_ifs at hexec with hwait
    · cases hexec
      apply h.plain_locked ht hcall (fun _ => rfl) (fun _ => rfl) rfl rfl
      intro _
      unfold amount
      cases hside : c.op.side with
      | toReceive =>
        rw [hside] at hwait
        exact of_decide_eq_true hwait
      | toSend =>
        rw [hside] at hwait
        have hfull : s.queue.uxMessagesWaiting = s.queue.uxLength := of_decide_eq_true hwait
        exact Nat.sub_eq_zero_of_le hfull.ge
    · cases hexec
      exact h.plain_locked ht hcall (fun _ => rfl) (fun _ => rfl) rfl rfl (fun hl => by cases hl)
  | placeOnEventList =>
    cases hexec
    exact h.place ht priority hcall
  | unlockTx next =>
    cases hexec
    refine h.unlock ht hcall .toReceive rfl rfl ?_ rfl rfl rfl rfl
    intro side hside
    cases side with
    | toReceive => exact absurd rfl hside
    | toSend => rfl
  | unlockRx next =>
    cases hexec
    refine h.unlock ht hcall .toSend rfl rfl ?_ rfl rfl rfl rfl
    intro side hside
    cases side with
    | toReceive => rfl
    | toSend => exact absurd rfl hside
  | resumeAll next =>
    cases hexec
    have hunlocked : ∀ side, s.lock side = queueUnlocked := fun side => h.unlocked_at ht hcall rfl
    cases next with
    | block =>
      refine h.plain_outside ht hunlocked (v := some (c, .blocked)) rfl rfl rfl rfl rfl rfl ?_ ?_
      · intro side hmem
        obtain ⟨hside, -⟩ := h.parks_of_mem hmem hcall
        unfold standsOn
        rw [Option.any_some, decide_eq_true hside]
        rfl
      · intro side hside
        rw [hcall] at hside
        exact hside
    | tryAgain =>
      refine h.plain_outside ht hunlocked (v := some (c, .attempt)) rfl rfl rfl rfl rfl rfl ?_ ?_
      · exact fun side hmem => absurd hmem (hparks rfl side)
      · intro side hside
        rw [hcall] at hside
        exact hside
    | giveUp =>
      unfold afterUnlock
      dsimp only
      split_ifs
      · refine h.plain_outside ht hunlocked (v := none) rfl rfl rfl rfl rfl rfl ?_ ?_
        · exact fun side hmem => absurd hmem (hparks rfl side)
        · exact fun side hside => absurd hside (hnever rfl side)
      · refine h.plain_outside ht hunlocked (v := some (c, .testAgain)) rfl rfl rfl rfl rfl rfl
          ?_ ?_
        · exact fun side hmem => absurd hmem (hparks rfl side)
        · exact fun side hside => absurd hside (hnever rfl side)
  | blocked =>
    unfold QueueSystem.exec at hexec
    dsimp only at hexec
    split_ifs at hexec with hwaits
    cases hexec
    obtain ⟨hnone, hunlocked⟩ := h.outside hcall rfl ht
    refine h.plain_outside ht hunlocked (v := some (c, .attempt)) rfl rfl rfl rfl hnone rfl ?_ ?_
    · intro side hmem
      obtain ⟨hside, -⟩ := h.parks_of_mem hmem hcall
      exact absurd (hside ▸ hmem) hwaits
    · intro side hside
      rw [hcall] at hside
      exact hside
  | testAgain =>
    unfold QueueSystem.exec at hexec
    dsimp only at hexec
    obtain ⟨hnone, hunlocked⟩ := h.outside hcall rfl ht
    split_ifs at hexec
    · cases hexec
      refine h.plain_outside ht hunlocked (v := none) rfl rfl rfl rfl hnone rfl ?_ ?_
      · exact fun side hmem => absurd hmem (hparks rfl side)
      · exact fun side hside => absurd hside (hnever rfl side)
    · cases hexec
      refine h.plain_outside ht hunlocked (v := some (c, .attempt)) rfl rfl rfl rfl hnone rfl ?_ ?_
      · exact fun side hmem => absurd hmem (hparks rfl side)
      · exact fun side hside => absurd hside (hnever rfl side)

/-- Every step keeps watch, and no assertion fails. -/
lemma Watched.step (h : s.Watched) (hs : s.Sound capacity) (hcard : Fintype.card τ ≤ 127)
    {priority : τ → ℕ} {e : QueueEvent τ uxItemSize} (he : e.Allowed capacity)
    (hstep : s.step priority e = some s') : s'.Watched ∧ s'.halted = s.halted := by
  cases e with
  | call t c =>
    obtain ⟨hcall, hnone, rfl⟩ := step_call hstep
    have hlock : ∀ side, s.lock side = queueUnlocked := by
      intro side
      apply h.unlocked
      intro u hlocks
      have hsuspended := (h.running u).mp (stands_of_locks hlocks)
      rw [hnone] at hsuspended
      cases hsuspended
    refine ⟨h.plain_outside (.inl hnone) hlock (v := some (c, .attempt)) rfl rfl rfl rfl hnone rfl
      ?_ ?_, rfl⟩
    · intro side hmem
      have hparks := h.waits side t hmem
      rw [hcall] at hparks
      cases hparks
    · intro side htries
      rw [hcall] at htries
      cases htries
  | run t expired =>
    obtain ⟨c, l, hcall, hrun, hexec⟩ := step_run hstep
    exact ⟨h.exec hs hrun hcall hexec, halted_exec hexec⟩
  | timeOut t =>
    obtain ⟨side, rfl⟩ := step_timeOut hstep
    have hsublist : ∀ side', ((s.setWaiting side ((s.waiting side).erase t)).waiting
        side').Sublist (s.waiting side') := by
      intro side'
      change (Function.update s.waiting _ _ side').Sublist _
      by_cases hside : side' = side
      · rw [hside, Function.update_self]
        exact List.erase_sublist
      · rw [Function.update_of_ne hside]
    refine ⟨h.elsewhere rfl rfl (fun _ => .inl rfl) hsublist ?_ ?_, rfl⟩
    · exact fun side' => (h.balanced side').of_le le_rfl (hsublist side').length_le le_rfl le_rfl
    · exact fun _ _ hplacing => hplacing
  | sendFromIsr item pos =>
    rw [step_sendFromIsr hstep]
    unfold QueueSystem.sendFromIsr
    split_ifs with hroom
    · obtain ⟨hup, hdown⟩ := hs.amount_copy he hroom item
      obtain ⟨hwatched, hhalted⟩ := h.signal hcard _ .toReceive hup (by
        intro side hside
        cases side with
        | toReceive => exact absurd rfl hside
        | toSend => omega)
      exact ⟨hwatched.logged, hhalted⟩
    · exact ⟨h.logged, rfl⟩
  | receiveFromIsr =>
    rw [step_receiveFromIsr hstep]
    unfold QueueSystem.receiveFromIsr
    split_ifs with hsome
    · obtain ⟨hwatched, hhalted⟩ := h.signal hcard s.queue.takeItem.2 .toSend (by
        change s.queue.uxLength - (s.queue.uxMessagesWaiting - 1) ≤
          s.queue.uxLength - s.queue.uxMessagesWaiting + 1
        omega) (by
        intro side hside
        cases side with
        | toSend => exact absurd rfl hside
        | toReceive => exact Nat.sub_le _ _)
      exact ⟨hwatched.logged, hhalted⟩
    · exact ⟨h.logged, rfl⟩

end Sections

variable {priority : τ → ℕ}

lemma Reached.watched (h : s.Reached priority capacity) (hcard : Fintype.card τ ≤ 127) :
    s.Sound capacity ∧ s.Watched ∧ s.halted = false := by
  apply h.induct
  · exact fun storage => ⟨watched_create storage, rfl⟩
  · rintro s e s' hs ⟨hwatched, hhalted⟩ he hstep
    obtain ⟨hwatched', hhalted'⟩ := hwatched.step hs hcard he hstep
    exact ⟨hwatched', hhalted'.trans hhalted⟩

/-- The tasks that are awake and about to look at the queue. -/
def onTheWay (side : QueueSide) (s : QueueSystem τ uxItemSize) : Finset τ :=
  s.trying side \ (s.waiting side).toFinset

lemma Watched.amount_le (h : s.Watched) {side : QueueSide} (hne : s.waiting side ≠ [])
    (hnone : s.suspendedBy = none) : s.amount side ≤ (s.onTheWay side).card := by
  have hlock : s.lock side = queueUnlocked := by
    apply h.unlocked
    intro t hlocks
    have hsuspended := (h.running t).mp (stands_of_locks hlocks)
    rw [hnone] at hsuspended
    cases hsuspended
  have hbalanced := h.balanced side hne
  have hsplit := Finset.card_sdiff_add_card_eq_card (h.waiting_subset side)
  rw [List.toFinset_card_of_nodup (h.nodup side)] at hsplit
  rw [hlock] at hbalanced
  unfold onTheWay
  unfold queueUnlocked at hbalanced
  omega

lemma Watched.amount_eq_zero (h : s.Watched) {side : QueueSide} (hne : s.waiting side ≠ [])
    (hnone : s.suspendedBy = none)
    (hwaits : ∀ t, ∀ x ∈ s.calls t, t ∈ s.waiting x.1.op.side) : s.amount side = 0 := by
  have hle := h.amount_le hne hnone
  have hempty : s.onTheWay side = ∅ := by
    apply Finset.sdiff_eq_empty_iff_subset.mpr
    intro t ht
    have htries := (Finset.mem_filter.mp ht).2
    cases hcall : s.calls t with
    | none =>
      rw [hcall] at htries
      cases htries
    | some x =>
      rw [hcall] at htries
      unfold standsOn at htries
      rw [Option.any_some, Bool.and_eq_true, decide_eq_true_iff] at htries
      rw [← htries.1]
      exact List.mem_toFinset.mpr (hwaits t x hcall)
  rw [hempty] at hle
  exact Nat.eq_zero_of_le_zero hle

/-- A call that cannot go on is on the list of those who wait, and nothing is suspended. -/
lemma Watched.stuck (h : s.Watched) (hhalted : s.halted = false)
    (hstuck : ∀ t expired, s.step priority (.run t expired) = none) :
    s.suspendedBy = none ∧ ∀ t, ∀ x ∈ s.calls t, t ∈ s.waiting x.1.op.side := by
  have hexec : ∀ t c l, s.calls t = some (c, l) → s.mayRun t →
      s.exec priority t false c l = none := by
    intro t c l hcall hrun
    have hstep := hstuck t false
    unfold QueueSystem.step at hstep
    dsimp only at hstep
    rw [hcall] at hstep
    dsimp only at hstep
    rwa [if_pos ⟨hrun, by rw [hhalted]; exact Bool.false_ne_true⟩] at hstep
  have hblocked : ∀ t c l, s.exec priority t false c l = none →
      l = .blocked ∧ t ∈ s.waiting c.op.side := by
    intro t c l hnone
    unfold QueueSystem.exec at hnone
    cases l with
    | blocked =>
      dsimp only at hnone
      split_ifs at hnone with hmem
      exact ⟨rfl, hmem⟩
    | checkForTimeOut =>
      dsimp only at hnone
      split_ifs at hnone
    | testQueue =>
      dsimp only at hnone
      split_ifs at hnone
    | testAgain =>
      dsimp only at hnone
      split_ifs at hnone
    | _ => cases hnone
  have hnone : s.suspendedBy = none := by
    cases hsuspended : s.suspendedBy with
    | none => rfl
    | some t =>
      have hregion := (h.running t).mpr hsuspended
      cases hcall : s.calls t with
      | none =>
        rw [hcall] at hregion
        cases hregion
      | some x =>
        obtain ⟨c, l⟩ := x
        obtain ⟨rfl, -⟩ := hblocked t c l (hexec t c l hcall (.inr hsuspended))
        rw [hcall] at hregion
        cases hregion
  refine ⟨hnone, fun t x hx => ?_⟩
  exact (hblocked t x.1 x.2 (hexec t x.1 x.2 hx (.inl hnone))).2

/-- In every state of every run with at most 127 tasks no assertion has failed, and while tasks wait
for messages or for room and the scheduler is not suspended, there are no more messages, or free
places, than tasks that are awake and about to take them. When no task can run any more, those who
receive wait at an empty queue and those who send at a full one, so that only one of the two lists
has tasks on it. -/
theorem no_wakeUp_is_lost (h : s.Reached priority capacity) (hcard : Fintype.card τ ≤ 127) :
    s.halted = false ∧
    (∀ side, s.waiting side ≠ [] → s.suspendedBy = none →
      s.amount side ≤ (s.onTheWay side).card) ∧
    ((∀ t expired, s.step priority (.run t expired) = none) →
      (∀ t, ∀ x ∈ s.calls t, t ∈ s.waiting x.1.op.side) ∧
        (∀ side, s.waiting side ≠ [] → s.amount side = 0) ∧
        (s.waiting .toReceive = [] ∨ s.waiting .toSend = [])) := by
  obtain ⟨hsound, hwatched, hhalted⟩ := h.watched hcard
  refine ⟨hhalted, fun side hne hnone => hwatched.amount_le hne hnone, fun hstuck => ?_⟩
  obtain ⟨hnone, hwaits⟩ := hwatched.stuck hhalted hstuck
  have hamount : ∀ side, s.waiting side ≠ [] → s.amount side = 0 :=
    fun side hne => hwatched.amount_eq_zero hne hnone hwaits
  refine ⟨hwaits, hamount, ?_⟩
  by_contra hboth
  rw [not_or] at hboth
  have hmessages : s.queue.uxMessagesWaiting = 0 := hamount .toReceive hboth.1
  have hplaces : s.queue.uxLength - s.queue.uxMessagesWaiting = 0 := hamount .toSend hboth.2
  have hcapacity := h.capacity_pos
  rw [← hsound.explained.length] at hcapacity
  omega

/-- One of two tasks waits for a message, without a time limit. -/
def waitAlone : List (QueueEvent Bool 1) :=
  .call false ⟨.receive, .maxDelay⟩ :: List.replicate 9 (.run false false)

/-- It waits at an empty queue. -/
theorem no_wakeUp_is_lost_alone : ∃ s : QueueSystem Bool 1,
    s.waiting .toReceive = [false] ∧ s.halted = false ∧ s.amount .toReceive = 0 := by
  have hrun : ∃ s, Runs.run (step fun _ => 0) (create 1 fun _ => 0) waitAlone = some s ∧
      s.waiting .toReceive = [false] ∧
      ∀ t expired, s.step (fun _ => 0) (.run t expired) = none := by
    refine ⟨_, rfl, rfl, ?_⟩
    intro t expired
    cases t <;> rfl
  obtain ⟨s, hs, hwaiting, hstuck⟩ := hrun
  have hreached : s.Reached (fun _ => 0) 1 :=
    ⟨by decide, _, waitAlone, by decide, hs⟩
  obtain ⟨hhalted, -, hnobody⟩ := no_wakeUp_is_lost hreached (by decide)
  refine ⟨s, hwaiting, hhalted, (hnobody hstuck).2.1 .toReceive ?_⟩
  rw [hwaiting]
  exact List.cons_ne_nil _ _

end QueueSystem

end FrameworkXC32
