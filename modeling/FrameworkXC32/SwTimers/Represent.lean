import FrameworkXC32.Lib.DeltaList
import FrameworkXC32.SwTimers.Model

/-!
# The delta list behind the pointers

`s.Sched l` says that the timers linked from `sTimers` are exactly `l`, in list order. For
each function of `swTimers.c` one theorem says what it does to `l` and to the remaining
times `DeltaList.rem s.delta l`, under every arithmetic that is exact where nothing wraps.
-/

namespace FrameworkXC32
open Machine LinkedHeap DeltaList

namespace Timers

def next (s : Timers) (p : Ptr) : Option Ptr := (s.heap p).next

def delta (s : Timers) (p : Ptr) : ℕ := (s.heap p).timeout.toNat

def interval (s : Timers) (p : Ptr) : ℕ := (s.heap p).interval.toNat

/-- The timers linked from the head are `l`, in this order, and the list ends. -/
def Sched (s : Timers) (l : List Ptr) : Prop := Seg s.next s.sTimers l none

/-- The fields that belong to the user, and the handler's clock, are the same. -/
structure Frame (s s' : Timers) : Prop where
  interval : ∀ p, (s'.heap p).interval = (s.heap p).interval
  mode : ∀ p, (s'.heap p).mode = (s.heap p).mode
  cb : ∀ p, (s'.heap p).cb = (s.heap p).cb
  oldTime : s'.oldTime = s.oldTime

lemma Frame.refl (s : Timers) : s.Frame s := ⟨fun _ => rfl, fun _ => rfl, fun _ => rfl, rfl⟩

lemma Frame.trans {s s' s'' : Timers} (h : s.Frame s') (h' : s'.Frame s'') : s.Frame s'' where
  interval p := (h'.interval p).trans (h.interval p)
  mode p := (h'.mode p).trans (h.mode p)
  cb p := (h'.cb p).trans (h.cb p)
  oldTime := h'.oldTime.trans h.oldTime

lemma Frame.interval_eq {s s' : Timers} (h : s.Frame s') : s'.interval = s.interval := by
  funext p
  unfold Timers.interval
  rw [h.interval p]

lemma frame_setNext (s : Timers) (p : Ptr) (q : Option Ptr) : s.Frame (s.setNext p q) := by
  constructor
  all_goals first | rfl | (intro a; by_cases h : a = p <;> simp [setNext, write, h])

lemma frame_setTimeout (s : Timers) (p : Ptr) (d : Word) : s.Frame (s.setTimeout p d) := by
  constructor
  all_goals first | rfl | (intro a; by_cases h : a = p <;> simp [setTimeout, write, h])

@[simp] lemma sTimers_setNext (s : Timers) (p : Ptr) (q : Option Ptr) :
    (s.setNext p q).sTimers = s.sTimers := rfl

@[simp] lemma sTimers_setTimeout (s : Timers) (p : Ptr) (d : Word) :
    (s.setTimeout p d).sTimers = s.sTimers := rfl

@[simp] lemma next_setNext (s : Timers) (p : Ptr) (q : Option Ptr) :
    (s.setNext p q).next = Function.update s.next p q := by
  funext a
  by_cases h : a = p <;> simp [next, setNext, write, Function.update, h]

@[simp] lemma delta_setNext (s : Timers) (p : Ptr) (q : Option Ptr) :
    (s.setNext p q).delta = s.delta := by
  funext a
  by_cases h : a = p <;> simp [delta, setNext, write, h]

@[simp] lemma next_setTimeout (s : Timers) (p : Ptr) (d : Word) :
    (s.setTimeout p d).next = s.next := by
  funext a
  by_cases h : a = p <;> simp [next, setTimeout, write, h]

@[simp] lemma delta_setTimeout (s : Timers) (p : Ptr) (d : Word) :
    (s.setTimeout p d).delta = Function.update s.delta p d.toNat := by
  funext a
  by_cases h : a = p <;> simp [delta, setTimeout, write, Function.update, h]

/-- The timeout of the first timer of `l`, when there is one, replaced. -/
def adjustHead (s : Timers) (f : Word → Word) : List Ptr → Timers
  | [] => s
  | a :: _ => s.setTimeout a (f (s.heap a).timeout)

@[simp] lemma sTimers_adjustHead (s : Timers) (f : Word → Word) (l : List Ptr) :
    (s.adjustHead f l).sTimers = s.sTimers := by
  cases l <;> rfl

@[simp] lemma next_adjustHead (s : Timers) (f : Word → Word) (l : List Ptr) :
    (s.adjustHead f l).next = s.next := by
  cases l <;> simp [adjustHead]

lemma frame_adjustHead (s : Timers) (f : Word → Word) (l : List Ptr) :
    s.Frame (s.adjustHead f l) := by
  cases l with
  | nil => exact Frame.refl s
  | cons a l => exact s.frame_setTimeout a _

lemma delta_adjustHead_sub (s : Timers) (d : Word) {l : List Ptr}
    (h : ∀ a ∈ l.head?, d.toNat ≤ s.delta a) :
    (s.adjustHead (· - d) l).delta = DeltaList.adjustHead s.delta (· - d.toNat) l := by
  cases l with
  | nil => rfl
  | cons a l =>
    have hd : d ≤ (s.heap a).timeout := BitVec.le_def.mpr (h a (by simp))
    simp only [adjustHead, delta_setTimeout, DeltaList.adjustHead, BitVec.toNat_sub_of_le hd]
    rfl

lemma delta_adjustHead_add (s : Timers) (d : Word) {l : List Ptr}
    (h : ∀ a ∈ l.head?, s.delta a + d.toNat < 2 ^ 32) :
    (s.adjustHead (· + d) l).delta = DeltaList.adjustHead s.delta (· + d.toNat) l := by
  cases l with
  | nil => rfl
  | cons a l =>
    have hd : (s.heap a).timeout.toNat + d.toNat < 2 ^ 32 := h a (by simp)
    simp only [adjustHead, delta_setTimeout, DeltaList.adjustHead, BitVec.toNat_add_of_lt hd]
    rfl

lemma Sched.sTimers_cons {s : Timers} {a : Ptr} {l : List Ptr} (h : s.Sched (a :: l)) :
    s.sTimers = some a := h.1

end Timers

/-! ### Placing a timer -/

section Place

variable {A : Arith} (hA : A.Exact)
include hA

/-- The loop stops in front of the first timer that expires later, and takes the rest of the
new timer's interval from that timer. The induction is on the part of the list still ahead. -/
lemma placeLoop_eq (s : Timers) (l : List Ptr) (p prev : Option Ptr) (timeout : Word) {fuel : ℕ}
    (hseg : Seg s.next p l none) (hfuel : l.length < fuel) :
    ∃ l₁ l₂ d, l = l₁ ++ l₂ ∧ timeout.toNat = (l₁.map s.delta).sum + d.toNat ∧
      (∀ a ∈ l₂.head?, d.toNat < s.delta a) ∧
      placeLoop A fuel s p prev timeout = some (s.adjustHead (· - d) l₂, l₁.getLast?.or prev, d) := by
  induction l generalizing p prev timeout fuel with
  | nil =>
    obtain ⟨fuel, rfl⟩ := Nat.exists_eq_succ_of_ne_zero (by omega : fuel ≠ 0)
    refine ⟨[], [], timeout, rfl, by simp, by simp, ?_⟩
    rw [seg_nil] at hseg
    subst hseg
    simp [placeLoop, Timers.adjustHead]
  | cons a l ih =>
    obtain ⟨fuel, rfl⟩ := Nat.exists_eq_succ_of_ne_zero (by omega : fuel ≠ 0)
    rw [seg_cons] at hseg
    obtain ⟨rfl, htail⟩ := hseg
    by_cases hlt : timeout < (s.heap a).timeout
    · have hnat : timeout.toNat < s.delta a := BitVec.lt_def.mp hlt
      refine ⟨[], a :: l, timeout, rfl, by simp, by simpa using hnat, ?_⟩
      rw [placeLoop, if_pos hlt, hA.sub _ _ hnat.le]
      simp [Timers.adjustHead]
    · have hle : (s.heap a).timeout ≤ timeout := BitVec.not_lt.mp hlt
      have hsub := BitVec.toNat_sub_of_le hle
      have hnat : s.delta a ≤ timeout.toNat := BitVec.le_def.mp hle
      obtain ⟨l₁, l₂, d, hl, hsum, hhead, heq⟩ :=
        ih _ (some a) (timeout - (s.heap a).timeout) htail (by simpa using hfuel : l.length < fuel)
      refine ⟨a :: l₁, l₂, d, by rw [hl]; rfl, ?_, hhead, ?_⟩
      · rw [List.map_cons, List.sum_cons]
        have hda : (s.heap a).timeout.toNat = s.delta a := rfl
        omega
      · rw [placeLoop, if_neg hlt, hA.sub _ _ hnat]
        change placeLoop A fuel s (s.next a) (some a) (timeout - (s.heap a).timeout) = _
        rw [heq]
        cases l₁ with
        | nil => simp
        | cons b l₁ => simp [List.getLast?_cons]

omit hA in
lemma Timers.Frame.of_heap {s s' u : Timers} (h : s.Frame s') (hh : u.heap = s'.heap)
    (ho : u.oldTime = s'.oldTime) : s.Frame u where
  interval p := by rw [hh, h.interval]
  mode p := by rw [hh, h.mode]
  cb p := by rw [hh, h.cb]
  oldTime := by rw [ho, h.oldTime]

/-- What `placeTimer` does to a timer `t` that is not scheduled: it is linked in behind every
timer that expires no later, and no other remaining time moves. -/
structure Placed (s s' : Timers) (t : Ptr) (l₁ l₂ : List Ptr) : Prop where
  sched : s'.Sched (l₁ ++ t :: l₂)
  rem_self : rem s'.delta (l₁ ++ t :: l₂) t = s.interval t
  rem_other : ∀ u ∈ l₁ ++ l₂, rem s'.delta (l₁ ++ t :: l₂) u = rem s.delta (l₁ ++ l₂) u
  before : ∀ u ∈ l₁, rem s.delta (l₁ ++ l₂) u ≤ s.interval t
  after : ∀ u ∈ l₂, s.interval t < rem s.delta (l₁ ++ l₂) u
  frame : s.Frame s'

omit hA in
/-- The delta arithmetic of a placement, whatever the pointers. -/
lemma Placed.of_delta {s s' : Timers} {t : Ptr} {l₁ l₂ : List Ptr} {d : ℕ}
    (hnd : (l₁ ++ l₂).Nodup) (ht : t ∉ l₁ ++ l₂) (hsched : s'.Sched (l₁ ++ t :: l₂))
    (hdelta : s'.delta = Function.update (DeltaList.adjustHead s.delta (· - d) l₂) t d)
    (hsum : s.interval t = (l₁.map s.delta).sum + d) (hhead : ∀ a ∈ l₂.head?, d < s.delta a)
    (hframe : s.Frame s') : Placed s s' t l₁ l₂ := by
  have hdis : ∀ a ∈ l₁, a ∉ l₂ := fun a ha hb => (List.nodup_append.mp hnd).2.2 a ha a hb rfl
  refine ⟨hsched, ?_, ?_, ?_, ?_, hframe⟩
  · rw [hdelta, rem_insert_self s.delta hdis (fun h => ht (by simp [h])), hsum]
  · intro u hu
    rw [hdelta]
    exact rem_insert s.delta hnd ht (fun a ha => (hhead a ha).le) hu
  · intro u hu
    have hle := rem_le_sum s.delta l₁ u
    rw [rem_append_of_mem _ hu]
    omega
  · intro u hu
    have hu₁ : u ∉ l₁ := fun h => hdis u h hu
    cases l₂ with
    | nil => simp at hu
    | cons a l₂ =>
      have ha : a ∈ (a :: l₂).head? := by simp
      have h1 := hhead a ha
      have h2 : s.delta a ≤ rem s.delta (a :: l₂) u := head_le_rem s.delta ha
      rw [rem_append_of_notMem _ hu₁]
      omega

theorem placeTimer_eq {s : Timers} {l : List Ptr} {t : Ptr} {fuel : ℕ} (h : s.Sched l)
    (ht : t ∉ l) (hfuel : l.length < fuel) :
    ∃ s' l₁ l₂, l = l₁ ++ l₂ ∧ Placed s s' t l₁ l₂ ∧ placeTimer A fuel t s = some s' := by
  cases hs : s.sTimers with
  | none =>
    have hl : l = [] := by
      cases l with
      | nil => rfl
      | cons a l => exact absurd (hs.symm.trans h.1) (by simp)
    subst hl
    refine ⟨{ (s.setNext t none).setTimeout t (s.heap t).interval with sTimers := some t },
      [], [], rfl, ?_, ?_⟩
    · refine Placed.of_delta (d := s.interval t) List.nodup_nil (by simp) ⟨rfl, ?_⟩ ?_ (by simp)
        (by simp) ?_
      · change ((s.setNext t none).setTimeout t (s.heap t).interval).next t = none
        simp
      · change ((s.setNext t none).setTimeout t (s.heap t).interval).delta = _
        rw [Timers.delta_setTimeout, Timers.delta_setNext]
        rfl
      · exact ((s.frame_setNext t none).trans (Timers.frame_setTimeout _ t _)).of_heap rfl rfl
    · simp [placeTimer, hs]
  | some first =>
    obtain ⟨l₁, l₂, d, hl, hsum, hhead, heq⟩ :=
      placeLoop_eq hA s l s.sTimers none (s.heap t).interval h hfuel
    subst hl
    have hnd : (l₁ ++ l₂).Nodup := Seg.nodup h
    have ht₂ : t ∉ l₂ := fun e => ht (by simp [e])
    -- the state after the loop and the assignment of `timer->timeout`
    let u := (s.adjustHead (· - d) l₂).setTimeout t d
    have hunext : u.next = s.next := by simp [u]
    have huhead : u.sTimers = s.sTimers := by simp [u]
    have hudelta : u.delta =
        Function.update (DeltaList.adjustHead s.delta (· - d.toNat) l₂) t d.toNat := by
      simp only [u, Timers.delta_setTimeout]
      rw [Timers.delta_adjustHead_sub s d (fun a ha => (hhead a ha).le)]
    have huframe : s.Frame u := (s.frame_adjustHead _ l₂).trans (Timers.frame_setTimeout _ t d)
    have hcode : placeTimer A fuel t s =
        l₁.getLast?.elim (some { u.setNext t u.sTimers with sTimers := some t })
          fun prev => some ((u.setNext t (u.heap prev).next).setNext prev (some t)) := by
      simp only [placeTimer, hs, Option.isSome_some, if_true]
      rw [← hs, heq]
      cases l₁.getLast? <;> simp [u]
    rcases List.eq_nil_or_concat l₁ with rfl | ⟨m, b, rfl⟩
    · refine ⟨_, [], l₂, rfl, ?_, hcode⟩
      refine Placed.of_delta hnd ht ?_ (d := d.toNat) ?_ hsum hhead ?_
      · change Seg (u.setNext t u.sTimers).next (some t) (t :: l₂) none
        rw [Timers.next_setNext, hunext, huhead]
        exact Seg.push h ht₂
      · change (u.setNext t u.sTimers).delta = _
        rw [Timers.delta_setNext, hudelta]
      · exact (huframe.trans (Timers.frame_setNext u t _)).of_heap rfl rfl
    · simp only [List.concat_eq_append, List.append_assoc, List.singleton_append] at *
      rw [List.getLast?_append_of_ne_nil _ (by simp), List.getLast?_singleton] at hcode
      have hb : b ∉ m ∧ b ∉ l₂ := by
        have hmid := (List.nodup_middle.mp hnd)
        simp only [List.nodup_cons, List.mem_append, not_or] at hmid
        exact hmid.1
      refine ⟨_, m ++ [b], l₂, by simp, ?_, hcode⟩
      refine Placed.of_delta (by simpa using hnd) (by simpa using ht) ?_ (d := d.toNat) ?_
        hsum hhead ?_
      · change Seg ((u.setNext t (u.next b)).setNext b (some t)).next u.sTimers _ none
        rw [Timers.next_setNext, Timers.next_setNext, hunext, huhead, List.append_assoc]
        exact Seg.link h hb.1 hb.2 ht
      · rw [Timers.delta_setNext, Timers.delta_setNext, hudelta]
      · exact (huframe.trans (Timers.frame_setNext u t _)).trans (Timers.frame_setNext _ b _)

end Place

/-! ### Starting and stopping -/

lemma startedLoop_eq (s : Timers) (l : List Ptr) (t : Ptr) {p : Option Ptr} {fuel : ℕ}
    (hseg : Seg s.next p l none) (hfuel : l.length < fuel) :
    startedLoop fuel s p t = some (decide (t ∈ l)) := by
  induction l generalizing p fuel with
  | nil =>
    obtain ⟨fuel, rfl⟩ := Nat.exists_eq_succ_of_ne_zero (by omega : fuel ≠ 0)
    rw [seg_nil] at hseg
    subst hseg
    simp [startedLoop]
  | cons a l ih =>
    obtain ⟨fuel, rfl⟩ := Nat.exists_eq_succ_of_ne_zero (by omega : fuel ≠ 0)
    rw [seg_cons] at hseg
    obtain ⟨rfl, htail⟩ := hseg
    rw [startedLoop]
    by_cases ha : a = t
    · simp [ha]
    · rw [if_neg ha]
      change startedLoop fuel s (s.next a) t = _
      rw [ih htail (by simpa using hfuel : l.length < fuel)]
      have hta : t ≠ a := Ne.symm ha
      simp [hta]

theorem swTimerStart_of_mem (A : Arith) {s : Timers} {l : List Ptr} {t : Ptr} {fuel : ℕ}
    (h : s.Sched l) (ht : t ∈ l) (hfuel : l.length < fuel) :
    swTimerStart A fuel t s = some s := by
  simp [swTimerStart, swTimerStarted, startedLoop_eq s l t h hfuel, ht]

theorem swTimerStart_of_notMem {A : Arith} (hA : A.Exact) {s : Timers} {l : List Ptr} {t : Ptr}
    {fuel : ℕ} (h : s.Sched l) (ht : t ∉ l) (hfuel : l.length < fuel) :
    ∃ s' l₁ l₂, l = l₁ ++ l₂ ∧ Placed s s' t l₁ l₂ ∧ swTimerStart A fuel t s = some s' := by
  obtain ⟨s', l₁, l₂, hl, hp, hcode⟩ := placeTimer_eq hA h ht hfuel
  refine ⟨s', l₁, l₂, hl, hp, ?_⟩
  simp [swTimerStart, swTimerStarted, startedLoop_eq s l t h hfuel, ht, hcode]

/-- What `swTimerStop` does to a scheduled timer: it is unlinked, and no other remaining time
moves. -/
structure Removed (s s' : Timers) (t : Ptr) (l₁ l₂ : List Ptr) : Prop where
  sched : s'.Sched (l₁ ++ l₂)
  rem_other : ∀ u ∈ l₁ ++ l₂, rem s'.delta (l₁ ++ l₂) u = rem s.delta (l₁ ++ t :: l₂) u
  frame : s.Frame s'

lemma stopLoop_of_notMem (A : Arith) (s : Timers) (l : List Ptr) {p prev : Option Ptr} {t : Ptr}
    {fuel : ℕ} (hseg : Seg s.next p l none) (ht : t ∉ l) (hfuel : l.length < fuel) :
    stopLoop A fuel s p prev t = some s := by
  induction l generalizing p prev fuel with
  | nil =>
    obtain ⟨fuel, rfl⟩ := Nat.exists_eq_succ_of_ne_zero (by omega : fuel ≠ 0)
    rw [seg_nil] at hseg
    subst hseg
    rfl
  | cons a l ih =>
    obtain ⟨fuel, rfl⟩ := Nat.exists_eq_succ_of_ne_zero (by omega : fuel ≠ 0)
    rw [seg_cons] at hseg
    obtain ⟨rfl, htail⟩ := hseg
    have ha : ¬a = t := fun e => ht (by simp [e])
    unfold stopLoop
    rw [if_neg ha]
    exact ih htail (fun e => ht (by simp [e])) (by simpa using hfuel : l.length < fuel)

lemma stopLoop_reaches (A : Arith) (s : Timers) (l₁ l₂ : List Ptr) {p prev : Option Ptr} {t : Ptr}
    {fuel : ℕ} (hseg : Seg s.next p (l₁ ++ t :: l₂) none) (ht : t ∉ l₁)
    (hfuel : l₁.length < fuel) :
    stopLoop A fuel s p prev t = stopLoop A 1 s (some t) (l₁.getLast?.or prev) t := by
  induction l₁ generalizing p prev fuel with
  | nil =>
    obtain ⟨fuel, rfl⟩ := Nat.exists_eq_succ_of_ne_zero (by omega : fuel ≠ 0)
    obtain ⟨rfl, -⟩ := hseg
    simp [stopLoop]
  | cons a l₁ ih =>
    obtain ⟨fuel, rfl⟩ := Nat.exists_eq_succ_of_ne_zero (by omega : fuel ≠ 0)
    rw [List.cons_append, seg_cons] at hseg
    obtain ⟨rfl, htail⟩ := hseg
    have ha : ¬a = t := fun e => ht (by simp [e])
    conv_lhs => unfold stopLoop
    rw [if_neg ha]
    change stopLoop A fuel s (s.next a) (some a) t = _
    rw [ih htail (fun e => ht (by simp [e])) (by simpa using hfuel : l₁.length < fuel)]
    cases l₁ with
    | nil => simp
    | cons b l₁ => simp [List.getLast?_cons]

/-- The step of `swTimerStop` at the timer itself: it is unlinked, then its timeout is added to
the timer behind it. -/
lemma stopLoop_at {A : Arith} (hA : A.Exact) (s : Timers) (l₂ : List Ptr) {t : Ptr}
    {prev : Option Ptr} (hseg : Seg s.next (some t) (t :: l₂) none) (hprev : prev ≠ some t)
    (hfit : ∀ a ∈ l₂.head?, s.delta a + s.delta t < 2 ^ 32) :
    stopLoop A 1 s (some t) prev t =
      some ((match prev with
        | some b => s.setNext b (s.next t)
        | none => { s with sTimers := s.next t }).adjustHead (· + (s.heap t).timeout) l₂) := by
  have hnext : ∀ b, prev = some b → (s.setNext b (s.next t)).next t = s.next t := by
    intro b hb
    have htb : t ≠ b := fun e => hprev (by rw [hb, e])
    rw [Timers.next_setNext, Function.update_of_ne htb]
  have htimeout : ∀ b a, ((s.setNext b (s.next t)).heap a).timeout = (s.heap a).timeout := by
    intro b a
    by_cases hab : a = b <;> simp [Timers.setNext, Timers.write, hab]
  have htail : s.next t = l₂.head? := by
    cases l₂ with
    | nil => exact hseg.2
    | cons a l₂ => exact hseg.2.1
  cases l₂ with
  | nil =>
    cases prev with
    | none =>
      have hn : (s.heap t).next = none := htail
      simp [stopLoop, Timers.adjustHead, hn, Timers.next]
    | some b =>
      have hn : ((s.setNext b (s.next t)).heap t).next = none := (hnext b rfl).trans htail
      unfold Timers.next at hn
      simp [stopLoop, Timers.adjustHead, hn, Timers.next]
  | cons a l₂ =>
    have hadd := hA.add _ _ (hfit a (by simp))
    cases prev with
    | none =>
      have hn : (s.heap t).next = some a := htail
      simp [stopLoop, Timers.adjustHead, hn, Timers.next, hadd, Timers.setTimeout, Timers.write]
    | some b =>
      have hn : ((s.setNext b (s.next t)).heap t).next = some a := (hnext b rfl).trans htail
      have hta := htimeout b a
      have htt := htimeout b t
      unfold Timers.next at hn hta htt
      simp [stopLoop, Timers.adjustHead, hn, Timers.next, hta, htt, hadd]

theorem swTimerStop_of_notMem (A : Arith) {s : Timers} {l : List Ptr} {t : Ptr} {fuel : ℕ}
    (h : s.Sched l) (ht : t ∉ l) (hfuel : l.length < fuel) :
    swTimerStop A fuel t s = some s :=
  stopLoop_of_notMem A s l h ht hfuel

lemma room_behind {s : Timers} {l₁ l₂ : List Ptr} {t : Ptr} (hnd : (l₁ ++ t :: l₂).Nodup)
    (hfit : ∀ u ∈ l₁ ++ t :: l₂, rem s.delta (l₁ ++ t :: l₂) u < 2 ^ 32) :
    ∀ a ∈ l₂.head?, s.delta a + s.delta t < 2 ^ 32 := by
  have ht₂ : t ∉ l₂ := (List.nodup_cons.mp (List.nodup_append.mp hnd).2.1).1
  intro a ha
  cases l₂ with
  | nil => simp at ha
  | cons b l₂ =>
    have hba : b = a := by simpa using ha
    subst hba
    have hb₁ : b ∉ l₁ := fun e => (List.nodup_append.mp hnd).2.2 b e b (by simp) rfl
    have hbt : b ≠ t := fun e => ht₂ (by simp [e])
    have hfb := hfit b (by simp)
    rw [rem_append_of_notMem _ hb₁, rem_cons_of_ne _ _ hbt, rem_cons_self] at hfb
    omega

theorem swTimerStop_of_mem {A : Arith} (hA : A.Exact) {s : Timers} {l₁ l₂ : List Ptr} {t : Ptr}
    {fuel : ℕ} (h : s.Sched (l₁ ++ t :: l₂))
    (hfit : ∀ u ∈ l₁ ++ t :: l₂, rem s.delta (l₁ ++ t :: l₂) u < 2 ^ 32)
    (hfuel : (l₁ ++ t :: l₂).length < fuel) :
    ∃ s', Removed s s' t l₁ l₂ ∧ swTimerStop A fuel t s = some s' := by
  have hnd : (l₁ ++ t :: l₂).Nodup := Seg.nodup h
  have hmid := List.nodup_middle.mp hnd
  simp only [List.nodup_cons, List.mem_append, not_or] at hmid
  obtain ⟨⟨ht₁, ht₂⟩, hnd'⟩ := hmid
  obtain ⟨r, h₁, h₂⟩ := seg_append.mp h
  have hr : r = some t := h₂.1
  subst hr
  have hroom := room_behind hnd hfit
  have hprev : l₁.getLast?.or none ≠ some t := by
    rw [Option.or_none]
    exact fun e => ht₁ (List.mem_of_getLast? e)
  have hcode : swTimerStop A fuel t s = _ :=
    (stopLoop_reaches A s l₁ l₂ h ht₁ (by simp at hfuel; omega)).trans
      (stopLoop_at hA s l₂ h₂ hprev hroom)
  refine ⟨_, ?_, hcode⟩
  have hdelta : ∀ u : Timers, u.delta = s.delta →
      (u.adjustHead (· + (s.heap t).timeout) l₂).delta =
        DeltaList.adjustHead s.delta (· + s.delta t) l₂ := by
    intro u hu
    have hfitu : ∀ a ∈ l₂.head?, u.delta a + (s.heap t).timeout.toNat < 2 ^ 32 := by
      rw [hu]
      exact hroom
    rw [Timers.delta_adjustHead_add u _ hfitu, hu]
    rfl
  rcases List.eq_nil_or_concat l₁ with rfl | ⟨m, b, rfl⟩
  · have hlast : ([] : List Ptr).getLast?.or none = none := rfl
    rw [hlast]
    dsimp only
    let v : Timers := { s with sTimers := s.next t }
    refine ⟨?_, ?_, ?_⟩
    · unfold Timers.Sched
      rw [Timers.next_adjustHead, Timers.sTimers_adjustHead]
      exact h₂.2
    · intro u hu
      rw [hdelta v rfl]
      exact rem_remove s.delta hnd hu
    · have hv : s.Frame v := (Timers.Frame.refl s).of_heap rfl rfl
      exact hv.trans (Timers.frame_adjustHead v _ l₂)
  · simp only [List.concat_eq_append, List.append_assoc, List.singleton_append] at *
    have hlast : (m ++ [b]).getLast?.or none = some b := by simp
    rw [hlast]
    have hb : b ∉ m ∧ b ∉ l₂ := by
      have hmid := List.nodup_middle.mp hnd'
      simp only [List.nodup_cons, List.mem_append, not_or] at hmid
      exact hmid.1
    refine ⟨?_, ?_, ?_⟩
    · unfold Timers.Sched
      rw [Timers.next_adjustHead, Timers.sTimers_adjustHead, List.append_assoc]
      dsimp only
      rw [Timers.next_setNext, Timers.sTimers_setNext]
      exact Seg.unlink h hb.1 hb.2
    · intro u hu
      rw [hdelta _ (Timers.delta_setNext s b _), List.append_assoc]
      have hrem := rem_remove s.delta (l := m ++ [b]) (m := l₂) (t := t) (by simpa using hnd)
        (u := u) (by simpa using hu)
      simpa using hrem
    · exact (s.frame_setNext b _).trans (Timers.frame_adjustHead _ _ l₂)

/-! ### More fuel changes nothing -/

lemma placeLoop_mono (A : Arith) (s : Timers) {fuel fuel' : ℕ} {p prev : Option Ptr}
    {timeout : Word} {r : Timers × Option Ptr × Word} (hle : fuel ≤ fuel')
    (h : placeLoop A fuel s p prev timeout = some r) :
    placeLoop A fuel' s p prev timeout = some r := by
  induction fuel generalizing fuel' p prev timeout with
  | zero => simp [placeLoop] at h
  | succ fuel ih =>
    obtain ⟨fuel', rfl⟩ := Nat.exists_eq_add_of_le' (by omega : 1 ≤ fuel')
    cases p with
    | none => exact h
    | some a =>
      simp only [placeLoop] at h ⊢
      split at h
      · rename_i hlt
        rw [if_pos hlt]
        exact h
      · rename_i hlt
        rw [if_neg hlt]
        obtain ⟨d, hd, hloop⟩ := Option.bind_eq_some_iff.mp h
        exact Option.bind_eq_some_iff.mpr ⟨d, hd, ih (by omega) hloop⟩

lemma startedLoop_mono (s : Timers) {fuel fuel' : ℕ} {p : Option Ptr} {t : Ptr} {b : Bool}
    (hle : fuel ≤ fuel') (h : startedLoop fuel s p t = some b) :
    startedLoop fuel' s p t = some b := by
  induction fuel generalizing fuel' p with
  | zero => simp [startedLoop] at h
  | succ fuel ih =>
    obtain ⟨fuel', rfl⟩ := Nat.exists_eq_add_of_le' (by omega : 1 ≤ fuel')
    cases p with
    | none => exact h
    | some a =>
      simp only [startedLoop] at h ⊢
      split at h
      · rename_i hat
        rw [if_pos hat]
        exact h
      · rename_i hat
        rw [if_neg hat]
        exact ih (by omega) h

lemma stopLoop_mono (A : Arith) (s : Timers) {fuel fuel' : ℕ} {p prev : Option Ptr} {t : Ptr}
    {s' : Timers} (hle : fuel ≤ fuel') (h : stopLoop A fuel s p prev t = some s') :
    stopLoop A fuel' s p prev t = some s' := by
  induction fuel generalizing fuel' p prev with
  | zero => simp [stopLoop] at h
  | succ fuel ih =>
    obtain ⟨fuel', rfl⟩ := Nat.exists_eq_add_of_le' (by omega : 1 ≤ fuel')
    cases p with
    | none => exact h
    | some a =>
      unfold stopLoop at h ⊢
      split at h
      · rename_i hat
        rw [if_pos hat]
        exact h
      · rename_i hat
        rw [if_neg hat]
        exact ih (by omega) h

lemma placeTimer_mono (A : Arith) (s : Timers) {fuel fuel' : ℕ} {t : Ptr} {s' : Timers}
    (hle : fuel ≤ fuel') (h : placeTimer A fuel t s = some s') :
    placeTimer A fuel' t s = some s' := by
  unfold placeTimer at h ⊢
  split at h
  · rename_i hs
    rw [if_pos hs]
    obtain ⟨r, hr, hrest⟩ := Option.bind_eq_some_iff.mp h
    exact Option.bind_eq_some_iff.mpr ⟨r, placeLoop_mono A s hle hr, hrest⟩
  · rename_i hs
    rw [if_neg hs]
    exact h

lemma swTimerStart_mono (A : Arith) (s : Timers) {fuel fuel' : ℕ} {t : Ptr} {s' : Timers}
    (hle : fuel ≤ fuel') (h : swTimerStart A fuel t s = some s') :
    swTimerStart A fuel' t s = some s' := by
  obtain ⟨b, hb, hrest⟩ := Option.bind_eq_some_iff.mp h
  refine Option.bind_eq_some_iff.mpr ⟨b, startedLoop_mono s hle hb, ?_⟩
  cases b with
  | true => exact hrest
  | false => exact placeTimer_mono A s hle hrest

/-! ### What an operation that returns has done -/

section Cases

variable {A : Arith} (hA : A.Exact) {s s' : Timers} {l : List Ptr} {t : Ptr} {fuel : ℕ}
include hA

omit hA in
lemma swTimerStarted_some (h : s.Sched l) {b : Bool} (hb : swTimerStarted fuel t s = some b) :
    b = decide (t ∈ l) := by
  have hbig := startedLoop_mono s (Nat.le_max_left fuel (l.length + 1)) hb
  have heq := startedLoop_eq s l t h (by omega : l.length < max fuel (l.length + 1))
  exact Option.some.inj (hbig.symm.trans heq)

theorem placeTimer_some (h : s.Sched l) (ht : t ∉ l) (hs : placeTimer A fuel t s = some s') :
    ∃ l₁ l₂, l = l₁ ++ l₂ ∧ Placed s s' t l₁ l₂ := by
  have hbig := placeTimer_mono A s (Nat.le_max_left fuel (l.length + 1)) hs
  obtain ⟨u, l₁, l₂, hl, hp, heq⟩ :=
    placeTimer_eq hA h ht (by omega : l.length < max fuel (l.length + 1))
  have hu : u = s' := Option.some.inj (heq.symm.trans hbig)
  subst hu
  exact ⟨l₁, l₂, hl, hp⟩

theorem swTimerStart_some (h : s.Sched l) (hs : swTimerStart A fuel t s = some s') :
    (t ∈ l ∧ s' = s) ∨ (t ∉ l ∧ ∃ l₁ l₂, l = l₁ ++ l₂ ∧ Placed s s' t l₁ l₂) := by
  have hbig := swTimerStart_mono A s (Nat.le_max_left fuel (l.length + 1)) hs
  have hfuel : l.length < max fuel (l.length + 1) := by omega
  by_cases ht : t ∈ l
  · left
    have heq := swTimerStart_of_mem A h ht hfuel
    exact ⟨ht, Option.some.inj (hbig.symm.trans heq)⟩
  · right
    obtain ⟨u, l₁, l₂, hl, hp, heq⟩ := swTimerStart_of_notMem hA h ht hfuel
    have hu : u = s' := Option.some.inj (heq.symm.trans hbig)
    subst hu
    exact ⟨ht, l₁, l₂, hl, hp⟩

theorem swTimerStop_some (h : s.Sched l) (hfit : ∀ u ∈ l, rem s.delta l u < 2 ^ 32)
    (hs : swTimerStop A fuel t s = some s') :
    (t ∉ l ∧ s' = s) ∨ ∃ l₁ l₂, l = l₁ ++ t :: l₂ ∧ Removed s s' t l₁ l₂ := by
  have hbig : swTimerStop A (max fuel (l.length + 1)) t s = some s' :=
    stopLoop_mono A s (Nat.le_max_left fuel (l.length + 1)) hs
  have hfuel : l.length < max fuel (l.length + 1) := by omega
  by_cases ht : t ∈ l
  · right
    obtain ⟨l₁, l₂, rfl⟩ := List.append_of_mem ht
    obtain ⟨u, hr, heq⟩ := swTimerStop_of_mem hA h hfit hfuel
    have hu : u = s' := Option.some.inj (heq.symm.trans hbig)
    subst hu
    exact ⟨l₁, l₂, rfl, hr⟩
  · left
    have heq := swTimerStop_of_notMem A h ht hfuel
    exact ⟨ht, Option.some.inj (hbig.symm.trans heq)⟩

/-- A pass that ends the loop found no timer due and shortened the head. -/
theorem taskPass_done {elapsed : Word} (h : s.Sched l)
    (hs : taskPass A fuel elapsed s = some (.done s')) :
    (∀ a ∈ l.head?, elapsed.toNat < s.delta a) ∧ s' = s.adjustHead (· - elapsed) l := by
  unfold taskPass at hs
  cases l with
  | nil =>
    have hnil : s.sTimers = none := h
    rw [hnil] at hs
    cases hs
    exact ⟨by simp, rfl⟩
  | cons a l =>
    rw [h.sTimers_cons] at hs
    dsimp only at hs
    split at hs
    · -- a due head never ends the loop
      obtain ⟨e, -, hs⟩ := Option.bind_eq_some_iff.mp hs
      split at hs
      · obtain ⟨u, -, hs⟩ := Option.bind_eq_some_iff.mp hs
        cases hs
      · cases hs
    · rename_i hdue
      have hlt : elapsed.toNat < s.delta a := BitVec.lt_def.mp (BitVec.not_le.mp hdue)
      rw [hA.sub _ _ hlt.le] at hs
      cases hs
      exact ⟨by simpa using hlt, rfl⟩

/-- The state when the head has been taken off the list. -/
def Timers.pop (s : Timers) (t : Ptr) : Timers := { s with sTimers := s.next t }

/-- A pass that calls a callback found its timer due at the head of the list, took it off, and
scheduled it again when it is periodic. -/
theorem taskPass_fired {elapsed elapsed' : Word} (h : s.Sched l)
    (hs : taskPass A fuel elapsed s = some (.fired t elapsed' s')) :
    ∃ m, l = t :: m ∧ s.delta t ≤ elapsed.toNat ∧ elapsed'.toNat = elapsed.toNat - s.delta t ∧
      (((s.heap t).mode = .oneshot ∧ s' = s.pop t) ∨
        ((s.heap t).mode = .periodic ∧ ∃ l₁ l₂, m = l₁ ++ l₂ ∧ Placed (s.pop t) s' t l₁ l₂)) := by
  unfold taskPass at hs
  cases l with
  | nil =>
    have hnil : s.sTimers = none := h
    rw [hnil] at hs
    cases hs
  | cons a m =>
    rw [h.sTimers_cons] at hs
    dsimp only at hs
    split at hs
    · rename_i hdue
      have hle : s.delta a ≤ elapsed.toNat := BitVec.le_def.mp hdue
      rw [hA.sub _ _ hle, Option.bind_eq_bind, Option.bind_some] at hs
      have hsub : (elapsed - (s.heap a).timeout).toNat = elapsed.toNat - s.delta a :=
        BitVec.toNat_sub_of_le hdue
      split at hs
      · rename_i hmode
        obtain ⟨u, hu, hs⟩ := Option.bind_eq_some_iff.mp hs
        cases hs
        have hpop : (s.pop t).Sched m := h.2
        have ha : t ∉ m := (List.nodup_cons.mp (Seg.nodup h)).1
        exact ⟨m, rfl, hle, hsub, .inr ⟨hmode, placeTimer_some hA hpop ha hu⟩⟩
      · rename_i hmode
        cases hs
        refine ⟨m, rfl, hle, hsub, .inl ⟨?_, rfl⟩⟩
        cases hm : (s.heap t).mode with
        | oneshot => rfl
        | periodic => exact absurd hm hmode
    · obtain ⟨d, -, hs⟩ := Option.bind_eq_some_iff.mp hs
      cases hs

/-! ### No wrap-around -/

/-- Every subtraction of `placeTimer` is guarded. -/
lemma placeLoop_exact (s : Timers) (fuel : ℕ) (p prev : Option Ptr) (timeout : Word) :
    placeLoop A fuel s p prev timeout = placeLoop wrapping fuel s p prev timeout := by
  induction fuel generalizing p prev timeout with
  | zero => rfl
  | succ fuel ih =>
    cases p with
    | none => rfl
    | some a =>
      simp only [placeLoop]
      by_cases hlt : timeout < (s.heap a).timeout
      · rw [if_pos hlt, if_pos hlt, hA.sub _ _ (BitVec.lt_def.mp hlt).le]
        rfl
      · rw [if_neg hlt, if_neg hlt, hA.sub _ _ (BitVec.le_def.mp (BitVec.not_lt.mp hlt))]
        exact ih _ _ _

lemma placeTimer_exact : placeTimer A fuel t s = placeTimer wrapping fuel t s := by
  unfold placeTimer
  rw [placeLoop_exact hA]

lemma swTimerStart_exact : swTimerStart A fuel t s = swTimerStart wrapping fuel t s := by
  unfold swTimerStart
  rw [placeTimer_exact hA]

lemma taskPass_exact (elapsed : Word) :
    taskPass A fuel elapsed s = taskPass wrapping fuel elapsed s := by
  unfold taskPass
  cases s.sTimers with
  | none => rfl
  | some a =>
    dsimp only
    by_cases hdue : (s.heap a).timeout ≤ elapsed
    · rw [if_pos hdue, if_pos hdue, hA.sub _ _ (BitVec.le_def.mp hdue), placeTimer_exact hA]
      rfl
    · rw [if_neg hdue, if_neg hdue, hA.sub _ _ (BitVec.lt_def.mp (BitVec.not_le.mp hdue)).le]
      rfl

lemma stopLoop_exact (l : List Ptr) {p prev : Option Ptr} (hseg : Seg s.next p l none)
    (hprev : prev ≠ some t)
    (hfit : ∀ l₁ a l₂, l = l₁ ++ t :: a :: l₂ → s.delta a + s.delta t < 2 ^ 32) :
    stopLoop A fuel s p prev t = stopLoop wrapping fuel s p prev t := by
  induction l generalizing p prev fuel with
  | nil =>
    rw [seg_nil] at hseg
    subst hseg
    cases fuel <;> rfl
  | cons b l ih =>
    cases fuel with
    | zero => rfl
    | succ fuel =>
      have hb := hseg.1
      subst hb
      by_cases hbt : b = t
      · subst hbt
        have hroom : ∀ a ∈ l.head?, s.delta a + s.delta b < 2 ^ 32 := by
          intro a ha
          cases l with
          | nil => simp at ha
          | cons c l =>
            have hca : c = a := by simpa using ha
            subst hca
            exact hfit [] c l rfl
        have hone : ∀ B : Arith,
            stopLoop B (fuel + 1) s (some b) prev b = stopLoop B 1 s (some b) prev b := by
          intro B
          unfold stopLoop
          rw [if_pos rfl, if_pos rfl]
        rw [hone A, hone wrapping, stopLoop_at hA s l hseg hprev hroom,
          stopLoop_at wrapping_exact s l hseg hprev hroom]
      · unfold stopLoop
        rw [if_neg hbt, if_neg hbt]
        refine ih hseg.2 (fun e => hbt (Option.some.inj e)) (fun l₁ a l₂ hl => ?_)
        exact hfit (b :: l₁) a l₂ (by rw [hl]; rfl)

lemma swTimerStop_exact (h : s.Sched l) (hfit : ∀ u ∈ l, rem s.delta l u < 2 ^ 32) :
    swTimerStop A fuel t s = swTimerStop wrapping fuel t s := by
  refine stopLoop_exact hA l h (by simp) (fun l₁ a l₂ hl => ?_)
  -- the remaining time of the timer behind `t` contains both timeouts
  subst hl
  have hnd : (l₁ ++ t :: a :: l₂).Nodup := Seg.nodup h
  have ha₁ : a ∉ l₁ := fun e => (List.nodup_append.mp hnd).2.2 a e a (by simp) rfl
  have hat : a ≠ t := by
    have htail := (List.nodup_append.mp hnd).2.1
    exact fun e => (List.nodup_cons.mp htail).1 (by simp [e])
  have hfa := hfit a (by simp)
  rw [rem_append_of_notMem _ ha₁, rem_cons_of_ne _ _ hat, rem_cons_self] at hfa
  omega

end Cases

end FrameworkXC32
