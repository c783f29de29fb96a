import FrameworkXC32.Kernel.Mailbox

/-!
# Semaphores of the network stack

`sys_arch.c`: a semaphore of lwIP is a queue of one item without bytes, which is there when the
semaphore has been signalled.
-/

namespace FrameworkXC32
open Runs

inductive SemCall
  | signal
  -- the take of `sys_sem_new` for a count of 0
  | firstTake
  | wait (ulTimeout : BitVec 32)
deriving DecidableEq

inductive SemAnswer
  -- of the calls that tell their callers nothing
  | done
  | taken (ulReturn : BitVec 32)
  -- `SYS_ARCH_TIMEOUT`
  | archTimeout
deriving DecidableEq

namespace SemCall

def queueCall (portTickPeriodMs : BitVec 32) : SemCall → QueueCall 0
  | signal => ⟨.send Fin.elim0 .sendToBack, .zero⟩
  | firstTake => ⟨.receive, .ofTicks 1⟩
  | wait ulTimeout => ⟨.receive, archTicks portTickPeriodMs ulTimeout⟩

/-- What follows from the answer of the queue, or that the queue is asked again. -/
def returns (portTickPeriodMs xTicks : BitVec 32) : SemCall → QueueAnswer 0 → Option SemAnswer
  | signal, _ => some .done
  | firstTake, _ => some .done
  | wait ulTimeout, .received _ => some (.taken (archElapsed portTickPeriodMs ulTimeout xTicks))
  | wait ulTimeout, _ => if ulTimeout ≠ 0 then some .archTimeout else none

/-- Interrupts only signal. -/
def inIsr : SemCall → Bool
  | signal => true
  | firstTake => false
  | wait _ => false

end SemCall

/-- A semaphore as its callers know it, signalled or not. No wait fails that has no time limit. -/
def semStep (signalled : Bool) : SemCall × SemAnswer → Option Bool
  | (.signal, .done) => some true
  | (.firstTake, .done) => some false
  | (.wait _, .taken _) => if signalled then some false else none
  | (.wait ulTimeout, .archTimeout) =>
    if ulTimeout ≠ 0 ∧ signalled = false then some false else none
  | _ => none

namespace SemCall

variable {portTickPeriodMs : BitVec 32} {m : SemCall} {a : QueueAnswer 0}

lemma returns_exact (h : (m.queueCall portTickPeriodMs).Hears a) (xTicks : BitVec 32) :
    ∃ r, m.returns portTickPeriodMs xTicks a = some r ∧
      ∀ (items items' : List (QueueItem 0)) (signalled : Bool), items.length = signalled.toNat →
        answerStep 1 items a = some items' →
        ∃ signalled', semStep signalled (m, r) = some signalled' ∧
          items'.length = signalled'.toNat := by
  have hreceived : ∀ {item : QueueItem 0} {items items' : List (QueueItem 0)} {signalled : Bool},
      items.length = signalled.toNat →
      answerStep 1 items (.received item) = some items' → signalled = true ∧ items' = [] := by
    intro item items items' signalled hlength hstep
    obtain ⟨hhead, hrest⟩ := Option.ite_none_right_eq_some.mp hstep
    cases items with
    | nil => cases hhead
    | cons first rest =>
      cases signalled with
      | false => cases hlength
      | true =>
        have hnil : rest = [] := List.eq_nil_of_length_eq_zero (Nat.succ.inj hlength)
        exact ⟨rfl, (Option.some.inj hrest).symm.trans hnil⟩
  have hempty : ∀ {items items' : List (QueueItem 0)} {signalled : Bool},
      items.length = signalled.toNat →
      answerStep 1 items .empty = some items' → signalled = false ∧ items' = [] := by
    intro items items' signalled hlength hstep
    obtain ⟨hnil, hrest⟩ := Option.ite_none_right_eq_some.mp hstep
    rw [hnil] at hlength hrest
    cases signalled with
    | false => exact ⟨rfl, (Option.some.inj hrest).symm⟩
    | true => cases hlength
  cases m with
  | signal =>
    have hfits : a = .sent Fin.elim0 .sendToBack ∨ ∃ timedOut, a = .full timedOut := h.fits
    have hquick : a ≠ .full true := h.quick rfl
    refine ⟨.done, rfl, fun items items' signalled hlength hstep => ⟨true, rfl, ?_⟩⟩
    rcases hfits with ha | ⟨timedOut, ha⟩
    · rw [ha] at hstep
      obtain ⟨hroom, hrest⟩ := Option.ite_none_right_eq_some.mp hstep
      have hlt : items.length < 1 := hroom.resolve_right CopyPosition.noConfusion
      have hnil : items = [] := List.eq_nil_of_length_eq_zero (Nat.lt_one_iff.mp hlt)
      rw [← Option.some.inj hrest, hnil]
      rfl
    · cases timedOut with
      | true => exact absurd ha hquick
      | false =>
        rw [ha] at hstep
        obtain ⟨hfull, hrest⟩ := Option.ite_none_right_eq_some.mp hstep
        rw [← Option.some.inj hrest]
        exact hfull.resolve_left Bool.false_ne_true
  | firstTake =>
    have hfits : (∃ item, a = .received item) ∨ a = .empty := h.fits
    refine ⟨.done, rfl, fun items items' signalled hlength hstep => ⟨false, rfl, ?_⟩⟩
    rcases hfits with ⟨item, ha⟩ | ha
    · rw [ha] at hstep
      rw [(hreceived hlength hstep).2]
      rfl
    · rw [ha] at hstep
      rw [(hempty hlength hstep).2]
      rfl
  | wait ulTimeout =>
    have hfits : (∃ item, a = .received item) ∨ a = .empty := h.fits
    rcases hfits with ⟨item, ha⟩ | ha
    · rw [ha]
      refine ⟨_, rfl, fun items items' signalled hlength hstep => ⟨false, ?_, ?_⟩⟩
      · rw [(hreceived hlength hstep).1]
        rfl
      · rw [(hreceived hlength hstep).2]
        rfl
    · by_cases hzero : ulTimeout = 0
      · have hpatient : a.failed = false := by
          apply h.patient
          rw [hzero]
          rfl
        rw [ha] at hpatient
        exact Bool.noConfusion hpatient
      · rw [ha]
        refine ⟨.archTimeout, if_pos hzero, fun items items' signalled hlength hstep =>
          ⟨false, if_pos ⟨hzero, (hempty hlength hstep).1⟩, ?_⟩⟩
        rw [(hempty hlength hstep).2]
        rfl

end SemCall

/-- The calls of `sys_arch.c` on a semaphore. -/
def semPort (portTickPeriodMs : BitVec 32) : QueuePort 0 where
  Call := SemCall
  Answer := SemAnswer
  queueCall := SemCall.queueCall portTickPeriodMs
  returns xTicks m a := m.returns portTickPeriodMs xTicks a
  inIsr := SemCall.inIsr
  not_overwrite := by
    intro m item hop
    cases m <;> cases hop
  fair := by
    intro m
    cases m with
    | signal => exact .inr TicksToWait.noConfusion
    | firstTake => exact .inl rfl
    | wait ulTimeout => exact .inl rfl
  isr_zero := by
    intro m hm
    cases m with
    | signal => rfl
    | _ => cases hm
  returns_some := by
    intro xTicks m a h
    obtain ⟨r, hr, -⟩ := SemCall.returns_exact h xTicks
    exact ⟨r, hr⟩

abbrev Semaphore (portTickPeriodMs : BitVec 32) (τ : Type) :=
  PortSystem (semPort portTickPeriodMs) τ

namespace Semaphore

lemma simulates (portTickPeriodMs : BitVec 32) :
    PortSystem.Simulates (P := semPort portTickPeriodMs) 1 semStep
      fun items signalled => items.length = signalled.toNat := by
  intro items items' signalled m a xTicks r hlength hhears hr hstep
  obtain ⟨r', hr', hexact⟩ := SemCall.returns_exact hhears xTicks
  obtain rfl : r' = r := Option.some.inj (hr'.symm.trans hr)
  exact hexact items items' signalled hlength hstep

/-- `sys_sem_new`, behind the creation of the queue. -/
def newCalls (ucCount : BitVec 8) : List SemCall :=
  .signal :: if ucCount = 0 then [.firstTake] else []

section

variable {τ : Type} [DecidableEq τ] [Fintype τ] {priority : τ → ℕ} {portTickPeriodMs : BitVec 32}
  {s : Semaphore portTickPeriodMs τ}

/-- However the tasks and interrupts that use a semaphore come between each other, it is signalled
or not: a wait that succeeds takes the signals since the last one that did, one without a time limit
does succeed, another fails only when there is no signal, and every call has asked the queue exactly
once. -/
theorem semaphore_of_a_signal (h : s.Reached priority 1) :
    ∃ signalled, run semStep false (s.log.map Prod.snd) = some signalled ∧
      s.queue.queue.uxMessagesWaiting = signalled.toNat ∧ s.log.length = s.queue.log.length := by
  obtain ⟨signalled, hrun, hlength⟩ := h.simulates (v := false) (simulates portTickPeriodMs) rfl
  rw [Queue.length_contents] at hlength
  exact ⟨signalled, hrun, hlength, h.length_log⟩

end

/-- A new semaphore for a count of 0: a task waits without a time limit, an interrupt signals. -/
def waitThenSignal : List (PortEvent (semPort 10) Bool) :=
  ((newCalls 0).flatMap fun m => [.call false m 0, .run false false 0]) ++
    .call false (.wait 0) 5 :: List.replicate 9 (.run false false 6) ++
      .isr .signal :: List.replicate 2 (.run false false 9)

/-- The task has the signal, and nothing of the one that `sys_sem_new` made and took. -/
theorem semaphore_of_a_signal_when_waiting : ∃ s : Semaphore 10 Bool,
    s.log = [(some false, .signal, .done), (some false, .firstTake, .done), (none, .signal, .done),
      (some false, .wait 0, .taken 40)] ∧
      s.queue.queue.uxMessagesWaiting = 0 ∧ s.queue.log.length = 4 := by
  have hrun : ∃ s : Semaphore 10 Bool,
      Runs.run (PortSystem.step fun _ => 0) (PortSystem.create 1 fun _ => 0) waitThenSignal =
        some s ∧
      s.log = [(some false, .signal, .done), (some false, .firstTake, .done),
        (none, .signal, .done), (some false, .wait 0, .taken 40)] := ⟨_, rfl, rfl⟩
  obtain ⟨s, hs, hlog⟩ := hrun
  have hreached : s.Reached (fun _ => 0) 1 := ⟨by decide, _, waitThenSignal, hs⟩
  obtain ⟨signalled, hsem, hcount, hlength⟩ := semaphore_of_a_signal hreached
  rw [hlog] at hsem hlength
  have hfalse : some false = some signalled := hsem
  rw [← Option.some.inj hfalse] at hcount
  exact ⟨s, hlog, hcount, hlength.symm⟩

end Semaphore

end FrameworkXC32
