import FrameworkXC32.Kernel.QueuePort
import FrameworkXC32.Kernel.QueueWakeUp

/-!
# Mailboxes of the network stack

`sys_arch.c`: a mailbox of lwIP is a queue of pointers. A post, and a fetch without a time limit,
would ask the queue again and again; the other calls ask it once.
-/

namespace FrameworkXC32
open Runs

/-- `void *`. -/
abbrev MboxMessage := QueueItem 4

inductive MboxCall
  | post (pxMessageToPost : MboxMessage)
  | trypost (pxMessageToPost : MboxMessage)
  | fetch (ulTimeOut : BitVec 32)
  | tryfetch
deriving DecidableEq

/-- What the caller is told. -/
inductive MboxAnswer
  | posted
  | errOk
  | errMem
  -- what is in `*ppvBuffer`, and the milliseconds
  | fetched (message : MboxMessage) (ulReturn : BitVec 32)
  -- `SYS_ARCH_TIMEOUT`, and `NULL` in `*ppvBuffer`
  | archTimeout
  | tryfetched (message : MboxMessage)
  -- `SYS_MBOX_EMPTY`
  | mboxEmpty
deriving DecidableEq

/-- Of `sys_arch_mbox_fetch` and `sys_arch_sem_wait`: how long they wait, `ulTimeOut` in ms. -/
def archTicks (portTickPeriodMs ulTimeOut : BitVec 32) : TicksToWait :=
  if ulTimeOut ≠ 0 then .ofTicks (ulTimeOut / portTickPeriodMs) else .maxDelay

/-- The milliseconds that they return; without a time limit these are never 0. -/
def archElapsed (portTickPeriodMs ulTimeOut xTicks : BitVec 32) : BitVec 32 :=
  if ulTimeOut = 0 ∧ xTicks * portTickPeriodMs = 0 then 1 else xTicks * portTickPeriodMs

namespace MboxCall

def queueCall (portTickPeriodMs : BitVec 32) : MboxCall → QueueCall 4
  | post msg => ⟨.send msg .sendToBack, .maxDelay⟩
  | trypost msg => ⟨.send msg .sendToBack, .zero⟩
  | fetch ulTimeOut => ⟨.receive, archTicks portTickPeriodMs ulTimeOut⟩
  | tryfetch => ⟨.receive, .zero⟩

/-- What follows from the answer of the queue, or that the queue is asked again. -/
def returns (portTickPeriodMs xTicks : BitVec 32) : MboxCall → QueueAnswer 4 → Option MboxAnswer
  | post _, .sent _ _ => some .posted
  | post _, _ => none
  | trypost _, .sent _ _ => some .errOk
  | trypost _, _ => some .errMem
  | fetch ulTimeOut, .received msg =>
    some (.fetched msg (archElapsed portTickPeriodMs ulTimeOut xTicks))
  | fetch ulTimeOut, _ => if ulTimeOut ≠ 0 then some .archTimeout else none
  | tryfetch, .received msg => some (.tryfetched msg)
  | tryfetch, _ => some .mboxEmpty

/-- Interrupts only try. -/
def inIsr : MboxCall → Bool
  | post _ => false
  | trypost _ => true
  | fetch _ => false
  | tryfetch => true

end MboxCall

/-- A mailbox as its callers know it: a list of at most `iSize` messages. No post fails, and no
fetch without a time limit. -/
def mboxStep (iSize : ℕ) (messages : List MboxMessage) (x : MboxCall × MboxAnswer) :
    Option (List MboxMessage) :=
  match x.1 with
  | .post msg =>
    match x.2 with
    | .posted => if messages.length < iSize then some (messages ++ [msg]) else none
    | _ => none
  | .trypost msg =>
    match x.2 with
    | .errOk => if messages.length < iSize then some (messages ++ [msg]) else none
    | .errMem => if messages.length = iSize then some messages else none
    | _ => none
  | .fetch ulTimeOut =>
    match x.2 with
    | .fetched msg _ => if messages.head? = some msg then some messages.tail else none
    | .archTimeout => if ulTimeOut ≠ 0 ∧ messages = [] then some messages else none
    | _ => none
  | .tryfetch =>
    match x.2 with
    | .tryfetched msg => if messages.head? = some msg then some messages.tail else none
    | .mboxEmpty => if messages = [] then some messages else none
    | _ => none

/-- The message that the call has put into the mailbox. -/
def postedMessage : MboxCall × MboxAnswer → Option MboxMessage
  | (.post msg, .posted) => some msg
  | (.trypost msg, .errOk) => some msg
  | _ => none

def fetchedMessage : MboxCall × MboxAnswer → Option MboxMessage
  | (_, .fetched msg _) => some msg
  | (_, .tryfetched msg) => some msg
  | _ => none

lemma mboxStep_some {iSize : ℕ} {messages messages' : List MboxMessage}
    {x : MboxCall × MboxAnswer} (h : mboxStep iSize messages x = some messages') :
    messages ++ (postedMessage x).toList = (fetchedMessage x).toList ++ messages' := by
  have hhead : ∀ msg, messages.head? = some msg → messages = msg :: messages.tail := by
    intro msg hmsg
    exact List.eq_cons_of_mem_head? (Option.mem_def.mpr hmsg)
  obtain ⟨m, a⟩ := x
  cases m with
  | post msg =>
    cases a with
    | posted =>
      obtain ⟨-, hrest⟩ := Option.ite_none_right_eq_some.mp h
      exact Option.some.inj hrest
    | _ => cases h
  | trypost msg =>
    cases a with
    | errOk =>
      obtain ⟨-, hrest⟩ := Option.ite_none_right_eq_some.mp h
      exact Option.some.inj hrest
    | errMem =>
      obtain ⟨-, hrest⟩ := Option.ite_none_right_eq_some.mp h
      exact (List.append_nil _).trans (Option.some.inj hrest)
    | _ => cases h
  | fetch ulTimeOut =>
    cases a with
    | fetched msg ulReturn =>
      obtain ⟨hmsg, hrest⟩ := Option.ite_none_right_eq_some.mp h
      rw [← Option.some.inj hrest]
      exact (List.append_nil _).trans (hhead msg hmsg)
    | archTimeout =>
      obtain ⟨-, hrest⟩ := Option.ite_none_right_eq_some.mp h
      exact (List.append_nil _).trans (Option.some.inj hrest)
    | _ => cases h
  | tryfetch =>
    cases a with
    | tryfetched msg =>
      obtain ⟨hmsg, hrest⟩ := Option.ite_none_right_eq_some.mp h
      rw [← Option.some.inj hrest]
      exact (List.append_nil _).trans (hhead msg hmsg)
    | mboxEmpty =>
      obtain ⟨-, hrest⟩ := Option.ite_none_right_eq_some.mp h
      exact (List.append_nil _).trans (Option.some.inj hrest)
    | _ => cases h

/-- Posted are, in this order, the messages that have been fetched and those that are left. -/
lemma posted_eq_of_run {iSize : ℕ} (log : List (MboxCall × MboxAnswer)) :
    ∀ messages messages' : List MboxMessage, run (mboxStep iSize) messages log = some messages' →
      messages ++ log.filterMap postedMessage = log.filterMap fetchedMessage ++ messages' := by
  induction log with
  | nil =>
    intro messages messages' hrun
    cases hrun
    exact List.append_nil _
  | cons x log ih =>
    intro messages messages' hrun
    obtain ⟨between, hstep, hrest⟩ := (run_cons_some _).mp hrun
    have hx := mboxStep_some hstep
    have hlog := ih between messages' hrest
    have hcons : ∀ f : MboxCall × MboxAnswer → Option MboxMessage,
        (x :: log).filterMap f = (f x).toList ++ log.filterMap f := by
      intro f
      rw [List.filterMap_cons]
      cases f x <;> rfl
    calc messages ++ (x :: log).filterMap postedMessage
        = (messages ++ (postedMessage x).toList) ++ log.filterMap postedMessage := by
          rw [hcons, List.append_assoc]
      _ = (fetchedMessage x).toList ++ (between ++ log.filterMap postedMessage) := by
          rw [hx, List.append_assoc]
      _ = (x :: log).filterMap fetchedMessage ++ messages' := by
          rw [hlog, hcons, List.append_assoc]

namespace MboxCall

variable {portTickPeriodMs : BitVec 32} {m : MboxCall} {a : QueueAnswer 4}

/-- The one answer of the queue is enough: the call does not ask again, and it tells its caller what
the queue has told it. -/
lemma returns_exact (h : (m.queueCall portTickPeriodMs).Hears a) (xTicks : BitVec 32) :
    ∃ r, m.returns portTickPeriodMs xTicks a = some r ∧
      ∀ iSize messages, mboxStep iSize messages (m, r) = answerStep iSize messages a := by
  have hback : ∀ p : Prop, (p ∨ CopyPosition.sendToBack = .overwrite) = p := by
    intro p
    have hno : ¬CopyPosition.sendToBack = .overwrite := CopyPosition.noConfusion
    rw [eq_false hno, or_false]
  cases m with
  | post msg =>
    have hfits : a = .sent msg .sendToBack ∨ ∃ timedOut, a = .full timedOut := h.fits
    have hpatient : a.failed = false := h.patient rfl
    rcases hfits with ha | ⟨timedOut, ha⟩
    · rw [ha]
      refine ⟨.posted, rfl, fun iSize messages => ?_⟩
      simp only [mboxStep, answerStep, hback]
      rfl
    · rw [ha] at hpatient
      exact Bool.noConfusion hpatient
  | trypost msg =>
    have hfits : a = .sent msg .sendToBack ∨ ∃ timedOut, a = .full timedOut := h.fits
    have hquick : a ≠ .full true := h.quick rfl
    rcases hfits with ha | ⟨timedOut, ha⟩
    · rw [ha]
      refine ⟨.errOk, rfl, fun iSize messages => ?_⟩
      simp only [mboxStep, answerStep, hback]
      rfl
    · cases timedOut with
      | true => exact absurd ha hquick
      | false =>
        rw [ha]
        refine ⟨.errMem, rfl, fun iSize messages => ?_⟩
        simp only [mboxStep, answerStep, Bool.false_eq_true, false_or]
  | fetch ulTimeOut =>
    have hfits : (∃ msg, a = .received msg) ∨ a = .empty := h.fits
    rcases hfits with ⟨msg, ha⟩ | ha
    · rw [ha]
      exact ⟨_, rfl, fun iSize messages => rfl⟩
    · by_cases hzero : ulTimeOut = 0
      · have hpatient : a.failed = false := by
          apply h.patient
          rw [hzero]
          rfl
        rw [ha] at hpatient
        exact Bool.noConfusion hpatient
      · rw [ha]
        refine ⟨.archTimeout, if_pos hzero, fun iSize messages => ?_⟩
        simp only [mboxStep, answerStep, ne_eq, hzero, not_false_eq_true, true_and]
  | tryfetch =>
    have hfits : (∃ msg, a = .received msg) ∨ a = .empty := h.fits
    rcases hfits with ⟨msg, ha⟩ | ha
    · rw [ha]
      exact ⟨_, rfl, fun iSize messages => rfl⟩
    · rw [ha]
      exact ⟨.mboxEmpty, rfl, fun iSize messages => rfl⟩

end MboxCall

/-- The calls of `sys_arch.c` on a mailbox. -/
def mboxPort (portTickPeriodMs : BitVec 32) : QueuePort 4 where
  Call := MboxCall
  Answer := MboxAnswer
  queueCall := MboxCall.queueCall portTickPeriodMs
  returns xTicks m a := m.returns portTickPeriodMs xTicks a
  inIsr := MboxCall.inIsr
  not_overwrite := by
    intro m item hop
    cases m <;> cases hop
  fair := by
    intro m
    cases m with
    | post msg => exact .inr TicksToWait.noConfusion
    | trypost msg => exact .inr TicksToWait.noConfusion
    | fetch ulTimeOut => exact .inl rfl
    | tryfetch => exact .inl rfl
  isr_zero := by
    intro m hm
    cases m with
    | trypost msg => rfl
    | tryfetch => rfl
    | _ => cases hm
  returns_some := by
    intro xTicks m a h
    obtain ⟨r, hr, -⟩ := MboxCall.returns_exact h xTicks
    exact ⟨r, hr⟩

abbrev Mailbox (portTickPeriodMs : BitVec 32) (τ : Type) := PortSystem (mboxPort portTickPeriodMs) τ

namespace Mailbox

lemma simulates (portTickPeriodMs : BitVec 32) (iSize : ℕ) :
    PortSystem.Simulates (P := mboxPort portTickPeriodMs) iSize (mboxStep iSize) Eq := by
  rintro items items' _ m a xTicks r rfl hhears hr hstep
  obtain ⟨r', hr', hsame⟩ := MboxCall.returns_exact hhears xTicks
  obtain rfl : r' = r := Option.some.inj (hr'.symm.trans hr)
  exact ⟨items', (hsame iSize items).trans hstep, rfl⟩

section

variable {τ : Type} [DecidableEq τ] [Fintype τ] {priority : τ → ℕ} {portTickPeriodMs : BitVec 32}
  {iSize : ℕ} {s : Mailbox portTickPeriodMs τ}

/-- However the tasks and interrupts that use a mailbox come between each other, it is a list of at
most `iSize` messages to them: what is fetched was posted, each message once and in the order of the
posts, the mailbox is full or empty when a call says so, and every call has asked the queue exactly
once, so that the loops of `sys_mbox_post` and `sys_arch_mbox_fetch` never go round. -/
theorem mailbox_of_a_list (h : s.Reached priority iSize) :
    run (mboxStep iSize) [] (s.log.map Prod.snd) = some s.queue.queue.contents ∧
      s.queue.queue.contents.length ≤ iSize ∧
      (s.log.map Prod.snd).filterMap postedMessage =
        (s.log.map Prod.snd).filterMap fetchedMessage ++ s.queue.queue.contents ∧
      s.log.length = s.queue.log.length := by
  obtain ⟨messages, hrun, hcontents⟩ := h.simulates (simulates portTickPeriodMs iSize) rfl
  rw [← hcontents] at hrun
  have hle := h.linked.queue.sound.explained.length_le
  exact ⟨hrun, hle, posted_eq_of_run _ _ _ hrun, h.length_log⟩

lemma waiting_call {x : QueueCall 4 × QueueLabel} {m : MboxCall}
    (hcontinues : (m.queueCall portTickPeriodMs).Continues x) (hparks : x.2.parks = true) :
    (∃ msg, m = .post msg) ∨ ∃ ulTimeOut, m = .fetch ulTimeOut := by
  have hattempt : (m.queueCall portTickPeriodMs).ticks ≠ .zero := by
    intro hzero
    rw [(hcontinues.quick hzero).2] at hparks
    cases hparks
  cases m with
  | post msg => exact .inl ⟨msg, rfl⟩
  | trypost msg => exact absurd rfl hattempt
  | fetch ulTimeOut => exact .inr ⟨ulTimeOut, rfl⟩
  | tryfetch => exact absurd rfl hattempt

/-- No task is left waiting at a mailbox: when no call can go on any more, every one under way is a
post at the full mailbox or a fetch at the empty one, so that there are not both. -/
theorem waits_at_full_or_empty (h : s.Reached priority iSize) (hcard : Fintype.card τ ≤ 127)
    (hstuck : ∀ t expired xTickCount, s.step priority (.run t expired xTickCount) = none) :
    ∀ t, ∀ y ∈ s.calls t,
      (∃ msg, y.1 = MboxCall.post msg) ∧ s.queue.queue.contents.length = iSize ∨
      (∃ ulTimeOut, y.1 = MboxCall.fetch ulTimeOut) ∧ s.queue.queue.contents = [] := by
  intro t y hy
  have hlinked := h.linked
  obtain ⟨hsound, hwatched, hhalted⟩ := hlinked.queue.watched hcard
  obtain ⟨hnone, hwaits⟩ := hwatched.stuck hhalted (hlinked.stuck hstuck)
  obtain ⟨x, hx, hcontinues⟩ := hlinked.queueCall_of hy
  have hmem : t ∈ s.queue.waiting x.1.op.side := hwaits t x hx
  have hparks : x.2.parks = true := (hwatched.parks_of_mem hmem hx).2
  have hamount : s.queue.amount x.1.op.side = 0 :=
    hwatched.amount_eq_zero (List.ne_nil_of_mem hmem) hnone hwaits
  rw [hcontinues.op] at hamount
  have hle := hsound.explained.length_le
  have hlength := hsound.explained.length
  rcases waiting_call hcontinues hparks with ⟨msg, hm⟩ | ⟨ulTimeOut, hm⟩
  · refine .inl ⟨⟨msg, hm⟩, ?_⟩
    rw [hm] at hamount
    have hroom : s.queue.queue.uxLength - s.queue.queue.uxMessagesWaiting = 0 := hamount
    rw [Queue.length_contents] at hle ⊢
    omega
  · refine .inr ⟨⟨ulTimeOut, hm⟩, ?_⟩
    rw [hm] at hamount
    apply List.eq_nil_of_length_eq_zero
    rw [Queue.length_contents]
    exact hamount

end

/-- A task fetches from an empty mailbox without a time limit. When it waits, an interrupt posts. -/
def fetchThenPost (msg : MboxMessage) : List (PortEvent (mboxPort 10) Bool) :=
  .call false (.fetch 0) 5 :: List.replicate 9 (.run false false 6) ++
    .isr (.trypost msg) :: List.replicate 2 (.run false false 9)

/-- The task gets the message, four ticks of 10 ms after it has asked. -/
theorem mailbox_of_a_list_when_waiting : ∃ (s : Mailbox 10 Bool) (msg : MboxMessage),
    s.log = [(none, .trypost fun _ => 7, .errOk), (some false, .fetch 0, .fetched msg 40)] ∧
      [fun _ => 7] = [msg] ++ s.queue.queue.contents ∧ s.queue.log.length = 2 := by
  have hrun : ∃ (s : Mailbox 10 Bool) (msg : MboxMessage),
      Runs.run (PortSystem.step fun _ => 0) (PortSystem.create 1 fun _ => 0)
        (fetchThenPost fun _ => 7) = some s ∧
      s.log = [(none, .trypost fun _ => 7, .errOk), (some false, .fetch 0, .fetched msg 40)] :=
    ⟨_, _, rfl, rfl⟩
  obtain ⟨s, msg, hs, hlog⟩ := hrun
  have hreached : s.Reached (fun _ => 0) 1 := ⟨by decide, _, fetchThenPost fun _ => 7, hs⟩
  obtain ⟨-, -, hposted, hlength⟩ := mailbox_of_a_list hreached
  rw [hlog] at hposted hlength
  exact ⟨s, msg, hlog, hposted, hlength.symm⟩

/-- One of two tasks fetches without a time limit, and nothing is posted. -/
def fetchAlone : List (PortEvent (mboxPort 10) Bool) :=
  .call false (.fetch 0) 5 :: List.replicate 9 (.run false false 6)

/-- It waits at the empty mailbox. -/
theorem waits_at_full_or_empty_alone : ∃ s : Mailbox 10 Bool,
    s.calls false = some (.fetch 0, 5) ∧ s.queue.queue.contents = [] := by
  have hrun : ∃ s : Mailbox 10 Bool,
      Runs.run (PortSystem.step fun _ => 0) (PortSystem.create 1 fun _ => 0) fetchAlone = some s ∧
      s.calls false = some (.fetch 0, 5) ∧
      ∀ t expired xTickCount, s.step (fun _ => 0) (.run t expired xTickCount) = none := by
    refine ⟨_, rfl, rfl, ?_⟩
    intro t expired xTickCount
    cases t <;> rfl
  obtain ⟨s, hs, hcall, hstuck⟩ := hrun
  have hreached : s.Reached (fun _ => 0) 1 := ⟨by decide, _, fetchAlone, hs⟩
  rcases waits_at_full_or_empty hreached (by decide) hstuck false (.fetch 0, 5) hcall with
    ⟨⟨msg, hpost⟩, -⟩ | ⟨-, hempty⟩
  · cases hpost
  · exact ⟨s, hcall, hempty⟩

end Mailbox

end FrameworkXC32
