import FrameworkXC32.Kernel.QueueHistory
import Mathlib.Data.List.Forall2

/-!
# Layers over a queue

The functions of a port are made of calls on one queue: they ask it, some of them again and again,
and tell their callers what follows from its answer.
-/

namespace FrameworkXC32
open Runs

def portMaxDelay : BitVec 32 := 0xffffffff

def TicksToWait.ofTicks (xTicksToWait : BitVec 32) : TicksToWait :=
  if xTicksToWait = 0 then .zero else if xTicksToWait = portMaxDelay then .maxDelay else .counted

namespace QueueCall

variable {uxItemSize : ℕ}

/-- An answer that the call can get. -/
structure Hears (c : QueueCall uxItemSize) (a : QueueAnswer uxItemSize) : Prop where
  fits : c.op.Fits a
  patient : c.ticks = .maxDelay → a.failed = false
  quick : c.ticks = .zero → a ≠ .full true

/-- What the call can have become on its way. -/
structure Continues (c : QueueCall uxItemSize) (x : QueueCall uxItemSize × QueueLabel) : Prop where
  op : x.1.op = c.op
  patient : c.ticks = .maxDelay → x.1.ticks = .maxDelay ∧ x.2.patient = true
  quick : c.ticks = .zero → x.1.ticks = .zero ∧ x.2 = .attempt

lemma continues_attempt (c : QueueCall uxItemSize) : c.Continues (c, .attempt) where
  op := rfl
  patient := fun h => ⟨h, rfl⟩
  quick := fun h => ⟨h, rfl⟩

/-- A call that sends is never out of time, if it waits without an end or not at all. -/
lemma Continues.fair {c : QueueCall uxItemSize} {x : QueueCall uxItemSize × QueueLabel}
    (h : c.Continues x) (hc : c.op.side = .toReceive ∨ c.ticks ≠ .counted) :
    x.2.patient = true ∨ x.1.op.side = .toReceive := by
  rw [h.op]
  cases hticks : c.ticks with
  | zero =>
    rw [(h.quick hticks).2]
    exact .inl rfl
  | counted => exact .inr (hc.resolve_right fun hne => hne hticks)
  | maxDelay => exact .inl (h.patient hticks).2

end QueueCall

/-- Functions that use a queue: what they ask of it, and what they return on its answer, `none` when
they ask again; the ticks that have passed may be part of it. Some of them also interrupts call. -/
structure QueuePort (uxItemSize : ℕ) where
  Call : Type
  Answer : Type
  queueCall : Call → QueueCall uxItemSize
  returns : BitVec 32 → Call → QueueAnswer uxItemSize → Option Answer
  inIsr : Call → Bool
  not_overwrite : ∀ m item, (queueCall m).op ≠ .send item .overwrite
  fair : ∀ m, (queueCall m).op.side = .toReceive ∨ (queueCall m).ticks ≠ .counted
  isr_zero : ∀ m, inIsr m = true → (queueCall m).ticks = .zero
  -- one answer is enough
  returns_some : ∀ xElapsed m a, (queueCall m).Hears a → ∃ r, returns xElapsed m a = some r

namespace QueuePort

variable {uxItemSize : ℕ} (P : QueuePort uxItemSize) (capacity : ℕ)

lemma allowed (m : P.Call) : (P.queueCall m).op.Allowed capacity := by
  cases hop : (P.queueCall m).op with
  | send item pos =>
    intro hpos
    rw [hpos] at hop
    exact absurd hop (P.not_overwrite m item)
  | receive => trivial
  | peek => trivial

end QueuePort

/-- The queue with the calls of the port: each call under way with the ticks at its start, and the
answers so far. -/
structure PortSystem {uxItemSize : ℕ} (P : QueuePort uxItemSize) (τ : Type) where
  queue : QueueSystem τ uxItemSize
  calls : τ → Option (P.Call × BitVec 32)
  log : List (Option τ × P.Call × P.Answer)

inductive PortEvent {uxItemSize : ℕ} (P : QueuePort uxItemSize) (τ : Type)
  | call (t : τ) (m : P.Call) (xTickCount : BitVec 32)
  | run (t : τ) (expired : Bool) (xTickCount : BitVec 32)
  | timeOut (t : τ)
  -- an interrupt that has set `xInsideISR`
  | isr (m : P.Call)

namespace QueueSystem

variable {τ : Type} {uxItemSize : ℕ}

/-- The call of the queue with `FromISR`. -/
def fromIsr : QueueOp uxItemSize → Option (QueueEvent τ uxItemSize)
  | .send item pos => some (.sendFromIsr item pos)
  | .receive => some .receiveFromIsr
  | .peek => none

lemma allowed_fromIsr {capacity : ℕ} {op : QueueOp uxItemSize} (h : op.Allowed capacity)
    {e : QueueEvent τ uxItemSize} (he : fromIsr op = some e) : e.Allowed capacity := by
  cases op with
  | send item pos =>
    cases he
    exact h
  | receive =>
    cases he
    trivial
  | peek => cases he

/-- The answer of the queue to the task, once there is one. -/
def returned (t : τ) (q : QueueSystem τ uxItemSize) : Option (QueueAnswer uxItemSize) :=
  match q.calls t with
  | some _ => none
  | none => q.log.getLast?.map Prod.snd

end QueueSystem

namespace PortSystem

variable {uxItemSize : ℕ} {P : QueuePort uxItemSize} {τ : Type}

def create (uxLength : ℕ) (storage : ℕ → Machine.Byte) : PortSystem P τ where
  queue := QueueSystem.create uxLength storage
  calls _ := none
  log := []

def afterIsr (m : P.Call) (s : PortSystem P τ) (q : QueueSystem τ uxItemSize) : PortSystem P τ :=
  match q.log.getLast?.bind fun x => P.returns 0 m x.2 with
  | some r => { s with queue := q, log := s.log ++ [(none, m, r)] }
  | none => { s with queue := q }

variable [DecidableEq τ] [Fintype τ]

/-- The task goes on with its call, if the queue has answered. -/
def resume (priority : τ → ℕ) (t : τ) (xTickCount : BitVec 32) (s : PortSystem P τ)
    (q : QueueSystem τ uxItemSize) : Option (PortSystem P τ) :=
  match s.calls t, q.returned t with
  | some (m, xStartTime), some a =>
    match P.returns (xTickCount - xStartTime) m a with
    | some r =>
      some { queue := q, calls := Function.update s.calls t none, log := s.log ++ [(some t, m, r)] }
    | none => (q.step priority (.call t (P.queueCall m))).map fun q' => { s with queue := q' }
  | _, _ => some { s with queue := q }

def step (priority : τ → ℕ) (s : PortSystem P τ) : PortEvent P τ → Option (PortSystem P τ)
  | .call t m xTickCount =>
    (s.queue.step priority (.call t (P.queueCall m))).map fun q =>
      { s with queue := q, calls := Function.update s.calls t (some (m, xTickCount)) }
  | .run t expired xTickCount =>
    (s.queue.step priority (.run t expired)).bind (s.resume priority t xTickCount)
  | .timeOut t => (s.queue.step priority (.timeOut t)).map fun q => { s with queue := q }
  | .isr m =>
    if P.inIsr m then
      (QueueSystem.fromIsr (P.queueCall m).op).bind fun e =>
        (s.queue.step priority e).map (s.afterIsr m)
    else none

end PortSystem

namespace QueueSystem

variable {τ : Type} [DecidableEq τ] [Fintype τ] {uxItemSize capacity : ℕ} {priority : τ → ℕ}
  {s s' : QueueSystem τ uxItemSize}

lemma Reached.step {e : QueueEvent τ uxItemSize} (h : s.Reached priority capacity)
    (hstep : s.step priority e = some s') (he : e.Allowed capacity) :
    s'.Reached priority capacity := by
  obtain ⟨hcapacity, storage, events, hallowed, hrun⟩ := h
  refine ⟨hcapacity, storage, events ++ [e], ?_, ?_⟩
  · intro e' he'
    rcases List.mem_append.mp he' with hmem | hmem
    · exact hallowed e' hmem
    · rw [List.mem_singleton.mp hmem]
      exact he
  · exact (run_append_some _).mpr ⟨s, hrun, (run_cons_some _).mpr ⟨s', hstep, rfl⟩⟩

end QueueSystem

namespace PortSystem

variable {uxItemSize capacity : ℕ} {P : QueuePort uxItemSize} {τ : Type} [DecidableEq τ] [Fintype τ]
  {priority : τ → ℕ} {s s' : PortSystem P τ}

/-- An answer of the port, and the answer of the queue that stands behind it. -/
structure Answers (x : Option τ × P.Call × P.Answer) (y : Option τ × QueueAnswer uxItemSize) :
    Prop where
  who : x.1 = y.1
  hears : (P.queueCall x.2.1).Hears y.2
  returns : ∃ xElapsed, P.returns xElapsed x.2.1 y.2 = some x.2.2

/-- The queue works for the calls of the port, and its answers are theirs. -/
structure Linked (priority : τ → ℕ) (capacity : ℕ) (s : PortSystem P τ) : Prop where
  queue : s.queue.Reached priority capacity
  calls : ∀ t, Option.Rel (fun y x => (P.queueCall y.1).Continues x) (s.calls t) (s.queue.calls t)
  answers : List.Forall₂ Answers s.log s.queue.log

lemma linked_create (hcapacity : 0 < capacity) (storage : ℕ → Machine.Byte) :
    (create capacity storage : PortSystem P τ).Linked priority capacity where
  queue := ⟨hcapacity, storage, [], by simp, rfl⟩
  calls := fun _ => .none
  answers := .nil

section Calls

variable {t : τ}

lemma Linked.call_of (h : s.Linked priority capacity) {x : QueueCall uxItemSize × QueueLabel}
    (hx : s.queue.calls t = some x) :
    ∃ m xStartTime, s.calls t = some (m, xStartTime) ∧ (P.queueCall m).Continues x := by
  have hrel := h.calls t
  rw [hx] at hrel
  cases hcall : s.calls t with
  | none =>
    rw [hcall] at hrel
    cases hrel
  | some y =>
    rw [hcall] at hrel
    cases hrel with
    | some hcontinues => exact ⟨y.1, y.2, rfl, hcontinues⟩

lemma Linked.queueCall_of (h : s.Linked priority capacity) {y : P.Call × BitVec 32}
    (hy : s.calls t = some y) :
    ∃ x, s.queue.calls t = some x ∧ (P.queueCall y.1).Continues x := by
  have hrel := h.calls t
  rw [hy] at hrel
  cases hcall : s.queue.calls t with
  | none =>
    rw [hcall] at hrel
    cases hrel
  | some x =>
    rw [hcall] at hrel
    cases hrel with
    | some hcontinues => exact ⟨x, rfl, hcontinues⟩

lemma Linked.rel_update (h : s.Linked priority capacity) {q : QueueSystem τ uxItemSize}
    {calls : τ → Option (P.Call × BitVec 32)} {y : Option (P.Call × BitVec 32)}
    {x : Option (QueueCall uxItemSize × QueueLabel)}
    (hcalls : calls = Function.update s.calls t y)
    (hqueue : q.calls = Function.update s.queue.calls t x)
    (hxy : Option.Rel (fun y x => (P.queueCall y.1).Continues x) y x) (u : τ) :
    Option.Rel (fun y x => (P.queueCall y.1).Continues x) (calls u) (q.calls u) := by
  rw [hcalls, hqueue]
  by_cases hu : u = t
  · rw [hu, Function.update_self, Function.update_self]
    exact hxy
  · rw [Function.update_of_ne hu, Function.update_of_ne hu]
    exact h.calls u

end Calls

lemma Linked.answered (h : s.Linked priority capacity)
    (hqueue : s'.queue.Reached priority capacity)
    (hcalls : ∀ t, Option.Rel (fun y x => (P.queueCall y.1).Continues x) (s'.calls t)
      (s'.queue.calls t))
    {x : Option τ × P.Call × P.Answer} {y : Option τ × QueueAnswer uxItemSize}
    (hlog : s'.log = s.log ++ [x]) (hqueueLog : s'.queue.log = s.queue.log ++ [y])
    (hxy : Answers x y) : s'.Linked priority capacity := by
  refine ⟨hqueue, hcalls, ?_⟩
  rw [hlog, hqueueLog]
  exact List.rel_append h.answers (.cons hxy .nil)

/-! ### Steps -/

lemma Linked.call (h : s.Linked priority capacity) {t : τ} {m : P.Call}
    {q : QueueSystem τ uxItemSize} (xTickCount : BitVec 32)
    (hq : s.queue.step priority (.call t (P.queueCall m)) = some q) :
    Linked priority capacity
      { s with queue := q, calls := Function.update s.calls t (some (m, xTickCount)) } := by
  obtain ⟨-, -, hmoved⟩ := QueueSystem.step_call hq
  have hlog : q.log = s.queue.log := by rw [hmoved]; rfl
  have hcalls : q.calls =
      Function.update s.queue.calls t (some (P.queueCall m, .attempt)) := by
    rw [hmoved]
    rfl
  refine ⟨h.queue.step hq (P.allowed capacity m), ?_, ?_⟩
  · exact h.rel_update rfl hcalls (.some (QueueCall.continues_attempt _))
  · change List.Forall₂ Answers s.log q.log
    rw [hlog]
    exact h.answers

lemma Linked.goesOn (h : s.Linked priority capacity) {t : τ} {q : QueueSystem τ uxItemSize}
    {c c' : QueueCall uxItemSize} {l l' : QueueLabel} (hreached : q.Reached priority capacity)
    (hcall : s.queue.calls t = some (c, l))
    (hcalls : q.calls = Function.update s.queue.calls t (some (c', l')))
    (hlog : q.log = s.queue.log) (hop : c'.op = c.op)
    (hpatient : c.ticks = .maxDelay → l.patient = true → c'.ticks = .maxDelay ∧ l'.patient = true)
    (hquick : l = .attempt → c.ticks ≠ .zero) :
    Linked priority capacity { s with queue := q } := by
  obtain ⟨m, xStartTime, hm, hcontinues⟩ := h.call_of hcall
  have hsame : s.calls = Function.update s.calls t (some (m, xStartTime)) := by
    rw [← hm, Function.update_eq_self]
  refine ⟨hreached, h.rel_update hsame hcalls (.some ?_), ?_⟩
  · constructor
    · exact hop.trans hcontinues.op
    · intro hmax
      obtain ⟨hticks, hl⟩ := hcontinues.patient hmax
      exact hpatient hticks hl
    · intro hzero
      obtain ⟨hticks, hl⟩ := hcontinues.quick hzero
      exact absurd hticks (hquick hl)
  · change List.Forall₂ Answers s.log q.log
    rw [hlog]
    exact h.answers

lemma Linked.resume (h : s.Linked priority capacity) {t : τ} {expired : Bool}
    {q : QueueSystem τ uxItemSize} (hq : s.queue.step priority (.run t expired) = some q)
    (xTickCount : BitVec 32) :
    ∃ s', s.resume priority t xTickCount q = some s' ∧ s'.Linked priority capacity := by
  have hreached : q.Reached priority capacity := h.queue.step hq trivial
  obtain ⟨c, l, hcall, -, hexec⟩ := QueueSystem.step_run hq
  obtain ⟨m, xStartTime, hm, hcontinues⟩ := h.call_of hcall
  unfold PortSystem.resume
  rw [hm]
  cases QueueSystem.outcome_exec hexec with
  | goesOn c' l' hcalls hlog hhalted hop hpatient hquick =>
    have hnone : q.returned t = none := by
      unfold QueueSystem.returned
      rw [hcalls, Function.update_self]
    rw [hnone]
    exact ⟨_, rfl, h.goesOn hreached hcall hcalls hlog hop hpatient hquick⟩
  | ends a hcalls hlog hhalted hfits hpatient hquick =>
    have hsome : q.returned t = some a := by
      unfold QueueSystem.returned
      rw [hcalls, Function.update_self, hlog, List.getLast?_concat]
      rfl
    have hhears : (P.queueCall m).Hears a := by
      constructor
      · rw [← hcontinues.op]
        exact hfits (hcontinues.fair (P.fair m))
      · intro hmax
        obtain ⟨hticks, hl⟩ := hcontinues.patient hmax
        exact hpatient hticks hl
      · intro hzero
        exact hquick (hcontinues.quick hzero).2
    obtain ⟨r, hr⟩ := P.returns_some (xTickCount - xStartTime) m a hhears
    rw [hsome]
    dsimp only
    rw [hr]
    refine ⟨_, rfl, h.answered hreached ?_ rfl hlog ⟨rfl, hhears, _, hr⟩⟩
    exact h.rel_update rfl hcalls .none

lemma isr_answer {q q' : QueueSystem τ uxItemSize} {m : P.Call} {e : QueueEvent τ uxItemSize}
    (hm : P.inIsr m = true) (he : QueueSystem.fromIsr (P.queueCall m).op = some e)
    (hstep : q.step priority e = some q') :
    q'.calls = q.calls ∧ ∃ a, q'.log = q.log ++ [(none, a)] ∧ (P.queueCall m).Hears a := by
  have hpatient : ∀ a : QueueAnswer uxItemSize,
      (P.queueCall m).ticks = .maxDelay → a.failed = false := by
    intro a hmax
    rw [P.isr_zero m hm] at hmax
    cases hmax
  cases hop : (P.queueCall m).op with
  | send item pos =>
    rw [hop] at he
    cases he
    rw [QueueSystem.step_sendFromIsr hstep]
    refine ⟨QueueSystem.calls_sendFromIsr _ item pos q, ?_⟩
    rcases q.log_sendFromIsr (Fintype.card τ) item pos with hlog | hlog
    · refine ⟨_, hlog, ?_, hpatient _, by simp⟩
      rw [hop]
      exact .inl rfl
    · refine ⟨_, hlog, ?_, hpatient _, by simp⟩
      rw [hop]
      exact .inr ⟨false, rfl⟩
  | receive =>
    rw [hop] at he
    cases he
    rw [QueueSystem.step_receiveFromIsr hstep]
    refine ⟨QueueSystem.calls_receiveFromIsr _ q, ?_⟩
    rcases q.log_receiveFromIsr (Fintype.card τ) with ⟨item, hlog⟩ | hlog
    · refine ⟨_, hlog, ?_, hpatient _, by simp⟩
      rw [hop]
      exact .inl ⟨item, rfl⟩
    · refine ⟨_, hlog, ?_, hpatient _, by simp⟩
      rw [hop]
      exact .inr rfl
  | peek =>
    rw [hop] at he
    cases he

lemma Linked.isr (h : s.Linked priority capacity) {q : QueueSystem τ uxItemSize} {m : P.Call}
    {e : QueueEvent τ uxItemSize} (hm : P.inIsr m = true)
    (he : QueueSystem.fromIsr (P.queueCall m).op = some e)
    (hq : s.queue.step priority e = some q) : (s.afterIsr m q).Linked priority capacity := by
  have hreached : q.Reached priority capacity := 
    h.queue.step hq (QueueSystem.allowed_fromIsr (P.allowed capacity m) he)
  obtain ⟨hcalls, a, hlog, hhears⟩ := isr_answer hm he hq
  obtain ⟨r, hr⟩ := P.returns_some 0 m a hhears
  have hafter : s.afterIsr m q = { s with queue := q, log := s.log ++ [(none, m, r)] } := by
    unfold afterIsr
    rw [hlog, List.getLast?_concat, Option.bind_some, hr]
  rw [hafter]
  refine h.answered hreached ?_ rfl hlog ⟨rfl, hhears, 0, hr⟩
  intro u
  change Option.Rel _ (s.calls u) (q.calls u)
  rw [hcalls]
  exact h.calls u

lemma Linked.step (h : s.Linked priority capacity) {e : PortEvent P τ}
    (hstep : s.step priority e = some s') : s'.Linked priority capacity := by
  unfold PortSystem.step at hstep
  cases e with
  | call t m xTickCount =>
    obtain ⟨q, hq, hs'⟩ := Option.map_eq_some_iff.mp hstep
    rw [← hs']
    exact h.call xTickCount hq
  | run t expired xTickCount =>
    obtain ⟨q, hq, hs'⟩ := Option.bind_eq_some_iff.mp hstep
    obtain ⟨s₁, hs₁, hlinked⟩ := h.resume hq xTickCount
    rwa [Option.some.inj (hs₁.symm.trans hs')] at hlinked
  | timeOut t =>
    obtain ⟨q, hq, hs'⟩ := Option.map_eq_some_iff.mp hstep
    have hreached : q.Reached priority capacity := h.queue.step hq trivial
    obtain ⟨side, rfl⟩ := QueueSystem.step_timeOut hq
    rw [← hs']
    exact ⟨hreached, h.calls, h.answers⟩
  | isr m =>
    dsimp only at hstep
    split_ifs at hstep with hm
    obtain ⟨e, he, hstep⟩ := Option.bind_eq_some_iff.mp hstep
    obtain ⟨q, hq, hs'⟩ := Option.map_eq_some_iff.mp hstep
    rw [← hs']
    exact h.isr hm he hq

/-- A run from a new queue. -/
structure Reached (priority : τ → ℕ) (capacity : ℕ) (s : PortSystem P τ) : Prop where
  capacity_pos : 0 < capacity
  run : ∃ storage events,
    Runs.run (PortSystem.step priority) (create capacity storage) events = some s

lemma Reached.linked (h : s.Reached priority capacity) : s.Linked priority capacity := by
  obtain ⟨hcapacity, storage, events, hrun⟩ := h
  exact run_invariant_all (fun _ _ _ hs hstep => hs.step hstep) (linked_create hcapacity storage)
    hrun

/-- The loops of the port never go round. -/
lemma Reached.length_log (h : s.Reached priority capacity) :
    s.log.length = s.queue.log.length := h.linked.answers.length_eq

lemma Linked.stuck (h : s.Linked priority capacity)
    (hstuck : ∀ t expired xTickCount, s.step priority (.run t expired xTickCount) = none)
    (t : τ) (expired : Bool) : s.queue.step priority (.run t expired) = none := by
  cases hq : s.queue.step priority (.run t expired) with
  | none => rfl
  | some q =>
    obtain ⟨s', hs', -⟩ := h.resume hq 0
    have hnone := hstuck t expired 0
    unfold PortSystem.step at hnone
    dsimp only at hnone
    rw [hq, Option.bind_some, hs'] at hnone
    cases hnone

/-! ### What the callers see -/

section Specification

variable {σ : Type} {spec : σ → P.Call × P.Answer → Option σ}
  {R : List (QueueItem uxItemSize) → σ → Prop}

/-- The specification can answer as the port does, while the queue answers as a list. -/
def Simulates (capacity : ℕ) (spec : σ → P.Call × P.Answer → Option σ)
    (R : List (QueueItem uxItemSize) → σ → Prop) : Prop :=
  ∀ items items' v m a xElapsed r, R items v → (P.queueCall m).Hears a →
    P.returns xElapsed m a = some r → answerStep capacity items a = some items' →
    ∃ v', spec v (m, r) = some v' ∧ R items' v'

omit [DecidableEq τ] [Fintype τ] in
lemma run_simulates (hsim : Simulates capacity spec R)
    {log : List (Option τ × P.Call × P.Answer)}
    {queueLog : List (Option τ × QueueAnswer uxItemSize)}
    (hlogs : List.Forall₂ Answers log queueLog) : ∀ items items' v, R items v →
      Runs.run (answerStep capacity) items (queueLog.map Prod.snd) = some items' →
      ∃ v', Runs.run spec v (log.map Prod.snd) = some v' ∧ R items' v' := by
  induction hlogs with
  | nil =>
    intro items items' v hR hrun
    cases hrun
    exact ⟨v, rfl, hR⟩
  | cons hxy hlogs ih =>
    intro items items' v hR hrun
    obtain ⟨between, hstep, hrest⟩ := (run_cons_some _).mp hrun
    obtain ⟨xElapsed, hreturns⟩ := hxy.returns
    obtain ⟨v₁, hv₁, hR₁⟩ := hsim items between v _ _ xElapsed _ hR hxy.hears hreturns hstep
    obtain ⟨v', hv', hR'⟩ := ih between items' v₁ hR₁ hrest
    exact ⟨v', (run_cons_some _).mpr ⟨v₁, hv₁, hv'⟩, hR'⟩

lemma Reached.simulates (h : s.Reached priority capacity) (hsim : Simulates capacity spec R)
    {v : σ} (hinit : R [] v) :
    ∃ v', Runs.run spec v (s.log.map Prod.snd) = some v' ∧ R s.queue.queue.contents v' :=
  run_simulates hsim h.linked.answers [] _ v hinit h.linked.queue.sound.explained.history

end Specification

end PortSystem

end FrameworkXC32
