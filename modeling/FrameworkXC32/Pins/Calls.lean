import FrameworkXC32.Pins.Model

/-!
# What a call changes

The counters, the interrupts, the polarity bits and the tables after each call. The registers of
the ports, which no function here reads back, stay open.
-/

namespace FrameworkXC32
open Machine

lemma Eint.irq_lt (e : Eint) : e.irq < irqChangeNoticeA := by
  have h := e.external
  simp only [irqExternal0, List.mem_cons, List.not_mem_nil, or_false] at h
  unfold irqChangeNoticeA
  omega

lemma Eint.irq_eq (e : Eint) : e.irq = irqExternal0 + 5 * e.id := by
  have h := e.external
  unfold Eint.id
  simp only [irqExternal0, List.mem_cons, List.not_mem_nil, or_false] at h ⊢
  omega

lemma Eint.id_lt (e : Eint) : e.id < 32 := by
  have hlt := e.irq_lt
  have heq := e.irq_eq
  unfold irqChangeNoticeA at hlt
  unfold irqExternal0 at heq
  omega

namespace Pins

variable {κ : Type} {board : Board} {pin : ℕ} {p : Pin}

lemma pinMode_eq (board : Board) (pin : ℕ) (mode : Word) (s : Pins κ) :
    ∃ reg, s.pinMode board pin mode = { s with reg := reg } := by
  unfold pinMode
  cases board.pins[pin]? with
  | none => exact ⟨_, rfl⟩
  | some p =>
    dsimp only
    split_ifs <;> exact ⟨_, rfl⟩

lemma attachExternal_eq (board : Board) (e : ℕ) (mode : Word) (s : Pins κ) :
    ∃ cpu, s.attachExternal board e mode = {
      reg := s.reg
      irq := s.irq.priority (board.eint e).irq (board.eint e).pri (board.eint e).sub
      intcon := s.intcon |||
        (if Mode.has mode Mode.rising then 1 else 0 : Word) <<< (board.eint e).id
      cnCounter := s.cnCounter
      eintMode := Function.update s.eintMode e mode
      callback := s.callback
      cpu := cpu } := by
  unfold attachExternal
  cases h : (board.eint e).rpin <;> simp only [h] <;> exact ⟨_, rfl⟩

lemma attachNotice_eq (board : Board) (p : Pin) (mode : Word) (s : Pins κ) :
    ∃ reg, s.attachNotice board p mode = {
      reg := reg
      irq := s.irq.priority (irqChangeNoticeA + p.gpio) (board.cnPriority p.gpio).1
        (board.cnPriority p.gpio).2
      intcon := s.intcon
      cnCounter := Function.update s.cnCounter p.gpio (s.cnCounter p.gpio + 1)
      eintMode := s.eintMode
      callback := s.callback
      cpu := s.cpu } := by
  unfold attachNotice
  dsimp only
  split_ifs <;> exact ⟨_, rfl⟩

/-- The interrupts after `detachInterrupt`: the change notices of the port go off when the counter
reaches zero, the external interrupt of the pin always. -/
def detachIrq (board : Board) (p : Pin) (s : Pins κ) : Irq :=
  let r := if s.cnCounter p.gpio - 1 = 0 then s.irq.disable (irqChangeNoticeA + p.gpio) else s.irq
  match p.eint with
  | some e => r.disable (board.eint e).irq
  | none => r

lemma detachInterrupt_eq (hp : board.pins[pin]? = some p) (s : Pins κ) :
    ∃ reg, s.detachInterrupt board pin = {
      reg := reg
      irq := s.detachIrq board p
      intcon := s.intcon
      cnCounter := Function.update s.cnCounter p.gpio (s.cnCounter p.gpio - 1)
      eintMode := s.eintMode
      callback := Function.update s.callback pin none
      cpu := s.cpu } := by
  have hcounter : ∀ t : Pins κ, (t.setCounter p.gpio (t.cnCounter p.gpio - 1)).cnCounter p.gpio =
      t.cnCounter p.gpio - 1 := fun t => Function.update_self _ _ _
  unfold detachInterrupt detachIrq
  rw [hp]
  dsimp only
  rw [hcounter]
  have hkept : ∀ mask, (s.regClr p.gpio .cnen mask).cnCounter = s.cnCounter := fun _ => rfl
  rw [hkept]
  cases he : p.eint <;> split_ifs <;> exact ⟨_, rfl⟩

lemma isEnabled_detachIrq_notice (board : Board) (p : Pin) (s : Pins κ) (port : Gpio) :
    (s.detachIrq board p).isEnabled (irqChangeNoticeA + port) =
      if p.gpio = port ∧ s.cnCounter p.gpio - 1 = 0 then false
      else s.irq.isEnabled (irqChangeNoticeA + port) := by
  have hport : irqChangeNoticeA + (port : ℕ) = irqChangeNoticeA + p.gpio ↔ p.gpio = port := by
    rw [Nat.add_left_cancel_iff, ← Fin.ext_iff]
    exact eq_comm
  have hcn : (if s.cnCounter p.gpio - 1 = 0 then s.irq.disable (irqChangeNoticeA + p.gpio)
      else s.irq).isEnabled (irqChangeNoticeA + port) =
      if p.gpio = port ∧ s.cnCounter p.gpio - 1 = 0 then false
      else s.irq.isEnabled (irqChangeNoticeA + port) := by
    by_cases hzero : s.cnCounter p.gpio - 1 = 0
    · rw [if_pos hzero, Irq.isEnabled_disable]
      simp only [hport, hzero, and_true]
    · rw [if_neg hzero, if_neg (fun h => hzero h.2)]
  unfold detachIrq
  cases p.eint with
  | none => exact hcn
  | some e =>
    have hne : irqChangeNoticeA + (port : ℕ) ≠ (board.eint e).irq := by
      have hlt := (board.eint e).irq_lt
      omega
    dsimp only
    rw [Irq.isEnabled_disable, if_neg hne]
    exact hcn

lemma isEnabled_detachIrq_external (board : Board) (p : Pin) (s : Pins κ) (e : Eint) :
    (s.detachIrq board p).isEnabled e.irq =
      if ∃ e', p.eint = some e' ∧ (board.eint e').irq = e.irq then false
      else s.irq.isEnabled e.irq := by
  have hcn : (if s.cnCounter p.gpio - 1 = 0 then s.irq.disable (irqChangeNoticeA + p.gpio)
      else s.irq).isEnabled e.irq = s.irq.isEnabled e.irq := by
    have hne : e.irq ≠ irqChangeNoticeA + p.gpio := by
      have hlt := e.irq_lt
      omega
    split
    · rw [Irq.isEnabled_disable, if_neg hne]
    · rfl
  unfold detachIrq
  cases p.eint with
  | none => simpa using hcn
  | some e' =>
    dsimp only
    rw [Irq.isEnabled_disable, hcn]
    simp only [Option.some.injEq, exists_eq_left', eq_comm]

lemma get_detachIrq (board : Board) (p : Pin) (s : Pins κ) (i : ℕ) :
    (s.detachIrq board p).get i = s.irq.get i := by
  unfold detachIrq
  cases p.eint <;> dsimp only <;> split <;> rfl

/-- The outcomes of an effective call on the pin `p`. `attachInterrupt` with EXTERNAL on a pin that
is no external interrupt ends as a `detachInterrupt`. -/
inductive Outcome (board : Board) (s : Pins κ) (p : Pin) : PinCall κ → Pins κ → Prop
  | external (pin : ℕ) (func : κ) (mode : Word) (e : ℕ) (reg : Gpio → GpioReg → Word) (cpu : Cpu)
      (he : p.eint = some e) (hmode : Mode.has mode Mode.external = true) :
      Outcome board s p (.attach pin (some func) mode) {
        reg := reg
        irq := (((s.detachIrq board p).priority (board.eint e).irq (board.eint e).pri
          (board.eint e).sub).clear (board.eint e).irq).enable (board.eint e).irq
        intcon := s.intcon |||
          (if Mode.has mode Mode.rising then 1 else 0 : Word) <<< (board.eint e).id
        cnCounter := Function.update s.cnCounter p.gpio (s.cnCounter p.gpio - 1)
        eintMode := Function.update s.eintMode e mode
        callback := Function.update s.callback pin (some func)
        cpu := cpu }
  | notice (pin : ℕ) (func : κ) (mode : Word) (reg : Gpio → GpioReg → Word)
      (hmode : Mode.has mode Mode.external = false) :
      Outcome board s p (.attach pin (some func) mode) {
        reg := reg
        irq := (((s.detachIrq board p).priority (irqChangeNoticeA + p.gpio)
          (board.cnPriority p.gpio).1 (board.cnPriority p.gpio).2).clear
            (irqChangeNoticeA + p.gpio)).enable (irqChangeNoticeA + p.gpio)
        intcon := s.intcon
        cnCounter := s.cnCounter
        eintMode := s.eintMode
        callback := Function.update s.callback pin (some func)
        cpu := s.cpu }
  | detached (c : PinCall κ) (reg : Gpio → GpioReg → Word) (hnotices : c.Notices = false)
      (hexternal : ∀ pin func mode, c = .attach pin func mode → p.eint = none) :
      Outcome board s p c {
        reg := reg
        irq := s.detachIrq board p
        intcon := s.intcon
        cnCounter := Function.update s.cnCounter p.gpio (s.cnCounter p.gpio - 1)
        eintMode := s.eintMode
        callback := Function.update s.callback c.pin none
        cpu := s.cpu }

lemma outcome_external {e : ℕ} {mode : Word} (hp : board.pins[pin]? = some p)
    (he : p.eint = some e) (hmode : Mode.has mode Mode.external = true) (func : κ) (s : Pins κ) :
    Outcome board s p (.attach pin (some func) mode)
      (s.attachInterrupt board pin (some func) mode) := by
  obtain ⟨reg, hdetach⟩ := detachInterrupt_eq hp s
  obtain ⟨reg', hmode'⟩ := pinMode_eq board pin mode (s.detachInterrupt board pin)
  obtain ⟨cpu, hattach⟩ := attachExternal_eq board e mode
    ((s.detachInterrupt board pin).pinMode board pin mode)
  unfold attachInterrupt
  simp only [hp, hmode, he, if_true]
  rw [hattach, hmode', hdetach]
  simp only [attachCallback, setCallback, withIrq, Function.update_idem]
  exact .external pin func mode e reg' cpu he hmode

lemma outcome_refused {mode : Word} (hp : board.pins[pin]? = some p) (he : p.eint = none)
    (hmode : Mode.has mode Mode.external = true) (func : κ) (s : Pins κ) :
    Outcome board s p (.attach pin (some func) mode)
      (s.attachInterrupt board pin (some func) mode) := by
  obtain ⟨reg, hdetach⟩ := detachInterrupt_eq hp s
  obtain ⟨reg', hmode'⟩ := pinMode_eq board pin mode (s.detachInterrupt board pin)
  unfold attachInterrupt
  simp only [hp, hmode, he, if_true]
  rw [hmode', hdetach]
  exact .detached (.attach pin (some func) mode) reg' (by simp [PinCall.Notices, hmode])
    fun _ _ _ _ => he

lemma outcome_notice {mode : Word} (hp : board.pins[pin]? = some p)
    (hmode : Mode.has mode Mode.external = false) (func : κ) (s : Pins κ) :
    Outcome board s p (.attach pin (some func) mode)
      (s.attachInterrupt board pin (some func) mode) := by
  obtain ⟨reg, hdetach⟩ := detachInterrupt_eq hp s
  obtain ⟨reg', hmode'⟩ := pinMode_eq board pin mode (s.detachInterrupt board pin)
  obtain ⟨reg'', hattach⟩ := attachNotice_eq board p mode
    ((s.detachInterrupt board pin).pinMode board pin mode)
  unfold attachInterrupt
  simp only [hp, hmode, Bool.false_eq_true, if_false]
  rw [hattach, hmode', hdetach]
  simp only [attachCallback, setCallback, withIrq, Function.update_idem, Function.update_self,
    BitVec.sub_add_cancel, Function.update_eq_self]
  exact .notice pin func mode reg'' hmode

lemma outcome_detach (hp : board.pins[pin]? = some p) (s : Pins κ) :
    Outcome board s p (.detach pin) (s.detachInterrupt board pin) := by
  obtain ⟨reg, hdetach⟩ := detachInterrupt_eq hp s
  rw [hdetach]
  exact .detached (.detach pin) reg rfl fun _ _ _ h => by cases h

/-- Every effective call has one of the outcomes. -/
theorem exec_outcome {c : PinCall κ} (h : c.Effective board = true) (s : Pins κ) :
    ∃ p, board.pins[c.pin]? = some p ∧ Outcome board s p c (c.exec board s) := by
  cases c with
  | attach pin func mode =>
    cases func with
    | none => simp [PinCall.Effective] at h
    | some func =>
      have hlt : pin < board.pins.length := by simpa [PinCall.Effective] using h
      have hp := List.getElem?_eq_getElem hlt
      refine ⟨board.pins[pin], hp, ?_⟩
      cases hmode : Mode.has mode Mode.external with
      | true =>
        cases he : board.pins[pin].eint with
        | some e => exact outcome_external hp he hmode func s
        | none => exact outcome_refused hp he hmode func s
      | false => exact outcome_notice hp hmode func s
  | detach pin =>
    have hlt : pin < board.pins.length := by simpa [PinCall.Effective] using h
    have hp := List.getElem?_eq_getElem hlt
    exact ⟨board.pins[pin], hp, outcome_detach hp s⟩

end Pins

lemma PinCall.exec_of_not_effective {κ : Type} {board : Board} {c : PinCall κ}
    (h : c.Effective board = false) (s : Pins κ) : c.exec board s = s := by
  cases c with
  | attach pin func mode =>
    have hnone : board.pins[pin]? = none ∨ func = none := by
      by_cases hpin : pin < board.pins.length
      · simp only [Effective, hpin, decide_true, Bool.true_and, Option.isSome_eq_false_iff] at h
        exact Or.inr (Option.isNone_iff_eq_none.mp h)
      · exact Or.inl (List.getElem?_eq_none (by omega))
    unfold exec Pins.attachInterrupt
    rcases hnone with hnone | hnone <;> simp [hnone]
  | detach pin =>
    have hpin : board.pins.length ≤ pin := by simpa [Effective] using h
    change s.detachInterrupt board pin = s
    unfold Pins.detachInterrupt
    rw [List.getElem?_eq_none hpin]

end FrameworkXC32
