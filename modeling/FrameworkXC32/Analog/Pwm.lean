import FrameworkXC32.CoreTimer.Model
import FrameworkXC32.Critical.Processes
import FrameworkXC32.Lib.Runs
import Mathlib.Algebra.Order.Floor.Semiring
import Mathlib.Data.Rat.Floor

/-!
# Pulse-width modulation

The PWM functions of `wiring_analog.c` on the registers of the timers and of the output compare
modules. Several channels may be fed by one timer, whose period is set when a channel is opened.
-/

namespace FrameworkXC32
open Machine Runs

/-- A timer, by its number. -/
abbrev Timer := ℕ

/-- An entry of the table `peri` for an output compare module, with its remap register. -/
structure PeripheryPwm where
  txConAlt : Timer
  rPin : ℕ
  rVal : Word

/-- The tables of a board; the entry of a pin is an index. No two entries have the same module. -/
structure PwmBoard where
  pins : List (Option ℕ)
  peri : ℕ → PeripheryPwm

/-- The registers, those of a module under the index of its entry, and the members `TxCON` of the
table. A period register has 16 bits. -/
structure Pwm where
  tCon : Timer → Word
  pr : Timer → BitVec 16
  ocCon : ℕ → Word
  ocRs : ℕ → Word
  txCon : ℕ → Timer
  cpu : Cpu

/-- `_OC1CON_ON_MASK` and `_T2CON_ON_MASK` -/
def onMask : Word := 0x8000

/-- `PWM_prescaler` -/
def pwmPrescaler (clock frequency : Word) : ℕ :=
  if frequency ≠ 0 then
    let divided := clock / frequency
    ((List.range 8).find? fun i => divided / (1 <<< i) < 0x10000).getD 7
  else 7

/-- What `PWM_timer_init` writes to the period register. -/
def pwmPeriod (clock frequency : Word) : BitVec 16 :=
  (clock / frequency / (1 <<< pwmPrescaler clock frequency)).setWidth 16

/-- `duty` between 0 and 100, and the part of a period that it asks for. -/
def pwmPulse (pr : BitVec 16) (duty : ℚ) : Word :=
  let duty := if duty > 100 then 100 else duty
  let duty := if duty < 0 then 0 else duty
  BitVec.ofNat 32 ⌊(pr.toNat : ℚ) * (duty / 100)⌋₊

namespace Pwm

variable (board : PwmBoard) (ocaclk : Bool) (clock : Word)

/-- The timer that feeds a module, by `CFGCON.OCACLK`. -/
def feeds (i : ℕ) : Timer := if ocaclk then (board.peri i).txConAlt else 2

def isOpen (i : ℕ) (s : Pwm) : Bool := s.ocCon i &&& onMask ≠ 0

def setRs (i : ℕ) (val : Word) (s : Pwm) : Pwm := { s with ocRs := Function.update s.ocRs i val }

/-- `PWM_timer_init`, `none` for its result -1. -/
def timerInit (t : Timer) (frequency : Word) (s : Pwm) : Option Pwm :=
  if frequency ≠ 0 then
    some { s with
      pr := Function.update s.pr t (pwmPeriod clock frequency)
      tCon := Function.update s.tCon t
        (onMask ||| BitVec.ofNat 32 (pwmPrescaler clock frequency) <<< 4) }
  else none

/-- `PWM_open`: whether it returns an entry, and the registers behind it. -/
def openChannel (i : ℕ) (frequency : Word) (duty : ℚ) (s : Pwm) : Bool × Pwm :=
  if s.isOpen i then (true, s)
  else
    let s := { s with txCon := Function.update s.txCon i (feeds board ocaclk i) }
    match s.timerInit clock (s.txCon i) frequency with
    | none => (false, s)
    | some s =>
      let s := s.setRs i (pwmPulse (s.pr (s.txCon i)) duty)
      let s := { s with ocCon := Function.update s.ocCon i (onMask ||| 6) }
      (true, { s with cpu := s.cpu.pinMux (.rpr (board.peri i).rPin) (board.peri i).rVal })

/-- The entry of a pin. -/
def entry (pin : ℕ) : Option ℕ := (board.pins[pin]?).join

def begin (pin : ℕ) (frequency : Word) (duty : ℚ) (s : Pwm) : ℤ × Pwm :=
  match entry board pin with
  | some i =>
    let (opened, s) := s.openChannel board ocaclk clock i frequency duty
    (if opened then (s.pr (s.txCon i)).toNat else -1, s)
  | none => (-1, s)

def writeDuty (pin : ℕ) (duty : ℚ) (s : Pwm) : ℤ × Pwm :=
  match entry board pin with
  | some i =>
    let (opened, s) := s.openChannel board ocaclk clock i 1000 duty
    (0, if opened then s.setRs i (pwmPulse (s.pr (s.txCon i)) duty) else s)
  | none => (-1, s)

def writeValule (pin : ℕ) (val : Word) (s : Pwm) : Pwm :=
  match entry board pin with
  | some i =>
    let val := val &&& 0xFFFF
    let (opened, s) := s.openChannel board ocaclk clock i 1000 val.toNat
    let pr := (s.pr (s.txCon i)).setWidth 32
    if opened then s.setRs i (if val > pr then pr else val) else s
  | none => s

end Pwm

/-- The calls of a sketch. -/
inductive PwmCall
  | begin (pin : ℕ) (frequency : Word) (duty : ℚ)
  | writeDuty (pin : ℕ) (duty : ℚ)
  | writeValule (pin : ℕ) (val : Word)

namespace PwmCall

variable (board : PwmBoard) (ocaclk : Bool) (clock : Word)

def exec (s : Pwm) : PwmCall → Pwm
  | .begin pin frequency duty => (s.begin board ocaclk clock pin frequency duty).2
  | .writeDuty pin duty => (s.writeDuty board ocaclk clock pin duty).2
  | .writeValule pin val => s.writeValule board ocaclk clock pin val

def pin : PwmCall → ℕ
  | .begin pin _ _ => pin
  | .writeDuty pin _ => pin
  | .writeValule pin _ => pin

/-- The frequency with which the call opens its channel. -/
def frequency : PwmCall → Word
  | .begin _ frequency _ => frequency
  | .writeDuty _ _ => 1000
  | .writeValule _ _ => 1000

/-- The channel that the call opens, if it is closed. -/
def opens (s : Pwm) (call : PwmCall) : Option ℕ :=
  (Pwm.entry board call.pin).filter fun i => !s.isOpen i && call.frequency ≠ 0

end PwmCall

/-! ### What a call changes -/

lemma pwmPulse_le (pr : BitVec 16) (duty : ℚ) : (pwmPulse pr duty).toNat ≤ pr.toNat := by
  unfold pwmPulse
  dsimp only
  have hle : ∀ d : ℚ, d ≤ 100 → ⌊(pr.toNat : ℚ) * (d / 100)⌋₊ ≤ pr.toNat := by
    intro d hd
    apply Nat.floor_le_of_le
    have hpr : (0 : ℚ) ≤ pr.toNat := Nat.cast_nonneg _
    have hone : d / 100 ≤ 1 := (div_le_one (by norm_num)).mpr hd
    calc (pr.toNat : ℚ) * (d / 100) ≤ pr.toNat * 1 := mul_le_mul_of_nonneg_left hone hpr
      _ = pr.toNat := mul_one _
  have hclamped : (if (if duty > 100 then 100 else duty) < 0 then 0
      else if duty > 100 then 100 else duty) ≤ (100 : ℚ) := by
    split_ifs <;> linarith
  have hfloor := hle _ hclamped
  have hpr := pr.isLt
  rw [BitVec.toNat_ofNat, Nat.mod_eq_of_lt (by omega)]
  exact hfloor

section Calls

variable {board : PwmBoard} {ocaclk : Bool} {clock : Word} {s : Pwm}

namespace Pwm

lemma openChannel_open {i : ℕ} (h : s.isOpen i = true) (frequency : Word) (duty : ℚ) :
    s.openChannel board ocaclk clock i frequency duty = (true, s) := by
  unfold openChannel
  rw [if_pos h]

lemma openChannel_zero {i : ℕ} (h : s.isOpen i = false) (duty : ℚ) :
    s.openChannel board ocaclk clock i 0 duty =
      (false, { s with txCon := Function.update s.txCon i (feeds board ocaclk i) }) := by
  unfold openChannel timerInit
  simp [h]

/-- A channel that is opened. -/
structure Opened (board : PwmBoard) (ocaclk : Bool) (clock : Word) (i : ℕ) (frequency : Word)
    (s t : Pwm) : Prop where
  pr : t.pr = Function.update s.pr (feeds board ocaclk i) (pwmPeriod clock frequency)
  ocCon : t.ocCon = Function.update s.ocCon i (onMask ||| 6)
  txCon : t.txCon = Function.update s.txCon i (feeds board ocaclk i)
  ocRs : ∃ val, t.ocRs = Function.update s.ocRs i val ∧
    val.toNat ≤ (pwmPeriod clock frequency).toNat

variable (board ocaclk clock) in
lemma openChannel_closed {i : ℕ} (h : s.isOpen i = false) {frequency : Word}
    (hfrequency : frequency ≠ 0) (duty : ℚ) :
    (s.openChannel board ocaclk clock i frequency duty).1 = true ∧
      Opened board ocaclk clock i frequency s
        (s.openChannel board ocaclk clock i frequency duty).2 := by
  unfold openChannel timerInit
  rw [if_neg (by simp [h])]
  dsimp only
  rw [if_pos hfrequency, Function.update_self]
  dsimp only
  refine ⟨rfl, rfl, rfl, rfl, _, rfl, ?_⟩
  rw [Function.update_self, Function.update_self]
  exact pwmPulse_le _ _

lemma Opened.setRs {i : ℕ} {frequency : Word} {t : Pwm}
    (h : Opened board ocaclk clock i frequency s t) {val : Word}
    (hval : val.toNat ≤ (t.pr (t.txCon i)).toNat) :
    Opened board ocaclk clock i frequency s (t.setRs i val) := by
  obtain ⟨old, hold, -⟩ := h.ocRs
  refine ⟨h.pr, h.ocCon, h.txCon, val, ?_, ?_⟩
  · change Function.update t.ocRs i val = _
    rw [hold, Function.update_idem]
  · rw [h.txCon, Function.update_self, h.pr, Function.update_self] at hval
    exact hval

/-- A call that opens no channel: only the module of an open channel is written. -/
structure Written (s t : Pwm) : Prop where
  pr : t.pr = s.pr
  ocCon : t.ocCon = s.ocCon
  txCon : ∀ j, s.isOpen j = true → t.txCon j = s.txCon j
  ocRs : ∀ j, s.isOpen j = true →
    t.ocRs j = s.ocRs j ∨ (t.ocRs j).toNat ≤ (s.pr (s.txCon j)).toNat

lemma Written.refl (s : Pwm) : Written s s := ⟨rfl, rfl, fun _ _ => rfl, fun _ _ => Or.inl rfl⟩

lemma written_zero {i : ℕ} (h : s.isOpen i = false) (t : Timer) :
    Written s { s with txCon := Function.update s.txCon i t } := by
  refine ⟨rfl, rfl, fun j hj => Function.update_of_ne ?_ _ _, fun _ _ => Or.inl rfl⟩
  rintro rfl
  rw [h] at hj
  cases hj

lemma written_setRs {i : ℕ} {val : Word} (hval : val.toNat ≤ (s.pr (s.txCon i)).toNat) :
    Written s (s.setRs i val) := by
  refine ⟨rfl, rfl, fun _ _ => rfl, fun j _ => ?_⟩
  unfold setRs
  dsimp only
  by_cases hj : j = i
  · subst hj
    rw [Function.update_self]
    exact Or.inr hval
  · rw [Function.update_of_ne hj]
    exact Or.inl rfl

lemma min_pr_le (val : Word) (pr : BitVec 16) :
    (if val > pr.setWidth 32 then pr.setWidth 32 else val).toNat ≤ pr.toNat := by
  have hpr : (pr.setWidth 32).toNat = pr.toNat := by
    rw [BitVec.toNat_setWidth, Nat.mod_eq_of_lt (by have := pr.isLt; omega)]
  split
  · exact hpr.le
  · rename_i h
    rw [gt_iff_lt, BitVec.lt_def, hpr] at h
    omega

end Pwm

namespace PwmCall

open Pwm

variable (ocaclk clock s) in
lemma exec_eq (call : PwmCall) {i : ℕ} (hi : entry board call.pin = some i) :
    ∃ (duty : ℚ) (write : Pwm → Pwm), call.exec board ocaclk clock s =
        (if (s.openChannel board ocaclk clock i call.frequency duty).1
          then write (s.openChannel board ocaclk clock i call.frequency duty).2
          else (s.openChannel board ocaclk clock i call.frequency duty).2) ∧
      ∀ t : Pwm, write t = t ∨ ∃ val, write t = t.setRs i val ∧
        val.toNat ≤ (t.pr (t.txCon i)).toNat := by
  cases call with
  | begin pin frequency duty =>
    refine ⟨duty, id, ?_, fun t => Or.inl rfl⟩
    rw [exec, Pwm.begin, show entry board pin = some i from hi]
    exact (ite_self _).symm
  | writeDuty pin duty =>
    refine ⟨duty, fun t => t.setRs i (pwmPulse (t.pr (t.txCon i)) duty), ?_,
      fun t => Or.inr ⟨_, rfl, pwmPulse_le _ _⟩⟩
    rw [exec, Pwm.writeDuty, show entry board pin = some i from hi]
    rfl
  | writeValule pin val =>
    refine ⟨((val &&& 0xFFFF).toNat : ℚ), fun t => t.setRs i
      (if val &&& 0xFFFF > (t.pr (t.txCon i)).setWidth 32 then (t.pr (t.txCon i)).setWidth 32
        else val &&& 0xFFFF), ?_, fun t => Or.inr ⟨_, rfl, min_pr_le _ _⟩⟩
    rw [exec, Pwm.writeValule, show entry board pin = some i from hi]
    rfl

variable (ocaclk clock) in
lemma exec_opens (call : PwmCall) {i : ℕ} (h : call.opens board s = some i) :
    Opened board ocaclk clock i call.frequency s (call.exec board ocaclk clock s) := by
  obtain ⟨hi, hclosed⟩ := Option.filter_eq_some_iff.mp h
  simp only [Bool.and_eq_true, Bool.not_eq_true', decide_eq_true_eq] at hclosed
  obtain ⟨duty, write, hexec, hwrite⟩ :=
    exec_eq ocaclk clock s call hi
  obtain ⟨hopen, hopened⟩ :=
    openChannel_closed board ocaclk clock hclosed.1 hclosed.2 duty
  rw [hexec, if_pos hopen]
  rcases hwrite (s.openChannel board ocaclk clock i call.frequency duty).2 with
    hkept | ⟨val, hset, hval⟩
  · rw [hkept]
    exact hopened
  · rw [hset]
    exact hopened.setRs hval

variable (ocaclk clock) in
lemma exec_writes (call : PwmCall) (h : call.opens board s = none) :
    Written s (call.exec board ocaclk clock s) := by
  cases hi : entry board call.pin with
  | none =>
    have hkept : call.exec board ocaclk clock s = s := by
      cases call with
      | begin pin frequency duty => rw [exec, Pwm.begin, show entry board pin = none from hi]
      | writeDuty pin duty => rw [exec, Pwm.writeDuty, show entry board pin = none from hi]
      | writeValule pin val => rw [exec, Pwm.writeValule, show entry board pin = none from hi]
    rw [hkept]
    exact Written.refl s
  | some i =>
    obtain ⟨duty, write, hexec, hwrite⟩ :=
      exec_eq ocaclk clock s call hi
    rw [hexec]
    cases hopen : s.isOpen i with
    | true =>
      rw [openChannel_open hopen, if_pos rfl]
      rcases hwrite s with hkept | ⟨val, hset, hval⟩
      · rw [hkept]
        exact Written.refl s
      · rw [hset]
        exact written_setRs hval
    | false =>
      have hzero : call.frequency = 0 := by
        by_contra hne
        rw [opens, hi] at h
        simp only [hopen, Option.filter_some, Bool.not_false, Bool.true_and] at h
        rw [if_pos (decide_eq_true hne)] at h
        cases h
      rw [hzero, openChannel_zero hopen]
      exact written_zero hopen _

end PwmCall

/-! ### Whole runs -/

namespace Pwm

/-- The table says of every open channel which timer feeds it. -/
def Fed (board : PwmBoard) (ocaclk : Bool) (s : Pwm) : Prop :=
  ∀ i, s.isOpen i = true → s.txCon i = feeds board ocaclk i

/-- No open channel is stuck high. -/
def Fits (board : PwmBoard) (ocaclk : Bool) (s : Pwm) : Prop :=
  ∀ i, s.isOpen i = true → (s.ocRs i).toNat ≤ (s.pr (feeds board ocaclk i)).toNat

/-- The call leaves the periods of the timers that feed open channels. -/
def KeepsPeriods (board : PwmBoard) (ocaclk : Bool) (clock : Word) (s : Pwm) (call : PwmCall) :
    Prop :=
  ∀ i, s.isOpen i = true → (call.exec board ocaclk clock s).pr (feeds board ocaclk i) =
    s.pr (feeds board ocaclk i)

/-- A call opens a channel only on a timer that feeds no open one, or whose period is the one that
the call computes for its own frequency. -/
def SuitsTimer (board : PwmBoard) (ocaclk : Bool) (clock : Word) (s : Pwm) (call : PwmCall) :
    Prop :=
  ∀ i ∈ call.opens board s, ∀ j, s.isOpen j = true → feeds board ocaclk j = feeds board ocaclk i →
    pwmPeriod clock call.frequency = s.pr (feeds board ocaclk i)

lemma Opened.isOpen {i : ℕ} {frequency : Word} {t : Pwm}
    (h : Opened board ocaclk clock i frequency s t) (j : ℕ) :
    t.isOpen j = true ↔ j = i ∨ s.isOpen j = true := by
  unfold Pwm.isOpen
  rw [h.ocCon]
  by_cases hj : j = i
  · subst hj
    rw [Function.update_self]
    exact iff_of_true (by decide) (Or.inl rfl)
  · rw [Function.update_of_ne hj]
    simp [hj]

lemma Written.isOpen {t : Pwm} (h : Written s t) (j : ℕ) : t.isOpen j = s.isOpen j := by
  unfold Pwm.isOpen
  rw [h.ocCon]

lemma Fed.exec (h : s.Fed board ocaclk) (call : PwmCall) :
    (call.exec board ocaclk clock s).Fed board ocaclk := by
  intro j hj
  cases hopens : call.opens board s with
  | none =>
    have hwritten := call.exec_writes ocaclk clock hopens
    rw [hwritten.isOpen] at hj
    rw [hwritten.txCon j hj, h j hj]
  | some i =>
    have hopened := call.exec_opens ocaclk clock hopens
    rw [hopened.txCon]
    by_cases hji : j = i
    · rw [hji, Function.update_self]
    · rw [Function.update_of_ne hji]
      exact h j (((hopened.isOpen j).mp hj).resolve_left hji)

lemma Fits.exec_writes (h : s.Fits board ocaclk) (hfed : s.Fed board ocaclk) {call : PwmCall}
    (hopens : call.opens board s = none) : (call.exec board ocaclk clock s).Fits board ocaclk := by
  have hwritten := call.exec_writes ocaclk clock hopens
  intro j hj
  rw [hwritten.isOpen] at hj
  rw [hwritten.pr]
  rcases hwritten.ocRs j hj with hkept | hle
  · rw [hkept]
    exact h j hj
  · rw [hfed j hj] at hle
    exact hle

lemma Fits.exec_opens (h : s.Fits board ocaclk) {call : PwmCall} {i : ℕ}
    (hopens : call.opens board s = some i) (hkeeps : s.KeepsPeriods board ocaclk clock call) :
    (call.exec board ocaclk clock s).Fits board ocaclk := by
  have hopened := call.exec_opens ocaclk clock hopens
  obtain ⟨val, hrs, hval⟩ := hopened.ocRs
  intro j hj
  rw [hrs]
  by_cases hji : j = i
  · rw [hji, hopened.pr, Function.update_self, Function.update_self]
    exact hval
  · have hopen := ((hopened.isOpen j).mp hj).resolve_left hji
    rw [hkeeps j hopen, Function.update_of_ne hji]
    exact h j hopen

lemma keepsPeriods_iff (call : PwmCall) :
    s.KeepsPeriods board ocaclk clock call ↔ s.SuitsTimer board ocaclk clock call := by
  cases hopens : call.opens board s with
  | none =>
    have hwritten := call.exec_writes ocaclk clock hopens
    refine iff_of_true (fun j _ => by rw [hwritten.pr]) fun i hi => ?_
    rw [hopens] at hi
    cases hi
  | some i =>
    have hopened := call.exec_opens ocaclk clock hopens
    constructor
    · intro hkeeps k hk j hj hfeeds
      rw [hopens] at hk
      cases hk
      have hsame := hkeeps j hj
      rw [hfeeds, hopened.pr, Function.update_self] at hsame
      exact hsame
    · intro hsuits j hj
      rw [hopened.pr]
      by_cases hfeeds : feeds board ocaclk j = feeds board ocaclk i
      · rw [hfeeds, Function.update_self]
        exact hsuits i hopens j hj hfeeds
      · rw [Function.update_of_ne hfeeds]

/-- From a state without an open channel: in every state of the run the pulses fit the periods,
and no call changes the period of a timer that feeds an open channel, exactly when every call that
opens a channel suits the timer that is to feed it. -/
theorem channels_undisturbed_iff (hclosed : ∀ i, s.isOpen i = false) (calls : List PwmCall) :
    (∀ done, done <+: calls → (done.foldl (PwmCall.exec board ocaclk clock) s).Fits board ocaclk) ∧
        (∀ done call, done ++ [call] <+: calls →
          (done.foldl (PwmCall.exec board ocaclk clock) s).KeepsPeriods board ocaclk clock call) ↔
      ∀ done call, done ++ [call] <+: calls →
        (done.foldl (PwmCall.exec board ocaclk clock) s).SuitsTimer board ocaclk clock call := by
  have hfed : s.Fed board ocaclk := by
    intro i hi
    rw [hclosed i] at hi
    cases hi
  have hfits : s.Fits board ocaclk := by
    intro i hi
    rw [hclosed i] at hi
    cases hi
  refine holds_along_steps_iff (fun t call ht => ht.exec call) ?_ hfed hfits calls
  intro t call ht hfits
  rw [← keepsPeriods_iff]
  refine ⟨And.right, fun hkeeps => ⟨?_, hkeeps⟩⟩
  cases hopens : call.opens board t with
  | none => exact hfits.exec_writes ht hopens
  | some i => exact hfits.exec_opens hopens hkeeps

end Pwm

end Calls

namespace EFM100

/-- The entries of `peri` for the output compare modules, and the pins that have one. -/
def pwmBoard : PwmBoard where
  pins := [none, none, none, some 5, some 4, some 6, none, none, none, none, none, none, none,
    some 2, none, none, none, none, none, none, none, none, none, none, none, some 3]
  peri := fun i =>
    if i = 2 then ⟨4, 2, 12⟩ else if i = 3 then ⟨4, 3, 13⟩ else if i = 4 then ⟨2, 4, 11⟩
    else if i = 5 then ⟨4, 5, 11⟩ else ⟨2, 6, 11⟩

/-- The registers after a reset. -/
def pwmReset : Pwm where
  tCon := fun _ => 0
  pr := fun _ => 0xFFFF
  ocCon := fun _ => 0
  ocRs := fun _ => 0
  txCon := fun _ => 2
  cpu := ⟨1, fun _ => 0, coreTimerAtBoot 200000000, ⟨fun _ => none, none⟩⟩

lemma pwmReset_closed (i : ℕ) : pwmReset.isOpen i = false := by
  change decide ((0 : Word) &&& onMask ≠ 0) = false
  decide

end EFM100

namespace Pwm

/-- Two channels of the LED, with the frequency of `analogWrite`. -/
def ledCalls : List PwmCall := [.writeValule 3 40000, .writeValule 4 100]

/-- The second one computes the period that the timer has. -/
theorem channels_undisturbed_led :
    (∀ done, done <+: ledCalls →
      (done.foldl (PwmCall.exec EFM100.pwmBoard false 100000000) EFM100.pwmReset).Fits
        EFM100.pwmBoard false) ∧
    (∀ done call, done ++ [call] <+: ledCalls →
      (done.foldl (PwmCall.exec EFM100.pwmBoard false 100000000) EFM100.pwmReset).KeepsPeriods
        EFM100.pwmBoard false 100000000 call) := by
  refine (channels_undisturbed_iff EFM100.pwmReset_closed ledCalls).mpr ?_
  intro done call hprefix i _ j hopen _
  rcases done with _ | ⟨first, _ | ⟨second, rest⟩⟩
  · rw [List.foldl_nil, EFM100.pwmReset_closed] at hopen
    cases hopen
  · simp only [ledCalls, List.cons_append, List.nil_append, List.cons_prefix_cons] at hprefix
    obtain ⟨rfl, rfl, -⟩ := hprefix
    change pwmPeriod 100000000 1000 =
      (PwmCall.exec EFM100.pwmBoard false 100000000 EFM100.pwmReset (.writeValule 3 40000)).pr 2
    decide
  · have hlength := hprefix.length_le
    simp [ledCalls] at hlength

/-- A second channel with a higher frequency leaves the first one stuck high. -/
theorem channel_disturbed : ¬ ∀ (board : PwmBoard) (ocaclk : Bool) (clock : Word) (s : Pwm)
    (calls : List PwmCall), (∀ i, s.isOpen i = false) →
    (calls.foldl (PwmCall.exec board ocaclk clock) s).Fits board ocaclk := by
  intro h
  have hfits := h EFM100.pwmBoard false 100000000 EFM100.pwmReset
    [.writeValule 3 40000, .begin 4 20000 50] EFM100.pwmReset_closed 5 (by decide)
  exact absurd hfits (by decide)

end Pwm

end FrameworkXC32
